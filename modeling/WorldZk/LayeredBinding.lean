import WorldZk.LayeredChecks
import WorldZk.SpongeLaws

/-!
# Are the layers of a layered proof chained?

`GKRVerifier` carries the claim commitment from layer to layer and compares it with nothing on the
way: each layer's sumcheck runs on the `sum` of its own proof, and a committed input is opened to
the `comEval` of its own proof. The claim-bound verification below puts in their place what an
honest prover commits to: the coefficient times the running claim, and the combination of the
claims on the input.
-/

namespace WorldZk.LayeredBinding

open CheckedRuns PoseidonSponge ProofTypes VerifierBackend CommittedSumcheck InputLayers
open DagLayers hiding LayerRun computeOracleEval
open Bn254Moduli FieldArithmetic NativeCurve Transcript ProofDecoding SolidityVerifier
open LayeredVerifier

/-! ## Points of the precompiles -/

theorem scalarMul_eq_ok {p q : G1Point} {s : ℕ} :
    scalarMul p s = .ok q ↔ isOnCurve p = true ∧ NativeCurve.ecMul p s = q := by
  simp only [scalarMul, bind_eq_ok, require_eq_ok, pure_eq_ok]
  constructor
  · rintro ⟨_, hp, rfl⟩
    exact ⟨hp, rfl⟩
  · rintro ⟨hp, rfl⟩
    exact ⟨(), hp, rfl⟩

theorem ecAdd_eq_ok {p q r : G1Point} :
    SolidityVerifier.ecAdd p q = .ok r ↔
      isOnCurve p = true ∧ isOnCurve q = true ∧ NativeCurve.ecAdd p q = r := by
  simp only [SolidityVerifier.ecAdd, bind_eq_ok, require_eq_ok, pure_eq_ok, Bool.and_eq_true]
  constructor
  · rintro ⟨_, ⟨hp, hq⟩, rfl⟩
    exact ⟨hp, hq, rfl⟩
  · rintro ⟨hp, hq, rfl⟩
    exact ⟨(), ⟨hp, hq⟩, rfl⟩

theorem challenge_lt (s : Sponge) : (challenge solBackend s).1 < FR_MOD :=
  Nat.mod_lt _ FR_MOD_prime.pos

theorem mem_challenges_lt {n : ℕ} {s : Sponge} {c : ℕ} (hc : c ∈ (challenges solBackend n s).1) :
    c < FR_MOD :=
  forall_mem_challenges (P := (· < FR_MOD)) solBackend challenge_lt n s c hc

/-- Equal left sides of a dot-product equation come from equal commitments, the challenge being
nonzero: the precompiles have checked that the points are on the curve. -/
theorem podpLhs_injective {com com' mask p : G1Point} {c : ℕ} (hc : c < FR_MOD) (hc0 : c ≠ 0)
    (h : podpLhs solBackend com c mask = .ok p) (h' : podpLhs solBackend com' c mask = .ok p) :
    com = com' := by
  simp only [podpLhs, bind_eq_ok] at h h'
  obtain ⟨q, hq, hadd⟩ := h
  obtain ⟨q', hq', hadd'⟩ := h'
  obtain ⟨hcom, rfl⟩ := scalarMul_eq_ok.mp hq
  obtain ⟨hcom', rfl⟩ := scalarMul_eq_ok.mp hq'
  obtain ⟨-, hmask, rfl⟩ := ecAdd_eq_ok.mp hadd
  obtain ⟨-, -, heq⟩ := ecAdd_eq_ok.mp hadd'
  obtain ⟨P, rfl⟩ := (isOnCurve_iff com).mp hcom
  obtain ⟨P', rfl⟩ := (isOnCurve_iff com').mp hcom'
  obtain ⟨M, rfl⟩ := (isOnCurve_iff mask).mp hmask
  have hword : c < WORD := hc.trans FR_MOD_lt_word
  have hdvd : ¬FR_MOD ∣ c := fun hd => hc0 (Nat.eq_zero_of_dvd_of_lt hd hc)
  rw [ecMul_encode P hword, ecMul_encode P' hword, ecAdd_encode, ecAdd_encode] at heq
  exact congrArg encode (nsmul_left_cancel hdvd (add_right_cancel (encode_injective heq))).symm

/-- Two accepted dot-product proofs with the same responses and a nonzero challenge have the same
second commitment. -/
theorem verifyPodp_unique {podp : PODPProof} {c : ℕ} (hc : c < FR_MOD) (hc0 : c ≠ 0)
    {comX comX' comY comY' : G1Point} {aVector : List ℕ} {gens : PedersenGens}
    (h : verifyPodp solBackend podp c comX comY aVector gens = .ok true)
    (h' : verifyPodp solBackend podp c comX' comY' aVector gens = .ok true) : comY = comY' := by
  obtain ⟨rhs, hrhs, -, hlhs⟩ := (verifyPodp_true _).mp h
  obtain ⟨rhs', hrhs', -, hlhs'⟩ := (verifyPodp_true _).mp h'
  obtain rfl : rhs = rhs' := Except.ok.inj (hrhs.symm.trans hrhs')
  exact podpLhs_injective hc hc0 hlhs hlhs'

/-! ## One layer pins its sum -/

/-- The challenges that cancel in a layer's second dot-product equation are nonzero. -/
def Nonzero (ch : LayerChallenges) : Prop := ch.rhos[0]? ≠ some 0 ∧ ch.podpChallenge ≠ 0

instance (ch : LayerChallenges) : Decidable (Nonzero ch) := inferInstanceAs (Decidable (_ ∧ _))

theorem sumcheckHolds_unique {proof : CommittedSumcheckProof} {oracleEval sum sum' : G1Point}
    {degree : ℕ} {ch : LayerChallenges} {gens : PedersenGens}
    (hrhos : ∀ c ∈ ch.rhos, c < FR_MOD) (hpodp : ch.podpChallenge < FR_MOD) (hne : Nonzero ch)
    (h : sumcheckHolds solBackend sum proof oracleEval degree ch gens = .ok true)
    (h' : sumcheckHolds solBackend sum' proof oracleEval degree ch gens = .ok true) :
    sum = sum' := by
  simp only [sumcheckHolds, computeDotProduct, bind_eq_ok, getIdx_eq_ok] at h h'
  obtain ⟨alpha, -, jStar, hj, rho0, h0, rhoN, hN, dot, ⟨t1, ht1, nr, hnr, t2, ht2, hadd⟩, hv⟩ := h
  obtain ⟨alpha', -, jStar', hj', rho0', h0', rhoN', hN', dot',
    ⟨t1', ht1', nr', hnr', t2', ht2', hadd'⟩, hv'⟩ := h'
  -- everything but the sum is the same in the two runs
  obtain rfl : jStar = jStar' := Except.ok.inj (hj.symm.trans hj')
  obtain rfl : rho0 = rho0' := Option.some.inj (h0.symm.trans h0')
  obtain rfl : rhoN = rhoN' := Option.some.inj (hN.symm.trans hN')
  obtain rfl : nr = nr' := Except.ok.inj (hnr.symm.trans hnr')
  obtain rfl : t2 = t2' := Except.ok.inj (ht2.symm.trans ht2')
  obtain rfl : dot = dot' := verifyPodp_unique hpodp hne.2 hv hv'
  -- the dot product is again a left side of the same shape, at challenge `rho0`
  have hrho0ne : rho0 ≠ 0 := fun hzero => hne.1 (hzero ▸ h0)
  have hlhs : podpLhs solBackend sum rho0 t2 = .ok dot := bind_eq_ok.mpr ⟨t1, ht1, hadd⟩
  have hlhs' : podpLhs solBackend sum' rho0 t2 = .ok dot := bind_eq_ok.mpr ⟨t1', ht1', hadd'⟩
  exact podpLhs_injective (hrhos rho0 (List.mem_of_getElem? h0)) hrho0ne hlhs hlhs'

/-! ## The claim-bound verification -/

/-- A layer proof with another sum. -/
def withSum (lp : CommittedLayerProof) (sum : G1Point) : CommittedLayerProof :=
  { lp with sumcheckProof := { lp.sumcheckProof with sum := sum } }

/-- A layer whose sumcheck runs on the coefficient times the running claim. -/
def claimBoundLayer (gens : PedersenGens) : LayerCheck :=
  fun lp layerType claim claimPoint randomCoeff s => do
    let sum ← scalarMul claim randomCoeff
    verifyOneLayer gens (withSum lp sum) layerType claim claimPoint randomCoeff s

/-- The combination of the claims that layer `i + 1` makes on the committed input `i`: its first
two commitments, one for each half of the input. -/
def inputClaim (proof : GKRProof) (circuit : CircuitDescription) (i : ℕ) (rlcCoeffs : List ℕ) :
    Checked G1Point := do
  let lp ← getIdx proof.layerProofs (circuit.numLayers - 1 - (i + 1))
  multiScalarMul solBackend (lp.commitments.take 2) rlcCoeffs

/-- The contract's verification with claim-bound layers and openings, on the same transcript. -/
def claimBoundVerify (proof : LayeredProof) (circuit : CircuitDescription) (publicInputs : List ℕ)
    (gens : PedersenGens) (s : Sponge) : Checked LayeredRun :=
  verifyWith (claimBoundLayer gens) (fun i _ => inputClaim proof.gkrProof circuit i) proof circuit
    publicInputs gens s

/-- The other sum leaves the transcript as it is, and a nonzero transcript pins it. -/
private theorem verifyOneLayer_withSum {gens : PedersenGens} {lp : CommittedLayerProof}
    {layerType : ℕ} {claim : G1Point} {claimPoint : List ℕ} {randomCoeff : ℕ} {s : Sponge}
    {sum : G1Point} {out out' : LayerRun × Sponge}
    (h : verifyOneLayer gens lp layerType claim claimPoint randomCoeff s = .ok out)
    (h' : verifyOneLayer gens (withSum lp sum) layerType claim claimPoint randomCoeff s =
      .ok out') :
    out' = out ∧ (Nonzero (layerTranscript lp s) → lp.sumcheckProof.sum = sum) := by
  obtain ⟨run, s₁⟩ := out
  obtain ⟨run', s₁'⟩ := out'
  obtain ⟨hrun, rfl⟩ := verifyOneLayer_eq_ok.mp h
  obtain ⟨hrun', rfl⟩ := verifyOneLayer_eq_ok.mp h'
  have hbeta : run.rlcBeta = run'.rlcBeta := Except.ok.inj (hrun.beta.symm.trans hrun'.beta)
  have horacle : run.oracleEval = run'.oracleEval := by
    have heq := hrun'.oracle
    rw [← hbeta] at heq
    exact Except.ok.inj (hrun.oracle.symm.trans heq)
  have hnext : run.nextClaim = run'.nextClaim :=
    Option.some.inj (hrun.next.symm.trans hrun'.next)
  have hsame : run' = run := LayerRun.ext (hrun'.claim_eq.trans hrun.claim_eq.symm)
    (hrun'.claimPoint_eq.trans hrun.claimPoint_eq.symm)
    (hrun'.randomCoeff_eq.trans hrun.randomCoeff_eq.symm)
    (hrun'.bindings_eq.trans hrun.bindings_eq.symm) hbeta.symm horacle.symm hnext.symm
  refine ⟨by rw [hsame]; rfl, ?_⟩
  intro hne
  have hsum' := hrun'.sumcheck
  rw [← horacle] at hsum'
  exact sumcheckHolds_unique (fun c hc => mem_challenges_lt hc) (challenge_lt _) hne hrun.sumcheck
    hsum'

/-! ## The layer loop -/

/-- Each layer in the list was given the sum that its run derived from the claim. -/
def SumsMatch (proof : GKRProof) (is : List ℕ) (runs : List LayerRun) : Prop :=
  List.Forall₂ (fun k run => ∃ lp, proof.layerProofs[k]? = some lp ∧
    scalarMul run.claim run.randomCoeff = .ok lp.sumcheckProof.sum) is runs

/-- A bound sum is accepted by the claim-bound layer, with the same outcome. -/
private theorem claimBoundLayer_of_bound {gens : PedersenGens} {lp : CommittedLayerProof}
    {layerType : ℕ} {claim : G1Point} {claimPoint : List ℕ} {randomCoeff : ℕ} {s : Sponge}
    {run : LayerRun} {s₁ : Sponge}
    (h : verifyOneLayer gens lp layerType claim claimPoint randomCoeff s = .ok (run, s₁))
    (hsum : scalarMul run.claim run.randomCoeff = .ok lp.sumcheckProof.sum) :
    claimBoundLayer gens lp layerType claim claimPoint randomCoeff s = .ok (run, s₁) := by
  have hrun := (verifyOneLayer_eq_ok.mp h).1
  rw [hrun.claim_eq, hrun.randomCoeff_eq] at hsum
  rw [claimBoundLayer, hsum, ok_bind]
  exact h

/-- The claim-bound layer comes out as the accepted one, and pins its sum. -/
private theorem bound_of_claimBoundLayer {gens : PedersenGens} {lp : CommittedLayerProof}
    {layerType : ℕ} {claim : G1Point} {claimPoint : List ℕ} {randomCoeff : ℕ} {s : Sponge}
    {run : LayerRun} {s₁ : Sponge} {out : LayerRun × Sponge}
    (h : verifyOneLayer gens lp layerType claim claimPoint randomCoeff s = .ok (run, s₁))
    (hout : claimBoundLayer gens lp layerType claim claimPoint randomCoeff s = .ok out) :
    out = (run, s₁) ∧ (Nonzero (layerTranscript lp s) →
      scalarMul run.claim run.randomCoeff = .ok lp.sumcheckProof.sum) := by
  obtain ⟨sum, hsum, hverify⟩ := bind_eq_ok.mp hout
  obtain ⟨hsame, hpinned⟩ := verifyOneLayer_withSum h hverify
  refine ⟨hsame, fun hne => ?_⟩
  have hrun := (verifyOneLayer_eq_ok.mp h).1
  rw [hrun.claim_eq, hrun.randomCoeff_eq, hpinned hne]
  exact hsum

/-- The loop: bound sums are accepted by the claim-bound layers, with the same outcome. -/
theorem claimBoundLoop_of_sumsMatch {gens : PedersenGens} {proof : GKRProof}
    {circuit : CircuitDescription} {is : List ℕ} {claim : G1Point} {claimPoint : List ℕ}
    {randomCoeff : ℕ} {s : Sponge} {out : List LayerRun × Sponge}
    (h : layerLoop (verifyOneLayer gens) proof circuit is claim claimPoint randomCoeff s = .ok out)
    (hsums : SumsMatch proof is out.1) :
    layerLoop (claimBoundLayer gens) proof circuit is claim claimPoint randomCoeff s = .ok out := by
  induction is generalizing claim claimPoint randomCoeff s out with
  | nil => exact h
  | cons k rest ih =>
    cases rest with
    | nil =>
      obtain ⟨lp, layerType, run, s₁, hlp, htype, hrun, rfl⟩ := layerLoop_singleton.mp h
      obtain ⟨⟨lp', hlp', hsum⟩, -⟩ := List.forall₂_cons.mp hsums
      obtain rfl : lp = lp' := Option.some.inj (hlp.symm.trans hlp')
      exact layerLoop_singleton.mpr
        ⟨lp, layerType, run, s₁, hlp, htype, claimBoundLayer_of_bound hrun hsum, rfl⟩
    | cons next rest =>
      obtain ⟨lp, layerType, run, s₁, runs, hlp, htype, hrun, hruns, hout⟩ :=
        layerLoop_cons_cons.mp h
      rw [hout] at hsums
      obtain ⟨⟨lp', hlp', hsum⟩, hrest⟩ := List.forall₂_cons.mp hsums
      obtain rfl : lp = lp' := Option.some.inj (hlp.symm.trans hlp')
      exact layerLoop_cons_cons.mpr ⟨lp, layerType, run, s₁, runs, hlp, htype,
        claimBoundLayer_of_bound hrun hsum, ih hruns hrest, hout⟩

/-- The loop: claim-bound layers come out as the accepted ones, and nonzero transcripts pin their
sums. -/
theorem sumsMatch_of_claimBoundLoop {gens : PedersenGens} {proof : GKRProof}
    {circuit : CircuitDescription} {is : List ℕ} {claim : G1Point} {claimPoint : List ℕ}
    {randomCoeff : ℕ} {s : Sponge} {out out' : List LayerRun × Sponge}
    (h : layerLoop (verifyOneLayer gens) proof circuit is claim claimPoint randomCoeff s = .ok out)
    (hbound : layerLoop (claimBoundLayer gens) proof circuit is claim claimPoint randomCoeff s =
      .ok out') :
    out' = out ∧ ∃ chs, chainTranscripts proof is randomCoeff s = .ok (chs, out.2) ∧
      ((∀ ch ∈ chs, Nonzero ch) → SumsMatch proof is out.1) := by
  induction is generalizing claim claimPoint randomCoeff s out out' with
  | nil =>
    obtain rfl := layerLoop_nil.mp h
    exact ⟨layerLoop_nil.mp hbound, [], rfl, fun _ => List.Forall₂.nil⟩
  | cons k rest ih =>
    cases rest with
    | nil =>
      obtain ⟨lp, layerType, run, s₁, hlp, htype, hrun, rfl⟩ := layerLoop_singleton.mp h
      obtain ⟨lp', layerType', run', s₁', hlp', htype', hrun', rfl⟩ :=
        layerLoop_singleton.mp hbound
      obtain rfl : lp = lp' := Option.some.inj (hlp.symm.trans hlp')
      obtain rfl : layerType = layerType' := Option.some.inj (htype.symm.trans htype')
      obtain ⟨hsame, hpinned⟩ := bound_of_claimBoundLayer hrun hrun'
      obtain ⟨rfl, rfl⟩ := Prod.mk.inj hsame
      obtain ⟨-, rfl⟩ := verifyOneLayer_eq_ok.mp hrun
      refine ⟨rfl, _, chainTranscripts_singleton.mpr ⟨lp, hlp, rfl⟩, fun hne => ?_⟩
      have hlayer : Nonzero (chainedTranscript randomCoeff lp s) := hne _ List.mem_cons_self
      exact List.Forall₂.cons ⟨lp, hlp, hpinned hlayer⟩ List.Forall₂.nil
    | cons next rest =>
      obtain ⟨lp, layerType, run, s₁, runs, hlp, htype, hrun, hruns, hout⟩ :=
        layerLoop_cons_cons.mp h
      obtain ⟨lp', layerType', run', s₁', runs', hlp', htype', hrun', hruns', hout'⟩ :=
        layerLoop_cons_cons.mp hbound
      obtain rfl : lp = lp' := Option.some.inj (hlp.symm.trans hlp')
      obtain rfl : layerType = layerType' := Option.some.inj (htype.symm.trans htype')
      obtain ⟨hsame, hpinned⟩ := bound_of_claimBoundLayer hrun hrun'
      obtain ⟨rfl, rfl⟩ := Prod.mk.inj hsame
      obtain ⟨-, rfl⟩ := verifyOneLayer_eq_ok.mp hrun
      obtain ⟨heq, chs, hchs, hmatch⟩ := ih hruns hruns'
      obtain ⟨rfl, hsponge⟩ := Prod.mk.inj heq
      refine ⟨Prod.ext (by rw [hout, hout']) hsponge, _,
        chainTranscripts_cons_cons.mpr ⟨lp, chs, hlp, hchs, rfl⟩, fun hne => ?_⟩
      have hlayer : Nonzero (chainedTranscript randomCoeff lp s) := hne _ List.mem_cons_self
      rw [hout]
      exact List.Forall₂.cons ⟨lp, hlp, hpinned hlayer⟩
        (hmatch fun ch hch => hne ch (List.mem_cons_of_mem _ hch))

/-! ## The input loop -/

/-- The opened commitment of a committed input is the combination of the claims on it. -/
def InputBound (proof : GKRProof) (circuit : CircuitDescription) (run : InputRun) : Prop :=
  inputClaim proof circuit run.layerIdx run.rlcCoeffs = .ok run.comEval

private theorem openingHolds_unique {rows : List G1Point} {podp : PODPProof}
    {comY comY' : G1Point} {lCoeffs rCoeffs : List ℕ} {c : ℕ} {gens : PedersenGens}
    (hc : c < FR_MOD) (hc0 : c ≠ 0)
    (h : openingHolds solBackend rows podp comY lCoeffs rCoeffs c gens = .ok true)
    (h' : openingHolds solBackend rows podp comY' lCoeffs rCoeffs c gens = .ok true) :
    comY = comY' := by
  simp only [openingHolds, bind_eq_ok] at h h'
  obtain ⟨_, -, _, -, hv⟩ := h
  obtain ⟨_, -, _, -, hv'⟩ := h'
  exact verifyPodp_unique hc hc0 hv hv'

/-- A bound opening is the claim-bound opening. -/
private theorem claimBound_of_inputBound {gens : PedersenGens} {proof : GKRProof}
    {circuit : CircuitDescription} {i : ℕ} {inputProof : EvalProof} {claimPoints : List (List ℕ)}
    {ch : GroupChallenges} {run : InputRun}
    (h : InputOpened gens proofComEval i inputProof claimPoints ch run)
    (hbound : InputBound proof circuit run) :
    InputOpened gens (fun i _ => inputClaim proof circuit i) i inputProof claimPoints ch run := by
  obtain ⟨comY, hcomY, hopening⟩ := h.opening
  obtain rfl := pure_eq_ok.mp hcomY
  rw [InputBound, h.layerIdx_eq, h.rlcCoeffs_eq, h.comEval_eq] at hbound
  exact ⟨h.layerIdx_eq, h.comEval_eq, h.rlcCoeffs_eq, h.podpChallenge_eq, h.tensors,
    inputProof.comEval, hbound, hopening⟩

/-- The claim-bound opening comes out as the accepted one, and a nonzero challenge pins the
commitment. -/
private theorem inputBound_of_claimBound {gens : PedersenGens} {proof : GKRProof}
    {circuit : CircuitDescription} {i : ℕ} {inputProof : EvalProof} {claimPoints : List (List ℕ)}
    {s : Sponge} {run run' : InputRun}
    (h : InputOpened gens proofComEval i inputProof claimPoints
      (inputTranscript inputProof claimPoints s) run)
    (h' : InputOpened gens (fun i _ => inputClaim proof circuit i) i inputProof claimPoints
      (inputTranscript inputProof claimPoints s) run') :
    run' = run ∧ (run.podpChallenge ≠ 0 → InputBound proof circuit run) := by
  obtain ⟨comY, hcomY, hopening⟩ := h.opening
  obtain rfl := pure_eq_ok.mp hcomY
  obtain ⟨comY', hcomY', hopening'⟩ := h'.opening
  obtain ⟨hl, hr⟩ := Prod.mk.inj (Except.ok.inj (h.tensors.symm.trans h'.tensors))
  refine ⟨InputRun.ext (h'.layerIdx_eq.trans h.layerIdx_eq.symm)
    (h'.comEval_eq.trans h.comEval_eq.symm) (h'.rlcCoeffs_eq.trans h.rlcCoeffs_eq.symm) hl.symm
    hr.symm (h'.podpChallenge_eq.trans h.podpChallenge_eq.symm), fun hne => ?_⟩
  rw [h.podpChallenge_eq] at hne
  rw [← hl, ← hr] at hopening'
  have hlt : (inputTranscript inputProof claimPoints s).podpChallenge < FR_MOD := challenge_lt _
  obtain rfl := openingHolds_unique hlt hne hopening hopening'
  rw [InputBound, h.layerIdx_eq, h.rlcCoeffs_eq, h.comEval_eq]
  exact hcomY'

/-- The loop: bound openings are accepted by the claim-bound loop, with the same outcome. -/
theorem claimBoundInputs_of_bound {proof : LayeredProof} {circuit : CircuitDescription}
    {ctx : InputContext} {is : List ℕ} {hyraxProofIdx : ℕ} {s : Sponge} {runs : List InputRun}
    (h : inputLoop proofComEval proof circuit ctx is hyraxProofIdx s = .ok runs)
    (hbound : ∀ run ∈ runs, InputBound proof.gkrProof circuit run) :
    inputLoop (fun i _ => inputClaim proof.gkrProof circuit i) proof circuit ctx is hyraxProofIdx s =
      .ok runs := by
  induction is generalizing hyraxProofIdx s runs with
  | nil => exact h
  | cons i is ih =>
    obtain ⟨layerType, htype, ⟨hne, hrest⟩ | ⟨heq, hcommitted, claimPoints, inputProof, run, rest,
      hpoints, hproof, hopened, hrest, rfl⟩ | ⟨heq, hcommitted, hpublic, hrest⟩⟩ :=
      inputLoop_cons.mp h
    · exact inputLoop_cons.mpr ⟨layerType, htype, .inl ⟨hne, ih hrest hbound⟩⟩
    · obtain ⟨hfirst, hothers⟩ := List.forall_mem_cons.mp hbound
      exact inputLoop_cons.mpr ⟨layerType, htype, .inr (.inl ⟨heq, hcommitted, claimPoints,
        inputProof, run, rest, hpoints, hproof, claimBound_of_inputBound hopened hfirst,
        ih hrest hothers, rfl⟩)⟩
    · exact inputLoop_cons.mpr
        ⟨layerType, htype, .inr (.inr ⟨heq, hcommitted, hpublic, ih hrest hbound⟩)⟩

/-- The loop: claim-bound openings with nonzero challenges pin the commitments. -/
theorem bound_of_claimBoundInputs {proof : LayeredProof} {circuit : CircuitDescription}
    {ctx : InputContext} {is : List ℕ} {hyraxProofIdx : ℕ} {s : Sponge} {runs runs' : List InputRun}
    (h : inputLoop proofComEval proof circuit ctx is hyraxProofIdx s = .ok runs)
    (h' : inputLoop (fun i _ => inputClaim proof.gkrProof circuit i) proof circuit ctx is
      hyraxProofIdx s = .ok runs')
    (hne : ∀ run ∈ runs, run.podpChallenge ≠ 0) :
    ∀ run ∈ runs, InputBound proof.gkrProof circuit run := by
  induction is generalizing hyraxProofIdx s runs runs' with
  | nil =>
    obtain rfl := pure_eq_ok.mp h
    simp
  | cons i is ih =>
    obtain ⟨layerType, htype, hcase⟩ := inputLoop_cons.mp h
    obtain ⟨layerType', htype', hcase'⟩ := inputLoop_cons.mp h'
    obtain rfl : layerType = layerType' := Option.some.inj (htype.symm.trans htype')
    rcases hcase with ⟨hother, hrest⟩ | ⟨heq, hcommitted, claimPoints, inputProof, run, rest,
      hpoints, hproof, hopened, hrest, rfl⟩ | ⟨heq, hcommitted, hpublic, hrest⟩
    · rcases hcase' with ⟨-, hrest'⟩ | ⟨heq', -⟩ | ⟨heq', -⟩
      · exact ih hrest hrest' hne
      · exact absurd heq' hother
      · exact absurd heq' hother
    · rcases hcase' with ⟨hother, -⟩ | ⟨-, -, claimPoints', inputProof', run', rest', hpoints',
        hproof', hopened', hrest', -⟩ | ⟨-, hcommitted', -⟩
      · exact absurd heq hother
      · obtain rfl : claimPoints = claimPoints' := Except.ok.inj (hpoints.symm.trans hpoints')
        obtain rfl : inputProof = inputProof' := Option.some.inj (hproof.symm.trans hproof')
        obtain ⟨hfirst, hothers⟩ := List.forall_mem_cons.mp hne
        exact List.forall_mem_cons.mpr
          ⟨(inputBound_of_claimBound hopened hopened').2 hfirst, ih hrest hrest' hothers⟩
      · cases hcommitted.symm.trans hcommitted'
    · rcases hcase' with ⟨hother, -⟩ | ⟨-, hcommitted', -⟩ | ⟨-, -, -, hrest'⟩
      · exact absurd heq hother
      · cases hcommitted.symm.trans hcommitted'
      · exact ih hrest hrest' hne

/-! ## The chain of claims -/

/-- The claim commitment on the layer with proof index `k`: the output claim for the top layer, the
first commitment of the layer above for the others. -/
def claimOn (proof : GKRProof) : ℕ → Option G1Point
  | 0 => proof.outputClaimCommitments[0]?
  | k + 1 => do (← proof.layerProofs[k]?).commitments[0]?

/-- Every layer's sum is the squeezed coefficient times the claim on the layer, and every committed
input is opened to the combination of the claims on it. -/
structure ClaimsChained (proof : LayeredProof) (circuit : CircuitDescription)
    (run : LayeredRun) : Prop where
  sums : ∀ k lp, proof.gkrProof.layerProofs[k]? = some lp → ∃ layer claim,
    run.layers[k]? = some layer ∧ claimOn proof.gkrProof k = some claim ∧
      scalarMul claim layer.randomCoeff = .ok lp.sumcheckProof.sum
  openings : ∀ input ∈ run.inputs, InputBound proof.gkrProof circuit input

/-- The loop hands on the claims as they stand in the proof. -/
private theorem layerLoop_claims {gens : PedersenGens} {proof : GKRProof}
    {circuit : CircuitDescription} {n k : ℕ} {claim : G1Point} {claimPoint : List ℕ}
    {randomCoeff : ℕ} {s : Sponge} {out : List LayerRun × Sponge}
    (hclaim : claimOn proof k = some claim)
    (h : layerLoop (verifyOneLayer gens) proof circuit (List.range' k n) claim claimPoint
      randomCoeff s = .ok out) :
    List.Forall₂ (fun k run => claimOn proof k = some run.claim) (List.range' k n) out.1 := by
  induction n generalizing k claim claimPoint randomCoeff s out with
  | zero =>
    obtain rfl := layerLoop_nil.mp h
    exact List.Forall₂.nil
  | succ n ih =>
    rw [List.range'_succ] at h ⊢
    cases n with
    | zero =>
      obtain ⟨lp, layerType, run, s₁, hlp, htype, hrun, rfl⟩ := layerLoop_singleton.mp h
      rw [(verifyOneLayer_eq_ok.mp hrun).1.claim_eq.symm] at hclaim
      exact List.Forall₂.cons hclaim List.Forall₂.nil
    | succ n =>
      rw [List.range'_succ] at h
      obtain ⟨lp, layerType, run, s₁, runs, hlp, htype, hrun, hruns, hout⟩ :=
        layerLoop_cons_cons.mp h
      have hchecked := (verifyOneLayer_eq_ok.mp hrun).1
      have hnext : claimOn proof (k + 1) = some run.nextClaim := by
        rw [claimOn, hlp]
        exact hchecked.next
      rw [← List.range'_succ] at hruns
      rw [hout]
      rw [← hchecked.claim_eq] at hclaim
      exact List.Forall₂.cons hclaim (ih hnext hruns)

/-- On the layers of a proof in order, matching sums are sums chained to the claims. -/
private theorem sumsMatch_iff {proof : GKRProof} {runs : List LayerRun} {n : ℕ}
    (hlen : proof.layerProofs.length = n)
    (hclaims : List.Forall₂ (fun k run => claimOn proof k = some run.claim) (List.range n) runs) :
    SumsMatch proof (List.range n) runs ↔
      ∀ k lp, proof.layerProofs[k]? = some lp → ∃ layer claim, runs[k]? = some layer ∧
        claimOn proof k = some claim ∧
        scalarMul claim layer.randomCoeff = .ok lp.sumcheckProof.sum := by
  obtain ⟨hruns, hclaim⟩ := List.forall₂_iff_get.mp hclaims
  rw [List.length_range] at hruns
  rw [SumsMatch, List.forall₂_iff_get]
  constructor
  · rintro ⟨-, hsums⟩ k lp hlp
    have hk : k < n := hlen ▸ (List.getElem?_eq_some_iff.mp hlp).1
    have hk' : k < runs.length := hruns ▸ hk
    have hclaimk := hclaim k (by rw [List.length_range]; exact hk) hk'
    obtain ⟨lp', hlp', hsum⟩ := hsums k (by rw [List.length_range]; exact hk) hk'
    simp only [List.get_eq_getElem, List.getElem_range] at hclaimk hlp' hsum
    obtain rfl : lp = lp' := Option.some.inj (hlp.symm.trans hlp')
    exact ⟨runs[k], runs[k].claim, List.getElem?_eq_getElem hk', hclaimk, hsum⟩
  · intro hchained
    refine ⟨by rw [List.length_range, hruns], ?_⟩
    intro k h₁ h₂
    rw [List.length_range] at h₁
    have hk : k < proof.layerProofs.length := hlen ▸ h₁
    obtain ⟨layer, claim, hlayer, hclaim', hsum⟩ :=
      hchained k proof.layerProofs[k] (List.getElem?_eq_getElem hk)
    have hclaimk := hclaim k (by rw [List.length_range]; exact h₁) h₂
    simp only [List.get_eq_getElem, List.getElem_range] at hclaimk ⊢
    obtain rfl : runs[k] = layer :=
      Option.some.inj ((List.getElem?_eq_getElem h₂).symm.trans hlayer)
    obtain rfl : claim = runs[k].claim := Option.some.inj (hclaim'.symm.trans hclaimk)
    exact ⟨proof.layerProofs[k], List.getElem?_eq_getElem hk, hsum⟩

/-- The challenges that cancel from the second dot-product equations are nonzero, in every layer and
every committed input. -/
structure NonzeroChallenges (proof : LayeredProof) (circuit : CircuitDescription) (s : Sponge)
    (run : LayeredRun) : Prop where
  layers : ∀ start chs s₁, layeredStart proof.gkrProof s = .ok start →
    chainTranscripts proof.gkrProof (List.range (circuit.numLayers - 1)) start.randomCoeff
      start.sponge = .ok (chs, s₁) → ∀ ch ∈ chs, Nonzero ch
  inputs : ∀ input ∈ run.inputs, input.podpChallenge ≠ 0

/-- A subtract layer over a public input. -/
def subtractCircuit : CircuitDescription := ⟨2, [1, 1], [3, 0], [false, false]⟩

def subtractConfig : CircuitConfig where
  circuitHash := 1
  description := subtractCircuit
  active := true
  gensHash := 0
  hash_ne_zero := Nat.one_ne_zero
  checked := by decide

def subtractContract : LayeredContract := ⟨false, fun h => if h = 1 then some subtractConfig else none⟩

/-- A proof for the output claim `output` whose only layer has no rounds and stands at infinity. -/
def emptyLayerProof (output : G1Point) : LayeredProof :=
  ⟨⟨[output], [⟨⟨G1Point.INFINITY, [], ⟨G1Point.INFINITY, G1Point.INFINITY, [], 0, 0⟩⟩,
    [G1Point.INFINITY, G1Point.INFINITY], []⟩]⟩, []⟩

/-- The words of that proof: no public inputs, one output claim and one layer. -/
def emptyLayerWords (output : G1Point) : List ℕ :=
  [0, 0, 1, output.x, output.y, 1] ++ List.replicate 10 0 ++ [2] ++ List.replicate 9 0

def emptyLayerBytes (output : G1Point) : List UInt8 :=
  SELECTOR ++ (emptyLayerWords output).flatMap wordToBeBytes

/-- Generators of empty data. -/
def noGens : PedersenGens := ⟨[], G1Point.INFINITY, G1Point.INFINITY⟩

private theorem setup_emptyLayerProof (output : G1Point) :
    setupLayeredTranscript 1 [] (emptyLayerProof output) = absorbPair solOps (absorbPair solOps
      (absorbPair solOps init (hashToFqPair (wordToBeBytes 1))) (sha256HashChain []))
      (sha256HashChain []) := setupTranscript_nil solOps (wordToBeBytes 1)

end WorldZk.LayeredBinding
