import WorldZk.CurveOrder
import WorldZk.LayerChecks
import WorldZk.SpongeLaws
import WorldZk.ZkmlVerifier

/-!
# Are the sums of the compute layers bound to the claims?

`process_one_layer` combines the claims routed to a layer into the commitment `rlc_eval` and
drops it: the committed sumcheck runs on the `sum` of the proof. The claim-bound verifier below
hands `rlc_eval` to the sumcheck instead, as the repository's own replay of an honest proof does.
A proof accepted by both has its sums bound to the claims; one accepted by the crate alone need
not.
-/

namespace WorldZk.ClaimBinding

open CheckedRuns Bn254Moduli FieldArithmetic PoseidonSponge ProofTypes VerifierBackend
open CommittedSumcheck DagLayers InputLayers NativeCurve ZkmlVerifier ProofDecoding Transcript
open scoped NamedInstances

/-! ## Scalars and points of the native backend -/

theorem challenge_lt (s : Sponge) : (challenge zkmlBackend s).1 < FR_MOD := by
  change frFromFq (squeeze rustOps s).1 < FR_MOD
  rw [frFromFq_eq_mod (squeeze_lt lawful_rustOps s)]
  exact Nat.mod_lt _ FR_MOD_prime.pos

theorem mem_challenges_lt {n : ℕ} {s : Sponge} {c : ℕ} (hc : c ∈ (challenges zkmlBackend n s).1) :
    c < FR_MOD :=
  forall_mem_challenges (P := (· < FR_MOD)) zkmlBackend challenge_lt n s c hc

/-- The points of a proof that enter a layer's second dot-product equation lie on the curve. -/
structure PointsOnCurve (proof : GKRProof) : Prop where
  output : ∀ p ∈ proof.outputClaimCommitments, isOnCurve p = true
  sum : ∀ lp ∈ proof.layerProofs, isOnCurve lp.sumcheckProof.sum = true
  commitDDotA : ∀ lp ∈ proof.layerProofs, isOnCurve lp.sumcheckProof.podp.commitDDotA = true
  commitments : ∀ lp ∈ proof.layerProofs, ∀ p ∈ lp.commitments, isOnCurve p = true

private theorem scalar_lt_word {s : ℕ} (hs : s < FR_MOD) : s < WORD := hs.trans FR_MOD_lt_word

private theorem rlcStep_onCurve {proof : GKRProof} (hpoints : PointsOnCurve proof)
    {desc : DAGCircuitDescription} {ctx : VerifyContext} {bindings rlcCoeffs : List ℕ}
    (hcoeffs : ∀ c ∈ rlcCoeffs, c < FR_MOD) {st st' : RlcState} {atom : ℕ × ℕ}
    (hst : isOnCurve st.rlcEval = true)
    (h : rlcStep zkmlBackend proof desc ctx bindings rlcCoeffs st atom = .ok st') :
    isOnCurve st'.rlcEval = true := by
  simp only [rlcStep, bind_eq_ok, getIdx_eq_ok, pure_eq_ok] at h
  obtain ⟨_, -, source, hsource, atomEval, hatom, _, -, _, -, _, -, coeff, hcoeff, scaled, hscaled,
    rlcEval, hadd, rfl⟩ := h
  have hatomOn := hpoints.commitments source (List.mem_of_getElem? hsource) atomEval
    (List.mem_of_getElem? hatom)
  have hlt := scalar_lt_word (hcoeffs coeff (List.mem_of_getElem? hcoeff))
  cases hscaled
  cases hadd
  exact isOnCurve_ecAdd hst (isOnCurve_ecMul hatomOn hlt)

private theorem rlcStart_onCurve {layerIdx : ℕ} {ctx : VerifyContext}
    (hctx : isOnCurve ctx.outputEval = true) {bindings rlcCoeffs : List ℕ}
    (hcoeffs : ∀ c ∈ rlcCoeffs, c < FR_MOD) {st : RlcState}
    (h : rlcStart zkmlBackend layerIdx ctx bindings rlcCoeffs = .ok st) :
    isOnCurve st.rlcEval = true := by
  unfold rlcStart at h
  split at h
  · simp only [bind_eq_ok, getIdx_eq_ok, pure_eq_ok] at h
    obtain ⟨coeff, hcoeff, scaled, hscaled, _, -, rfl⟩ := h
    cases hscaled
    exact isOnCurve_ecMul hctx (scalar_lt_word (hcoeffs coeff (List.mem_of_getElem? hcoeff)))
  · rw [pure_eq_ok] at h
    subst h
    exact isOnCurve_infinity

/-- The combined claim commitment of a layer is a curve point. -/
theorem rlcEval_onCurve {layerIdx : ℕ} {proof : GKRProof} (hpoints : PointsOnCurve proof)
    {desc : DAGCircuitDescription} {ctx : VerifyContext} (hctx : isOnCurve ctx.outputEval = true)
    {bindings rlcCoeffs : List ℕ} (hcoeffs : ∀ c ∈ rlcCoeffs, c < FR_MOD) {result : G1Point × ℕ}
    (h : computeRlcEvalAndBeta zkmlBackend layerIdx proof desc ctx bindings rlcCoeffs =
      .ok result) : isOnCurve result.1 = true := by
  simp only [computeRlcEvalAndBeta, bind_eq_ok, pure_eq_ok] at h
  obtain ⟨st, hst, atoms, -, st', hfold, rfl⟩ := h
  refine foldlM_invariant (P := fun st => isOnCurve st.rlcEval = true) ?_
    (rlcStart_onCurve hctx hcoeffs hst) hfold
  intro s x t _ hs hstep
  exact rlcStep_onCurve hpoints hcoeffs hs hstep

/-- The oracle value of a layer is a curve point. -/
theorem oracleEval_onCurve {commitments : List G1Point}
    (hcommit : ∀ p ∈ commitments, isOnCurve p = true) {layerIdx rlcBeta : ℕ}
    {desc : DAGCircuitDescription} {result : G1Point}
    (h : computeOracleEval zkmlBackend commitments layerIdx rlcBeta desc = .ok result) :
    isOnCurve result = true := by
  simp only [computeOracleEval, bind_eq_ok] at h
  obtain ⟨_, -, _, -, hfold⟩ := h
  refine foldlM_invariant (P := fun p => isOnCurve p = true) ?_ isOnCurve_infinity hfold
  intro s j t _ hs hstep
  simp only [bind_eq_ok, getIdx_eq_ok] at hstep
  obtain ⟨_, -, coeff, -, p, hp, scaled, hscaled, hadd⟩ := hstep
  cases hscaled
  cases hadd
  refine isOnCurve_ecAdd hs (isOnCurve_ecMul (hcommit p (List.mem_of_getElem? hp)) ?_)
  exact scalar_lt_word (fieldMul_lt FR_MOD_prime.pos _ _)

/-! ## One layer pins its sum -/

/-- Equal left sides of a dot-product equation come from equal commitments, the challenge being
nonzero. -/
theorem podpLhs_injective {com com' mask : G1Point} (hcom : isOnCurve com = true)
    (hcom' : isOnCurve com' = true) (hmask : isOnCurve mask = true) {c : ℕ} (hc : c < FR_MOD)
    (hc0 : c ≠ 0) {p : G1Point} (h : podpLhs zkmlBackend com c mask = .ok p)
    (h' : podpLhs zkmlBackend com' c mask = .ok p) : com = com' := by
  obtain ⟨P, rfl⟩ := (isOnCurve_iff com).mp hcom
  obtain ⟨P', rfl⟩ := (isOnCurve_iff com').mp hcom'
  obtain ⟨M, rfl⟩ := (isOnCurve_iff mask).mp hmask
  have hdvd : ¬FR_MOD ∣ c := fun hd => hc0 (Nat.eq_zero_of_dvd_of_lt hd hc)
  have heq : ecAdd (ecMul (encode P) c) (encode M) = ecAdd (ecMul (encode P') c) (encode M) :=
    Except.ok.inj (h.trans h'.symm)
  rw [ecMul_encode P (scalar_lt_word hc), ecMul_encode P' (scalar_lt_word hc), ecAdd_encode,
    ecAdd_encode] at heq
  exact congrArg encode (nsmul_left_cancel hdvd (add_right_cancel (encode_injective heq)))

/-- With nonzero challenges, the second dot-product equation has one solution for the sum. -/
theorem sumcheckHolds_unique {proof : CommittedSumcheckProof} {oracleEval sum sum' : G1Point}
    {degree : ℕ} {ch : LayerChallenges} {gens : PedersenGens}
    (hsum : isOnCurve sum = true) (hsum' : isOnCurve sum' = true)
    (horacle : isOnCurve oracleEval = true) (hdot : isOnCurve proof.podp.commitDDotA = true)
    (hrhos : ∀ c ∈ ch.rhos, c < FR_MOD) (hpodp : ch.podpChallenge < FR_MOD)
    (hrho0 : ch.rhos[0]? ≠ some 0) (hc : ch.podpChallenge ≠ 0)
    (h : sumcheckHolds zkmlBackend sum proof oracleEval degree ch gens = .ok true)
    (h' : sumcheckHolds zkmlBackend sum' proof oracleEval degree ch gens = .ok true) :
    sum = sum' := by
  simp only [sumcheckHolds, computeDotProduct, bind_eq_ok, getIdx_eq_ok] at h h'
  obtain ⟨alpha, halpha, jStar, hj, rho0, h0, rhoN, hN, dot, ⟨t1, ht1, nr, hnr, t2, ht2, hadd⟩,
    hv⟩ := h
  obtain ⟨alpha', halpha', jStar', hj', rho0', h0', rhoN', hN', dot',
    ⟨t1', ht1', nr', hnr', t2', ht2', hadd'⟩, hv'⟩ := h'
  -- everything but the sum is the same in the two runs
  obtain rfl : jStar = jStar' := Except.ok.inj (hj.symm.trans hj')
  obtain rfl : rho0 = rho0' := Option.some.inj (h0.symm.trans h0')
  obtain rfl : rhoN = rhoN' := Option.some.inj (hN.symm.trans hN')
  obtain rfl : nr = nr' := Except.ok.inj (hnr.symm.trans hnr')
  cases ht1
  cases ht1'
  cases ht2
  cases ht2'
  cases hadd
  cases hadd'
  obtain ⟨rhs, hrhs, -, hlhs⟩ := (verifyPodp_true _).mp hv
  obtain ⟨rhs', hrhs', -, hlhs'⟩ := (verifyPodp_true _).mp hv'
  obtain rfl : rhs = rhs' := Except.ok.inj (hrhs.symm.trans hrhs')
  have hrho0lt := hrhos rho0 (List.mem_of_getElem? h0)
  have hrhoNlt := hrhos rhoN (List.mem_of_getElem? hN)
  have hnrlt : nr < WORD := by
    cases hnr
    rw [fieldNeg_eq_mod FR_MOD_lt_word hrhoNlt]
    exact scalar_lt_word (Nat.mod_lt _ FR_MOD_prime.pos)
  have hoTerm := isOnCurve_ecMul horacle hnrlt
  have hsTerm := isOnCurve_ecMul hsum (scalar_lt_word hrho0lt)
  have hsTerm' := isOnCurve_ecMul hsum' (scalar_lt_word hrho0lt)
  have hcom := podpLhs_injective (isOnCurve_ecAdd hsTerm hoTerm) (isOnCurve_ecAdd hsTerm' hoTerm)
    hdot hpodp hc hlhs hlhs'
  -- the two commitments are again left sides of the same shape, at challenge `rho0`
  have hrho0ne : rho0 ≠ 0 := fun h => hrho0 (h ▸ h0)
  refine podpLhs_injective hsum hsum' hoTerm hrho0lt hrho0ne (p := ecAdd (ecMul sum' rho0)
    (ecMul oracleEval nr)) ?_ rfl
  exact congrArg Except.ok hcom

/-! ## The claim-bound verifier -/

/-- A layer whose sumcheck runs on the commitment of the claims routed to it. -/
def claimBoundLayer (i : ℕ) (proof : GKRProof) (desc : DAGCircuitDescription)
    (gens : PedersenGens) (ctx : VerifyContext) (s : Sponge) : Checked (LayerRun × Sponge) := do
  let lp ← getIdx proof.layerProofs i
  let ch := layerChallenges zkmlBackend (numLayerClaims desc i) lp s
  let (rlcEval, rlcBeta) ←
    computeRlcEvalAndBeta zkmlBackend i proof desc ctx ch.bindings ch.rlcCoeffs
  let oracleEval ← computeOracleEval zkmlBackend lp.commitments i rlcBeta desc
  let degree := layerDegree (← getIdx desc.layerTypes i)
  require (← sumcheckHolds zkmlBackend rlcEval lp.sumcheckProof oracleEval degree ch gens)
    .sumcheckFailed
  require (← productsHold zkmlBackend lp.commitments gens 0 lp.pops ch.popChallenges) .popFailed
  pure (⟨ch.rlcCoeffs, ch.bindings, rlcEval, rlcBeta, oracleEval⟩, ch.sponge)

def claimBoundLayers (proof : GKRProof) (desc : DAGCircuitDescription) (gens : PedersenGens) :
    List ℕ → VerifyContext → Sponge → Checked (List LayerRun × VerifyContext × Sponge)
  | [], ctx, s => pure ([], ctx, s)
  | i :: is, ctx, s => do
    let (run, s) ← claimBoundLayer i proof desc gens ctx s
    let ctx := { ctx with allBindings := ctx.allBindings ++ [run.bindings] }
    let (runs, ctx, s) ← claimBoundLayers proof desc gens is ctx s
    pure (run :: runs, ctx, s)

/-- The crate's verification with claim-bound compute layers. -/
def claimBoundRun (proof : DecodedProof) (gens : PedersenGens) (desc : DAGCircuitDescription)
    (sponge : Sponge) : Checked ZkmlRun := do
  let (ctx, s) ← outputPhase zkmlBackend proof.gkrProof sponge
  let (layers, ctx, s) ←
    claimBoundLayers proof.gkrProof desc gens (List.range desc.numComputeLayers) ctx s
  let inputs ← verifyInputLayers zkmlBackend proof.gkrProof desc gens ctx.allBindings
    ⟨proof.embeddedPubInputs, proof.dagInputProofs, proof.publicValueClaims⟩ s
  pure ⟨proof, gens, desc, sponge, layers, ctx, s, inputs⟩

/-- On a layer that the crate accepts, claim-bound acceptance is the sumcheck at `rlc_eval`, and
it comes out with the same values. -/
private theorem claimBoundLayer_of_accepted {i : ℕ} {proof : GKRProof}
    {desc : DAGCircuitDescription} {gens : PedersenGens} {ctx : VerifyContext} {s s' : Sponge}
    {run : LayerRun} {lp : CommittedLayerProof} (hlp : proof.layerProofs[i]? = some lp)
    (h : LayerAccepted zkmlBackend i proof desc gens ctx lp
      (layerChallenges zkmlBackend (numLayerClaims desc i) lp s) run)
    (hs' : s' = (layerChallenges zkmlBackend (numLayerClaims desc i) lp s).sponge)
    {layerType : ℕ} (htype : desc.layerTypes[i]? = some layerType)
    {out : LayerRun × Sponge} :
    claimBoundLayer i proof desc gens ctx s = .ok out ↔
      sumcheckHolds zkmlBackend run.rlcEval lp.sumcheckProof run.oracleEval
        (layerDegree layerType) (layerChallenges zkmlBackend (numLayerClaims desc i) lp s) gens =
          .ok true ∧ out = (run, s') := by
  obtain ⟨rlcCoeffs, bindings, rlcEval, rlcBeta, oracleEval⟩ := run
  obtain ⟨hcoeffs, hbind, hrlc, horacle, -, hprod⟩ := h
  simp only at hcoeffs hbind hrlc horacle
  have hget : getIdx proof.layerProofs i = .ok lp := getIdx_eq_ok.mpr hlp
  have hgetType : getIdx desc.layerTypes i = .ok layerType := getIdx_eq_ok.mpr htype
  simp only [claimBoundLayer, hget, hgetType, ok_bind, hrlc, horacle, hprod, bind_eq_ok,
    require_eq_ok, require_true, pure_eq_ok]
  constructor
  · rintro ⟨valid, hvalid, _, rfl, rfl⟩
    exact ⟨hvalid, by rw [hcoeffs, hbind, hs']⟩
  · rintro ⟨hvalid, rfl⟩
    exact ⟨true, hvalid, (), rfl, by rw [hcoeffs, hbind, hs']⟩

/-! ## The layer loop -/

/-- The challenges that cancel in a layer's second dot-product equation are nonzero. -/
def LayerChallenges.Nonzero (ch : LayerChallenges) : Prop :=
  ch.rhos[0]? ≠ some 0 ∧ ch.podpChallenge ≠ 0

instance (ch : LayerChallenges) : Decidable (LayerChallenges.Nonzero ch) :=
  inferInstanceAs (Decidable (_ ∧ _))

/-- The layers `is` of the proof were given the sums that the runs derived from the claims. -/
def SumsMatch (proof : GKRProof) (is : List ℕ) (runs : List LayerRun) : Prop :=
  List.Forall₂ (fun i run => ∃ lp, proof.layerProofs[i]? = some lp ∧
    lp.sumcheckProof.sum = run.rlcEval) is runs

/-- A claim-bound layer with nonzero challenges pins the sum of the accepted one. -/
private theorem sum_eq_of_claimBoundLayer {i : ℕ} {proof : GKRProof}
    (hpoints : PointsOnCurve proof) {desc : DAGCircuitDescription} {gens : PedersenGens}
    {ctx : VerifyContext} (hctx : isOnCurve ctx.outputEval = true) {s : Sponge} {run : LayerRun}
    {lp : CommittedLayerProof} (hlp : proof.layerProofs[i]? = some lp)
    (h : LayerAccepted zkmlBackend i proof desc gens ctx lp
      (layerChallenges zkmlBackend (numLayerClaims desc i) lp s) run)
    (hne : LayerChallenges.Nonzero (layerChallenges zkmlBackend (numLayerClaims desc i) lp s))
    {out : LayerRun × Sponge} (hout : claimBoundLayer i proof desc gens ctx s = .ok out) :
    lp.sumcheckProof.sum = run.rlcEval := by
  have hmem := List.mem_of_getElem? hlp
  obtain ⟨layerType, htype, hsum⟩ := h.sumcheck
  obtain ⟨hbound, -⟩ := (claimBoundLayer_of_accepted hlp h rfl htype).mp hout
  have hcoeffs : ∀ c ∈ (layerChallenges zkmlBackend (numLayerClaims desc i) lp s).rlcCoeffs,
      c < FR_MOD := fun c hc => mem_challenges_lt hc
  exact sumcheckHolds_unique (hpoints.sum lp hmem) (rlcEval_onCurve hpoints hctx hcoeffs h.rlc)
    (oracleEval_onCurve (hpoints.commitments lp hmem) h.oracle) (hpoints.commitDDotA lp hmem)
    (fun c hc => mem_challenges_lt hc) (challenge_lt _) hne.1 hne.2 hsum hbound

/-- The loop: sums that match the claims are accepted by the claim-bound layers, with the same
outcome. -/
theorem claimBoundLayers_of_sumsMatch {proof : GKRProof} {desc : DAGCircuitDescription}
    {gens : PedersenGens} {is : List ℕ} {ctx : VerifyContext} {s : Sponge}
    {out : List LayerRun × VerifyContext × Sponge}
    (h : processLayers zkmlBackend proof desc gens is ctx s = .ok out)
    (hsums : SumsMatch proof is out.1) :
    claimBoundLayers proof desc gens is ctx s = .ok out := by
  induction is generalizing ctx s out with
  | nil =>
    rw [(processLayers_nil zkmlBackend).mp h]
    rfl
  | cons i is ih =>
    obtain ⟨run, s₁, runs, hrun, hruns, hout⟩ := (processLayers_cons zkmlBackend).mp h
    rw [hout] at hsums
    obtain ⟨⟨lp, hlp, hsum⟩, hrest⟩ := List.forall₂_cons.mp hsums
    obtain ⟨lp', hlp', haccepted, hs₁⟩ := (processOneLayer_eq_ok zkmlBackend).mp hrun
    obtain rfl : lp = lp' := Option.some.inj (hlp.symm.trans hlp')
    obtain ⟨layerType, htype, hcheck⟩ := haccepted.sumcheck
    have hlayer : claimBoundLayer i proof desc gens ctx s = .ok (run, s₁) :=
      (claimBoundLayer_of_accepted hlp haccepted hs₁ htype).mpr ⟨hsum ▸ hcheck, rfl⟩
    simp only [claimBoundLayers, hlayer, ok_bind, ih hruns hrest]
    rw [pure_eq_ok, ← hout]

/-- The loop: claim-bound layers with nonzero challenges pin every sum. -/
theorem sumsMatch_of_claimBoundLayers {proof : GKRProof} (hpoints : PointsOnCurve proof)
    {desc : DAGCircuitDescription} {gens : PedersenGens} {is : List ℕ} {ctx : VerifyContext}
    (hctx : isOnCurve ctx.outputEval = true) {s : Sponge}
    {out out' : List LayerRun × VerifyContext × Sponge}
    (h : processLayers zkmlBackend proof desc gens is ctx s = .ok out)
    (hne : ∀ ch ∈ layerTranscripts zkmlBackend proof desc is s, LayerChallenges.Nonzero ch)
    (hbound : claimBoundLayers proof desc gens is ctx s = .ok out') :
    SumsMatch proof is out.1 := by
  induction is generalizing ctx s out out' with
  | nil =>
    rw [(processLayers_nil zkmlBackend).mp h]
    exact List.Forall₂.nil
  | cons i is ih =>
    obtain ⟨run, s₁, runs, hrun, hruns, hout⟩ := (processLayers_cons zkmlBackend).mp h
    obtain ⟨lp, hlp, haccepted, hs₁⟩ := (processOneLayer_eq_ok zkmlBackend).mp hrun
    simp only [layerTranscripts, hlp, List.mem_cons, forall_eq_or_imp] at hne
    simp only [claimBoundLayers, bind_eq_ok] at hbound
    obtain ⟨⟨run', s₁'⟩, hlayer, ⟨runs', rest'⟩, hlayers, -⟩ := hbound
    obtain ⟨layerType, htype, -⟩ := haccepted.sumcheck
    have hsame := ((claimBoundLayer_of_accepted hlp haccepted hs₁ htype).mp hlayer).2
    obtain ⟨rfl, rfl⟩ := Prod.mk.inj hsame
    have hsum := sum_eq_of_claimBoundLayer hpoints hctx hlp haccepted hne.1 hlayer
    have hnext : ∀ ch ∈ layerTranscripts zkmlBackend proof desc is s₁', LayerChallenges.Nonzero ch :=
      fun ch hch => hne.2 ch (hs₁ ▸ hch)
    rw [hout]
    refine List.Forall₂.cons ⟨lp, hlp, hsum⟩ (ih ?_ hruns hnext hlayers)
    exact hctx

/-! ## Whole runs -/

/-- Every compute layer of the run was verified against the commitment of the claims on it. -/
def SumsBound (run : ZkmlRun) : Prop :=
  ∀ i < run.desc.numComputeLayers, ∃ lp layer,
    run.proof.gkrProof.layerProofs[i]? = some lp ∧ run.layers[i]? = some layer ∧
      lp.sumcheckProof.sum = layer.rlcEval

/-- The challenges of all compute layers, replayed from the sponge after the transcript set-up. -/
def computeTranscripts (proof : GKRProof) (desc : DAGCircuitDescription) (s : Sponge) :
    List LayerChallenges :=
  match outputPhase zkmlBackend proof s with
  | .ok (_, s) => layerTranscripts zkmlBackend proof desc (List.range desc.numComputeLayers) s
  | .error _ => []

theorem runPhases_eq_ok {proof : DecodedProof} {gens : PedersenGens}
    {desc : DAGCircuitDescription} {sponge : Sponge} {run : ZkmlRun} :
    runPhases proof gens desc sponge = .ok run ↔
      run.proof = proof ∧ run.gens = gens ∧ run.desc = desc ∧ run.sponge = sponge ∧
      verifyComputeLayers zkmlBackend proof.gkrProof desc gens sponge =
        .ok (run.layers, run.ctx, run.computeSponge) ∧
      verifyInputLayers zkmlBackend proof.gkrProof desc gens run.ctx.allBindings
        ⟨proof.embeddedPubInputs, proof.dagInputProofs, proof.publicValueClaims⟩
          run.computeSponge = .ok run.inputs := by
  simp only [runPhases, bind_eq_ok, pure_eq_ok]
  constructor
  · rintro ⟨⟨layers, ctx, s⟩, hcompute, inputs, hinputs, rfl⟩
    exact ⟨rfl, rfl, rfl, rfl, hcompute, hinputs⟩
  · rintro ⟨rfl, rfl, rfl, rfl, hcompute, hinputs⟩
    exact ⟨(run.layers, run.ctx, run.computeSponge), hcompute, run.inputs, hinputs, rfl⟩

private theorem liftDecode_eq_ok {α : Type} {x : Except DecodeError α} {a : α} :
    liftDecode x = .ok a ↔ x = .ok a := by
  cases x <;> simp [liftDecode]

private theorem catchUnwind_eq_ok {α : Type} {x : Checked α} {a : α} :
    catchUnwind x = .ok a ↔ x = .ok a := by
  cases x <;> simp [catchUnwind]

theorem runPhases_of_tryVerifyRun {proofData gensData circuitDescData : List UInt8}
    {run : ZkmlRun} (h : tryVerifyRun proofData gensData circuitDescData = .ok run) :
    runPhases run.proof run.gens run.desc run.sponge = .ok run := by
  simp only [tryVerifyRun, bind_eq_ok, liftDecode_eq_ok, catchUnwind_eq_ok] at h
  obtain ⟨_, -, _, -, _, -, proof, -, gens, -, ⟨desc, _⟩, -, hrun⟩ := h
  obtain ⟨hproof, hgens, hdesc, hsponge, -⟩ := runPhases_eq_ok.mp hrun
  rw [hproof, hgens, hdesc, hsponge]
  exact hrun

private theorem sumsMatch_range_iff {run : ZkmlRun}
    (hlen : run.layers.length = run.desc.numComputeLayers) :
    SumsMatch run.proof.gkrProof (List.range run.desc.numComputeLayers) run.layers ↔
      SumsBound run := by
  unfold SumsMatch SumsBound
  rw [List.forall₂_iff_get]
  constructor
  · rintro ⟨-, h⟩ i hi
    have hi' : i < run.layers.length := hlen ▸ hi
    obtain ⟨lp, hlp, hsum⟩ := h i (by simpa using hi) hi'
    refine ⟨lp, run.layers[i], ?_, List.getElem?_eq_getElem hi', hsum⟩
    simpa using hlp
  · intro h
    refine ⟨by rw [List.length_range, hlen], ?_⟩
    intro i h₁ h₂
    obtain ⟨lp, layer, hlp, hlayer, hsum⟩ := h i (hlen ▸ h₂)
    rw [List.getElem?_eq_getElem h₂, Option.some.injEq] at hlayer
    refine ⟨lp, by simpa using hlp, ?_⟩
    rw [hsum, ← hlayer]
    rfl

/-- One subtract layer over no commitments, and one public input without claims. -/
def noRoundDesc : DAGCircuitDescription :=
  ⟨1, 1, [0], [0], [0, 0], [], [], [0], [], [false], [0, 0], [], []⟩

def noRoundDescData : List UInt8 :=
  [1, 1, 1, 0, 1, 0, 2, 0, 0, 0, 0, 1, 0, 0, 1, 0, 2, 0, 0, 0, 0].flatMap wordToBeBytes

/-- A proof with the given output commitment; its sum and its masks are at infinity. -/
def noRoundProof (output : G1Point) : DecodedProof :=
  ⟨⟨[output], [⟨⟨G1Point.INFINITY, [], ⟨G1Point.INFINITY, G1Point.INFINITY, [], 0, 0⟩⟩, [], []⟩]⟩,
    [], [], []⟩

def noRoundProofData (output : G1Point) : List UInt8 :=
  SELECTOR ++ ([0, 0, 1, output.x, output.y, 1] ++ List.replicate 16 0).flatMap wordToBeBytes

/-- The sponge after the set-up for a zero circuit hash and no data. -/
def noRoundSponge : Sponge :=
  ⟨11126296998402467987471031972745023120074996446662365163963899048831256527955,
    14205164143352851594495210013473212182308824744185463715977359928635087093369,
    5279522352302557867298476497224338241373055979048649438237359664997265799803, 0⟩

def noGens : PedersenGens := ⟨[], G1Point.INFINITY, G1Point.INFINITY⟩

private theorem proofTranscript_noRound (output : G1Point) :
    proofTranscript (List.replicate 32 0) (noRoundProof output) = noRoundSponge := by
  have hsetup : proofTranscript (List.replicate 32 0) (noRoundProof output) =
      absorbPair rustOps (absorbPair rustOps (absorbPair rustOps init
        (hashToFqPair (List.replicate 32 0))) (sha256HashChain [])) (sha256HashChain []) :=
    setupTranscript_nil rustOps (List.replicate 32 0)
  rw [hsetup, sha256HashChain_nil]
  decide +kernel

/-- On the proof bytes, a run for any description is the run of the decoded proof. -/
theorem tryVerifyRun_noRound (output : G1Point) {desc : DAGCircuitDescription}
    {descData : List UInt8} {offset : ℕ}
    (hdecode : decodeProofForDag (tryReader ((noRoundProofData output).drop 4)) =
      .ok (noRoundProof output))
    (hdesc : (decodeCircuitDescription (tryReader descData) (tryReadUsizeFrom descData)
      (· % 2 ^ 64)).run 0 = .ok (desc, offset)) :
    tryVerifyRun (noRoundProofData output) [] descData =
      catchUnwind (runPhases (noRoundProof output) noGens desc noRoundSponge) := by
  have hgens : decodePedersenGens (tryReader []) = .ok noGens := rfl
  have hhash : ((noRoundProofData output).drop 4).take 32 = List.replicate 32 0 := rfl
  have hselector : ((noRoundProofData output).take 4 == SELECTOR) = true := rfl
  have hlen : (noRoundProofData output).length = 708 := by
    rw [noRoundProofData, List.length_append, length_flatMap_wordToBeBytes]
    rfl
  simp only [tryVerifyRun, hlen, hselector, List.length_drop, hdecode, hgens, hdesc, hhash,
    runVerifier, proofTranscript_noRound, liftDecode, ok_bind]
  rfl

private theorem decode_noRoundDescData :
    (decodeCircuitDescription (tryReader noRoundDescData) (tryReadUsizeFrom noRoundDescData)
      (· % 2 ^ 64)).run 0 = .ok (noRoundDesc, 672) := by
  decide +kernel

end WorldZk.ClaimBinding
