import WorldZk.LayeredVerifier

/-!
# Transcript and checks of the layered verifier, apart

As for the DAG verifier: the challenges of a layered proof depend on its messages, commitments and
responses only. Each layer is accepted when its checks hold at the challenges of its transcript, and
the committed `sum` is absorbed nowhere.
-/

namespace WorldZk.LayeredVerifier

open CheckedRuns PoseidonSponge ProofTypes VerifierBackend CommittedSumcheck InputLayers
open DagLayers hiding LayerRun computeOracleEval
open Bn254Moduli SolidityVerifier

/-! ## One layer -/

/-- The challenges that a layer draws. The aggregation coefficient is drawn before the layer. -/
def layerTranscript (lp : CommittedLayerProof) (s : Sponge) : LayerChallenges :=
  layerChallenges solBackend 0 lp s

/-- What an accepted layer amounts to: its checks at the challenges of its transcript. -/
structure LayerChecked (gens : PedersenGens) (lp : CommittedLayerProof) (layerType : ℕ)
    (claim : G1Point) (claimPoint : List ℕ) (randomCoeff : ℕ) (ch : LayerChallenges)
    (run : LayerRun) : Prop where
  claim_eq : run.claim = claim
  claimPoint_eq : run.claimPoint = claimPoint
  randomCoeff_eq : run.randomCoeff = randomCoeff
  bindings_eq : run.bindings = ch.bindings
  beta : computeRlcBeta ch.bindings claimPoint randomCoeff = .ok run.rlcBeta
  oracle : computeOracleEval lp.commitments layerType run.rlcBeta = .ok run.oracleEval
  sumcheck : sumcheckHolds solBackend lp.sumcheckProof.sum lp.sumcheckProof run.oracleEval
    (layerDegree layerType) ch gens = .ok true
  products : productsHold solBackend lp.commitments gens 0 lp.pops ch.popChallenges = .ok true
  next : lp.commitments[0]? = some run.nextClaim

/-- A layer is accepted exactly when its checks hold at the challenges of its transcript. -/
theorem verifyOneLayer_eq_ok {gens : PedersenGens} {lp : CommittedLayerProof} {layerType : ℕ}
    {claim : G1Point} {claimPoint : List ℕ} {randomCoeff : ℕ} {s s' : Sponge} {run : LayerRun} :
    verifyOneLayer gens lp layerType claim claimPoint randomCoeff s = .ok (run, s') ↔
      LayerChecked gens lp layerType claim claimPoint randomCoeff (layerTranscript lp s) run ∧
        s' = (layerTranscript lp s).sponge := by
  constructor
  · intro h
    simp only [verifyOneLayer, bind_eq_ok, require_eq_ok, getOr_eq_ok, pure_eq_ok] at h
    obtain ⟨rlcBeta, hbeta, oracleEval, horacle, ⟨valid, s₁⟩, hverify, _, hvalid, ⟨popsValid, s₂⟩,
      hpops, _, hpopsValid, nextClaim, hnext, hrun⟩ := h
    simp only at hvalid hpopsValid hpops hbeta
    subst hvalid hpopsValid
    obtain ⟨rfl, rfl⟩ := Prod.mk.inj hrun
    obtain ⟨hsum, rfl⟩ := (verify_eq_ok solBackend (layerTranscript lp s) rfl
      (length_bindings solBackend _ _) rfl rfl rfl).mp hverify
    obtain ⟨hprod, rfl⟩ := (verifyProducts_true solBackend).mp hpops
    exact ⟨⟨rfl, rfl, rfl, rfl, hbeta, horacle, hsum, hprod, hnext⟩, rfl⟩
  · rintro ⟨⟨hclaim, hpoint, hcoeff, hbind, hbeta, horacle, hsum, hprod, hnext⟩, rfl⟩
    obtain ⟨claim', claimPoint', randomCoeff', bindings, rlcBeta, oracleEval, nextClaim⟩ := run
    simp only at hclaim hpoint hcoeff hbind hbeta horacle hsum hnext
    subst hclaim hpoint hcoeff hbind
    simp only [verifyOneLayer, bind_eq_ok, require_eq_ok, getOr_eq_ok, pure_eq_ok]
    refine ⟨rlcBeta, hbeta, oracleEval, horacle, (true, _), (verify_eq_ok solBackend
      (layerTranscript lp s) rfl (length_bindings solBackend _ _) rfl rfl rfl).mpr ⟨hsum, rfl⟩, (),
      rfl, (true, _), (verifyProducts_true solBackend).mpr ⟨hprod, rfl⟩, (), rfl, nextClaim, hnext,
      rfl⟩

/-! ## The layer loop -/

/-- The challenges of a layer together with the coefficient drawn before it. -/
def chainedTranscript (randomCoeff : ℕ) (lp : CommittedLayerProof) (s : Sponge) :
    LayerChallenges :=
  { layerTranscript lp s with rlcCoeffs := [randomCoeff] }

/-- The challenges of the layers in the list, and the sponge after the last one. -/
def chainTranscripts (proof : GKRProof) :
    List ℕ → ℕ → Sponge → Checked (List LayerChallenges × Sponge)
  | [], _, s => pure ([], s)
  | proofIdx :: rest, randomCoeff, s => do
    let lp ← getIdx proof.layerProofs proofIdx
    let ch := chainedTranscript randomCoeff lp s
    if rest.isEmpty then pure ([ch], ch.sponge)
    else
      let (coeff, s) := challenge solBackend ch.sponge
      let (chs, s) ← chainTranscripts proof rest coeff s
      pure (ch :: chs, s)

theorem chainTranscripts_singleton {proof : GKRProof} {proofIdx randomCoeff : ℕ} {s : Sponge}
    {out : List LayerChallenges × Sponge} :
    chainTranscripts proof [proofIdx] randomCoeff s = .ok out ↔
      ∃ lp, proof.layerProofs[proofIdx]? = some lp ∧
        out = ([chainedTranscript randomCoeff lp s], (layerTranscript lp s).sponge) := by
  simp only [chainTranscripts, List.isEmpty_nil, ↓reduceIte, bind_eq_ok, getIdx_eq_ok, pure_eq_ok]
  refine exists_congr fun lp => and_congr_right fun _ => ?_
  exact eq_comm

theorem chainTranscripts_cons_cons {proof : GKRProof} {proofIdx next randomCoeff : ℕ}
    {rest : List ℕ} {s : Sponge} {out : List LayerChallenges × Sponge} :
    chainTranscripts proof (proofIdx :: next :: rest) randomCoeff s = .ok out ↔
      ∃ lp chs, proof.layerProofs[proofIdx]? = some lp ∧
        chainTranscripts proof (next :: rest)
          (challenge solBackend (layerTranscript lp s).sponge).1
          (challenge solBackend (layerTranscript lp s).sponge).2 = .ok (chs, out.2) ∧
        out.1 = chainedTranscript randomCoeff lp s :: chs := by
  rw [chainTranscripts]
  simp only [List.isEmpty_cons, Bool.false_eq_true, ↓reduceIte, bind_eq_ok, getIdx_eq_ok, pure_eq_ok]
  constructor
  · rintro ⟨lp, hlp, ⟨chs, s'⟩, hchs, rfl⟩
    exact ⟨lp, chs, hlp, hchs, rfl⟩
  · rintro ⟨lp, chs, hlp, hchs, hout⟩
    refine ⟨lp, hlp, (chs, out.2), hchs, ?_⟩
    rw [← hout]

section Loop

variable {check : LayerCheck} {proof : GKRProof} {circuit : CircuitDescription} {proofIdx : ℕ}
  {rest : List ℕ} {claim : G1Point} {claimPoint : List ℕ} {randomCoeff : ℕ} {s : Sponge}

theorem layerLoop_nil {out : List LayerRun × Sponge} :
    layerLoop check proof circuit [] claim claimPoint randomCoeff s = .ok out ↔ out = ([], s) := by
  rw [layerLoop, pure_eq_ok]
  exact eq_comm

/-- The last layer of the loop. -/
theorem layerLoop_singleton {out : List LayerRun × Sponge} :
    layerLoop check proof circuit [proofIdx] claim claimPoint randomCoeff s = .ok out ↔
      ∃ lp layerType run s₁, proof.layerProofs[proofIdx]? = some lp ∧
        circuit.layerTypes[circuit.numLayers - 1 - proofIdx]? = some layerType ∧
        check lp layerType claim claimPoint randomCoeff s = .ok (run, s₁) ∧ out = ([run], s₁) := by
  simp only [layerLoop, List.isEmpty_nil, ↓reduceIte, bind_eq_ok, getIdx_eq_ok, pure_eq_ok]
  constructor
  · rintro ⟨lp, hlp, layerType, htype, ⟨run, s₁⟩, hrun, rfl⟩
    exact ⟨lp, layerType, run, s₁, hlp, htype, hrun, rfl⟩
  · rintro ⟨lp, layerType, run, s₁, hlp, htype, hrun, rfl⟩
    exact ⟨lp, hlp, layerType, htype, (run, s₁), hrun, rfl⟩

/-- A layer with others after it. -/
theorem layerLoop_cons_cons {next : ℕ} {out : List LayerRun × Sponge} :
    layerLoop check proof circuit (proofIdx :: next :: rest) claim claimPoint randomCoeff s =
        .ok out ↔
      ∃ lp layerType run s₁ runs, proof.layerProofs[proofIdx]? = some lp ∧
        circuit.layerTypes[circuit.numLayers - 1 - proofIdx]? = some layerType ∧
        check lp layerType claim claimPoint randomCoeff s = .ok (run, s₁) ∧
        layerLoop check proof circuit (next :: rest) run.nextClaim run.bindings
          (challenge solBackend s₁).1 (challenge solBackend s₁).2 = .ok (runs, out.2) ∧
        out.1 = run :: runs := by
  rw [layerLoop]
  simp only [List.isEmpty_cons, Bool.false_eq_true, ↓reduceIte, bind_eq_ok, getIdx_eq_ok,
    pure_eq_ok]
  constructor
  · rintro ⟨lp, hlp, layerType, htype, ⟨run, s₁⟩, hrun, ⟨runs, s₂⟩, hruns, rfl⟩
    exact ⟨lp, layerType, run, s₁, runs, hlp, htype, hrun, hruns, rfl⟩
  · rintro ⟨lp, layerType, run, s₁, runs, hlp, htype, hrun, hruns, hout⟩
    refine ⟨lp, hlp, layerType, htype, (run, s₁), hrun, (runs, out.2), hruns, ?_⟩
    rw [← hout]

end Loop

/-! ## One committed input -/

/-- The challenges of a committed input's opening. -/
def inputTranscript (inputProof : EvalProof) (claimPoints : List (List ℕ)) (s : Sponge) :
    GroupChallenges :=
  groupChallenges solBackend claimPoints.length inputProof.comEval inputProof.podp s

/-- What an accepted committed input amounts to. -/
structure InputOpened (gens : PedersenGens)
    (opened : ℕ → EvalProof → List ℕ → Checked G1Point) (i : ℕ) (inputProof : EvalProof)
    (claimPoints : List (List ℕ)) (ch : GroupChallenges) (run : InputRun) : Prop where
  layerIdx_eq : run.layerIdx = i
  comEval_eq : run.comEval = inputProof.comEval
  rlcCoeffs_eq : run.rlcCoeffs = ch.rlcCoeffs
  podpChallenge_eq : run.podpChallenge = ch.podpChallenge
  tensors : multiClaimTensors inputProof.commitmentRows.length claimPoints ch.rlcCoeffs =
    .ok (run.lCoeffs, run.rCoeffs)
  opening : ∃ comY, opened i inputProof ch.rlcCoeffs = .ok comY ∧
    openingHolds solBackend inputProof.commitmentRows inputProof.podp comY run.lCoeffs run.rCoeffs
      ch.podpChallenge gens = .ok true

theorem openCommittedInput_eq_ok {gens : PedersenGens}
    {opened : ℕ → EvalProof → List ℕ → Checked G1Point} {i : ℕ} {inputProof : EvalProof}
    {claimPoints : List (List ℕ)} {s s' : Sponge} {run : InputRun} :
    openCommittedInput gens opened i inputProof claimPoints s = .ok (run, s') ↔
      InputOpened gens opened i inputProof claimPoints (inputTranscript inputProof claimPoints s)
        run ∧ s' = (inputTranscript inputProof claimPoints s).sponge := by
  simp only [openCommittedInput, bind_eq_ok, require_eq_ok, pure_eq_ok]
  constructor
  · rintro ⟨⟨lCoeffs, rCoeffs⟩, htensors, comY, hcomY, valid, hvalid, _, rfl, hrun⟩
    obtain ⟨rfl, rfl⟩ := Prod.mk.inj hrun
    exact ⟨⟨rfl, rfl, rfl, rfl, htensors, comY, hcomY, hvalid⟩, rfl⟩
  · rintro ⟨⟨hidx, hcom, hcoeffs, hpodp, htensors, comY, hcomY, hvalid⟩, rfl⟩
    obtain ⟨layerIdx, comEval, rlcCoeffs, lCoeffs, rCoeffs, podpChallenge⟩ := run
    simp only at hidx hcom hcoeffs hpodp htensors hvalid
    refine ⟨(lCoeffs, rCoeffs), htensors, comY, hcomY, true, hvalid, (), rfl, ?_⟩
    rw [hidx, hcom, hcoeffs, hpodp]
    rfl

/-! ## The input loop -/

section InputLoop

variable {opened : ℕ → EvalProof → List ℕ → Checked G1Point} {proof : LayeredProof}
  {circuit : CircuitDescription} {ctx : InputContext}

/-- The layer at `i` is no input, a committed input that was opened, or a public input that was
compared; and the loop went on. -/
theorem inputLoop_cons {i : ℕ} {is : List ℕ} {hyraxProofIdx : ℕ} {s : Sponge}
    {runs : List InputRun} :
    inputLoop opened proof circuit ctx (i :: is) hyraxProofIdx s = .ok runs ↔
      ∃ layerType, circuit.layerTypes[i]? = some layerType ∧
        ((layerType ≠ 3 ∧ inputLoop opened proof circuit ctx is hyraxProofIdx s = .ok runs) ∨
        (layerType = 3 ∧ circuit.isCommitted[i]? = some true ∧ ∃ claimPoints inputProof run rest,
          inputClaimPoints circuit ctx.bindings i = .ok claimPoints ∧
          proof.inputProofs[hyraxProofIdx]? = some inputProof ∧
          InputOpened ctx.gens opened i inputProof claimPoints
            (inputTranscript inputProof claimPoints s) run ∧
          inputLoop opened proof circuit ctx is (hyraxProofIdx + 1)
            (inputTranscript inputProof claimPoints s).sponge = .ok rest ∧ runs = run :: rest) ∨
        (layerType = 3 ∧ circuit.isCommitted[i]? = some false ∧
          verifyPublicInput circuit ctx.publicInputs ctx.gens ctx.bindings ctx.claim i = .ok () ∧
          inputLoop opened proof circuit ctx is hyraxProofIdx s = .ok runs)) := by
  simp only [inputLoop, bind_eq_ok, getIdx_eq_ok]
  refine exists_congr fun layerType => and_congr_right fun _ => ?_
  by_cases htype : layerType = 3
  · simp only [htype, ne_eq, not_true_eq_false, ↓reduceIte, false_and, false_or, true_and,
      bind_eq_ok, getIdx_eq_ok]
    constructor
    · rintro ⟨committed, hcommitted, h⟩
      cases committed with
      | true =>
        simp only [↓reduceIte, bind_eq_ok, getIdx_eq_ok, pure_eq_ok] at h
        obtain ⟨claimPoints, hpoints, inputProof, hproof, ⟨run, s₁⟩, hrun, rest, hrest, rfl⟩ := h
        obtain ⟨hopened, rfl⟩ := openCommittedInput_eq_ok.mp hrun
        exact .inl ⟨hcommitted, claimPoints, inputProof, run, rest, hpoints, hproof, hopened, hrest,
          rfl⟩
      | false =>
        simp only [Bool.false_eq_true, ↓reduceIte, bind_eq_ok] at h
        obtain ⟨_, hpublic, hrest⟩ := h
        exact .inr ⟨hcommitted, hpublic, hrest⟩
    · rintro (⟨hcommitted, claimPoints, inputProof, run, rest, hpoints, hproof, hopened, hrest,
        rfl⟩ | ⟨hcommitted, hpublic, hrest⟩)
      · refine ⟨true, hcommitted, ?_⟩
        simp only [↓reduceIte, bind_eq_ok, getIdx_eq_ok, pure_eq_ok]
        exact ⟨claimPoints, hpoints, inputProof, hproof, (run, _),
          openCommittedInput_eq_ok.mpr ⟨hopened, rfl⟩, rest, hrest, rfl⟩
      · refine ⟨false, hcommitted, ?_⟩
        simp only [Bool.false_eq_true, ↓reduceIte, bind_eq_ok]
        exact ⟨(), hpublic, hrest⟩
  · simp [htype]

end InputLoop

/-! ## The whole proof -/

/-- Where the verification of a proof stands before its layers: the output claim, the output
challenge, the first coefficient and the sponge. -/
structure LayeredStart where
  claim : G1Point
  outputChallenge : ℕ
  randomCoeff : ℕ
  sponge : Sponge

/-- The first steps of `GKRVerifier.verify`. -/
def layeredStart (proof : GKRProof) (s : Sponge) : Checked LayeredStart := do
  let output := challenge solBackend s
  let claim ← getOr .noOutputClaimCommitments proof.outputClaimCommitments 0
  let coeff := challenge solBackend (absorbPoint solBackend output.2 claim)
  pure ⟨claim, output.1, coeff.1, coeff.2⟩

/-- The claim that the public inputs are compared with: the last layer's, or the output claim of a
circuit without compute layers. -/
def lastClaim (start : LayeredStart) (layers : List LayerRun) : G1Point :=
  (layers.getLast?.map (·.nextClaim)).getD start.claim

/-- An accepted proof is an accepted start, layer loop and input loop. -/
theorem verifyWith_eq_ok {check : LayerCheck}
    {opened : ℕ → EvalProof → List ℕ → Checked G1Point} {proof : LayeredProof}
    {circuit : CircuitDescription} {publicInputs : List ℕ} {gens : PedersenGens} {s : Sponge}
    {run : LayeredRun} :
    verifyWith check opened proof circuit publicInputs gens s = .ok run ↔
      circuit.numLayers ≠ 0 ∧ proof.gkrProof.layerProofs.length = circuit.numLayers - 1 ∧
      ∃ start s₁, layeredStart proof.gkrProof s = .ok start ∧
        run.outputChallenge = start.outputChallenge ∧
        layerLoop check proof.gkrProof circuit (List.range (circuit.numLayers - 1)) start.claim
          [start.outputChallenge] start.randomCoeff start.sponge = .ok (run.layers, s₁) ∧
        inputLoop opened proof circuit
          ⟨publicInputs, gens, allBindings run.layers, lastClaim start run.layers⟩
          (List.range circuit.numLayers) 0 s₁ = .ok run.inputs := by
  simp only [verifyWith, layeredStart, bind_eq_ok, require_eq_ok, pure_eq_ok, bne_iff_ne, beq_iff_eq]
  constructor
  · rintro ⟨_, hne, _, hlen, claim, hclaim, ⟨layers, s₁⟩, hlayers, inputs, hinputs, rfl⟩
    exact ⟨hne, hlen, _, s₁, ⟨claim, hclaim, rfl⟩, rfl, hlayers, hinputs⟩
  · rintro ⟨hne, hlen, _, s₁, ⟨claim, hclaim, rfl⟩, houtput, hlayers, hinputs⟩
    obtain ⟨outputChallenge, layers, inputs⟩ := run
    simp only at houtput hlayers hinputs
    subst houtput
    exact ⟨(), hne, (), hlen, claim, hclaim, (layers, s₁), hlayers, inputs, hinputs, rfl⟩

end WorldZk.LayeredVerifier
