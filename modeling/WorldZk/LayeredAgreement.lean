import WorldZk.LayeredReplay

/-!
# Do the layered verifier and its hybrid agree?

`GKRHybridVerifier` replays the transcript of `GKRVerifier.verify` on its own and checks the curve
equations with scalars from outside. The two agree on proofs of one shape: one variable in the first
layer, at most one product proof in a layer, one committed input, and public inputs whose evaluation
does not depend on which of two layers' bindings is taken.
-/

namespace WorldZk.LayeredAgreement

open CheckedRuns PoseidonSponge ProofTypes VerifierBackend CommittedSumcheck InputLayers
open Bn254Moduli NativeCurve Transcript ProofDecoding SolidityVerifier LayeredVerifier
open LayeredReplay
open LayeredHybrid hiding LayerChallenges
open HybridVerifier hiding publicInputs replayLayers
open DagLayers hiding LayerRun computeOracleEval

/-! ## Agreement -/

/-- The challenges of one layer: no product challenge, or just the stored one. -/
structure SameLayer (ch : LayerChallenges) (hc : LayeredHybrid.LayerChallenges) : Prop where
  bindings : hc.bindings = ch.bindings
  rhos : hc.rhos = ch.rhos
  gammas : hc.gammas = ch.gammas
  podpChallenge : hc.podpChallenge = ch.podpChallenge
  popChallenges : ch.popChallenges = [] ∨ ch.popChallenges = [hc.popChallenge]

/-- The replay derived the challenges that the accepted verification drew. -/
structure SameChallenges (proof : LayeredProof) (circuit : CircuitDescription) (s : Sponge)
    (run : LayeredRun) (challenges : TranscriptChallenges) : Prop where
  output : challenges.outputChallenges = [run.outputChallenge]
  coeffs : challenges.claimAggCoeff :: challenges.interLayerCoeffs =
    run.layers.map (·.randomCoeff)
  layers : ∃ start chs s₁, layeredStart proof.gkrProof s = .ok start ∧
    chainTranscripts proof.gkrProof (List.range (circuit.numLayers - 1)) start.randomCoeff
      start.sponge = .ok (chs, s₁) ∧ List.Forall₂ SameLayer chs challenges.layers
  inputs : run.inputs.map (fun input => (input.rlcCoeffs, input.podpChallenge)) =
    [(challenges.inputRlcCoeffs, challenges.inputPodpChallenge)]

/-- The two verifiers agree on a proof: what the layered one accepts is replayed with the same
challenges and accepted by the hybrid checks at the true values, and what these accept at the true
values the layered verifier accepts. -/
def Agrees (proof : LayeredProof) (circuit : CircuitDescription) (pubInputs : List ℕ)
    (gens : PedersenGens) (s : Sponge) : Prop :=
  (∀ run, verifyLayered proof circuit pubInputs gens s = .ok run →
    ∃ challenges, replayTranscriptAndCollectChallenges proof s = .ok challenges ∧
      SameChallenges proof circuit s run challenges ∧
      (∃ outputs, TrueOutputs proof circuit pubInputs challenges outputs) ∧
      ∀ outputs, TrueOutputs proof circuit pubInputs challenges outputs →
        verifyECChecks proof challenges outputs gens circuit pubInputs = .ok ()) ∧
  (∀ challenges outputs, replayTranscriptAndCollectChallenges proof s = .ok challenges →
    TrueOutputs proof circuit pubInputs challenges outputs →
    verifyECChecks proof challenges outputs gens circuit pubInputs = .ok () →
    ∃ run, verifyLayered proof circuit pubInputs gens s = .ok run)

/-- The bindings that the transcript of a proof gives to the layers, from layer 0 upwards. -/
def transcriptBindings (proof : GKRProof) (s : Sponge) : Checked (List (List ℕ)) := do
  let start ← layeredStart proof s
  let (chs, _) ← chainTranscripts proof (List.range proof.layerProofs.length) start.randomCoeff
    start.sponge
  pure ([] :: (chs.map (·.bindings)).reverse)

/-- The shape of proof and circuit for which the replay was written. -/
structure HybridShape (proof : LayeredProof) (circuit : CircuitDescription) (pubInputs : List ℕ)
    (s : Sponge) : Prop where
  layerCount : proof.gkrProof.layerProofs.length = circuit.numLayers - 1
  oneVariable : ∀ lp, proof.gkrProof.layerProofs[0]? = some lp →
    lp.sumcheckProof.messages.length = 1
  oneProduct : ∀ lp ∈ proof.gkrProof.layerProofs, lp.pops.length ≤ 1
  oneCommitted : (inputLayers circuit true).length = 1
  /-- Without public inputs the hybrid check compares no evaluation with the last claim. -/
  emptyData : inputLayers circuit false ≠ [] → pubInputs = [] → ∀ lp,
    proof.gkrProof.layerProofs.getLast? = some lp → lp.commitments[0]? = some G1Point.INFINITY
  /-- The hybrid check evaluates at the top layer's bindings, the layered verifier at those of the
  first layer above the input. -/
  samePoint : ∀ i ∈ inputLayers circuit false, pubInputs ≠ [] → ∀ bindings point top,
    transcriptBindings proof.gkrProof s = .ok bindings →
    findReferringBindings i circuit bindings = .ok point → bindings.getLast? = some top →
    evaluateMLEFromData pubInputs top = evaluateMLEFromData pubInputs point

/-! ## The replay of a proof with one variable -/

/-- The challenges of a replay, in terms of the transcript of the layered verifier. -/
structure Replayed (proof : LayeredProof) (challenges : TranscriptChallenges) (start : LayeredStart)
    (chs : List LayerChallenges) (s₁ : Sponge) (inputProof : EvalProof) : Prop where
  layers : LayersReplayed proof.gkrProof challenges chs
  output : challenges.outputChallenges = [start.outputChallenge]
  input : ∀ mulBindings,
    (inputTranscript inputProof (deriveInputClaimPoints mulBindings) s₁).rlcCoeffs =
      challenges.inputRlcCoeffs ∧
    (inputTranscript inputProof (deriveInputClaimPoints mulBindings) s₁).podpChallenge =
      challenges.inputPodpChallenge
  /-- One coordinate reads the same in both orders. -/
  point : ∀ ch, chs.head? = some ch → challenges.mleEvalPoint.reverse = ch.bindings

/-- The bindings of the first layer, one for each of its messages. -/
private theorem length_head_bindings {proof : GKRProof} {n coeff : ℕ} {s s' : Sponge}
    {ch : LayerChallenges} {chs : List LayerChallenges}
    (h : chainTranscripts proof (List.range' 0 n) coeff s = .ok (ch :: chs, s'))
    {lp : CommittedLayerProof} (hlp : proof.layerProofs[0]? = some lp) :
    ch.bindings.length = lp.sumcheckProof.messages.length := by
  have hhead : ch = chainedTranscript coeff lp s := by
    match n, h with
    | 0, h => cases h
    | 1, h =>
      obtain ⟨lp', hlp', hout⟩ := chainTranscripts_singleton.mp h
      obtain rfl : lp = lp' := Option.some.inj (hlp.symm.trans hlp')
      exact (List.cons.inj (Prod.mk.inj hout).1).1
    | n + 2, h =>
      rw [List.range'_succ, List.range'_succ] at h
      obtain ⟨lp', chs', hlp', -, hout⟩ := chainTranscripts_cons_cons.mp h
      obtain rfl : lp = lp' := Option.some.inj (hlp.symm.trans hlp')
      exact (List.cons.inj hout).1
  rw [hhead]
  exact length_bindings solBackend _ _

private theorem reverse_of_length_one {l : List ℕ} (h : l.length = 1) : l.reverse = l := by
  obtain ⟨x, rfl⟩ := List.length_eq_one_iff.mp h
  rfl

private theorem challenges_one (s : Sponge) :
    challenges solBackend 1 s = ([(challenge solBackend s).1], (challenge solBackend s).2) := rfl

/-- A first layer with one variable keeps the two transcripts in step. -/
theorem replay_of_oneVariable {proof : LayeredProof} {s : Sponge} {start : LayeredStart}
    (hstart : layeredStart proof.gkrProof s = .ok start) {lp : CommittedLayerProof}
    (hlp : proof.gkrProof.layerProofs[0]? = some lp)
    (hone : lp.sumcheckProof.messages.length = 1) {inputProof : EvalProof}
    (hproof : proof.inputProofs[0]? = some inputProof) :
    ∃ challenges chs s₁, replayTranscriptAndCollectChallenges proof s = .ok challenges ∧
      chainTranscripts proof.gkrProof (List.range proof.gkrProof.layerProofs.length)
        start.randomCoeff start.sponge = .ok (chs, s₁) ∧
      Replayed proof challenges start chs s₁ inputProof := by
  simp only [layeredStart, bind_eq_ok, getOr_eq_ok, pure_eq_ok] at hstart
  obtain ⟨claim, hclaim, rfl⟩ := hstart
  obtain ⟨chs, s₁, hchs, hreplay, hlen, hdrawn⟩ := @replayLayers_eq proof.gkrProof
    proof.gkrProof.layerProofs 0 rfl
    (challenge solBackend (absorbPoint solBackend (challenge solBackend s).2 claim)).1
    (challenge solBackend (absorbPoint solBackend (challenge solBackend s).2 claim)).2
  have hpos : 0 < proof.gkrProof.layerProofs.length := (List.getElem?_eq_some_iff.mp hlp).1
  obtain ⟨ch, rest, rfl⟩ := List.exists_cons_of_length_pos (hlen ▸ hpos)
  have hcoeff := hdrawn.coeff_eq ch rfl
  obtain ⟨last, hlast⟩ : ∃ last, ((ch :: rest).map hybridLayer)[
      proof.gkrProof.layerProofs.length - 1]? = some last := by
    refine ⟨_, List.getElem?_eq_getElem ?_⟩
    rw [List.length_map, hlen]
    omega
  refine ⟨⟨[(challenge solBackend s).1],
    (challenge solBackend (absorbPoint solBackend (challenge solBackend s).2 claim)).1,
    (ch :: rest).map hybridLayer, ((ch :: rest).map coeffOf).tail, (challenges solBackend 2 s₁).1,
    (absorbPodp solBackend inputProof.podp
      (absorbPoint solBackend (challenges solBackend 2 s₁).2 inputProof.comEval)).1,
    ch.bindings, last.bindings⟩, ch :: rest, s₁, ?_, ?_, ?_⟩
  · simp only [replayTranscriptAndCollectChallenges, getOr_eq_ok.mpr hlp, getOr_eq_ok.mpr hclaim,
      getOr_eq_ok.mpr hproof, ok_bind, hone, challenges_one, hreplay, getIdx_eq_ok.mpr hlast]
    rfl
  · rw [List.range_eq_range']
    exact hchs
  · refine ⟨⟨rfl, ?_, hlen, ?_⟩, rfl, fun mulBindings => ⟨rfl, rfl⟩, ?_⟩
    · simp only [List.map_cons, List.tail_cons, hcoeff]
    · intro j ch' lp' hch' hlp'
      refine hdrawn.pops j ch' lp' hch' ?_
      rw [Nat.zero_add]
      exact hlp'
    · rintro ch' ⟨⟩
      exact reverse_of_length_one ((length_head_bindings hchs hlp).trans hone)

/-- What a replay needs to run through. -/
theorem parts_of_replay {proof : LayeredProof} {s : Sponge} {challenges : TranscriptChallenges}
    (h : replayTranscriptAndCollectChallenges proof s = .ok challenges) :
    (∃ lp, proof.gkrProof.layerProofs[0]? = some lp) ∧
      (∃ start, layeredStart proof.gkrProof s = .ok start) ∧
      ∃ inputProof, proof.inputProofs[0]? = some inputProof := by
  simp only [replayTranscriptAndCollectChallenges, bind_eq_ok, getOr_eq_ok] at h
  obtain ⟨lp, hlp, claim, hclaim, _, -, _, -, inputProof, hproof, -⟩ := h
  refine ⟨⟨lp, hlp⟩, ⟨⟨claim, (challenge solBackend s).1,
    (challenge solBackend (absorbPoint solBackend (challenge solBackend s).2 claim)).1,
    (challenge solBackend (absorbPoint solBackend (challenge solBackend s).2 claim)).2⟩, ?_⟩,
    inputProof, hproof⟩
  simp only [layeredStart, bind_eq_ok, getOr_eq_ok, pure_eq_ok]
  exact ⟨claim, hclaim, rfl⟩

/-- Without a variable, or with more than one, the replay draws another number of output
challenges. -/
theorem length_outputChallenges {proof : LayeredProof} {s : Sponge}
    {challenges : TranscriptChallenges}
    (h : replayTranscriptAndCollectChallenges proof s = .ok challenges) {lp : CommittedLayerProof}
    (hlp : proof.gkrProof.layerProofs[0]? = some lp) :
    challenges.outputChallenges.length = lp.sumcheckProof.messages.length := by
  simp only [replayTranscriptAndCollectChallenges, getOr_eq_ok.mpr hlp, ok_bind, bind_eq_ok,
    pure_eq_ok] at h
  obtain ⟨_, -, _, -, _, -, _, -, rfl⟩ := h
  exact length_challenges solBackend _ _

/-! ## The hybrid check at the true values -/

theorem verifyECChecks_eq_ok {proof : LayeredProof} {challenges : TranscriptChallenges}
    {outputs : Groth16Outputs} {gens : PedersenGens} {circuit : CircuitDescription}
    {pubInputs : List ℕ} {inputProof : EvalProof}
    (hproof : proof.inputProofs[0]? = some inputProof) :
    verifyECChecks proof challenges outputs gens circuit pubInputs = .ok () ↔
      verifyLayersEC proof.gkrProof challenges outputs gens circuit = .ok () ∧
      verifyInputHyrax inputProof challenges.inputPodpChallenge outputs.lTensor outputs.zDotR gens =
        .ok () ∧
      (inputLayers circuit false ≠ [] → pubInputs ≠ [] →
        verifyPublicClaimEC proof.gkrProof challenges outputs.mleEval gens pubInputs = .ok ()) := by
  simp only [verifyECChecks, hproof, bind_eq_ok]
  by_cases hpublic : hasNonCommittedInputLayer circuit = true ∧ pubInputs ≠ []
  · have hcond : (hasNonCommittedInputLayer circuit && !pubInputs.isEmpty) = true := by
      simpa using hpublic
    rw [if_pos hcond]
    constructor
    · rintro ⟨_, hlayers, _, hinput, hclaim⟩
      exact ⟨hlayers, hinput, fun _ _ => hclaim⟩
    · rintro ⟨hlayers, hinput, hclaim⟩
      exact ⟨(), hlayers, (), hinput,
        hclaim (hasNonCommittedInputLayer_iff.mp hpublic.1) hpublic.2⟩
  · have hcond : ¬(hasNonCommittedInputLayer circuit && !pubInputs.isEmpty) = true := by
      simpa using hpublic
    rw [if_neg hcond]
    constructor
    · rintro ⟨_, hlayers, _, hinput, -⟩
      refine ⟨hlayers, hinput, fun hlayer hdata => ?_⟩
      exact absurd ⟨hasNonCommittedInputLayer_iff.mpr hlayer, hdata⟩ hpublic
    · rintro ⟨hlayers, hinput, -⟩
      exact ⟨(), hlayers, (), hinput, rfl⟩

theorem verifyPublicClaimEC_eq_ok {proof : GKRProof} {challenges : TranscriptChallenges}
    {mleEval : ℕ} {gens : PedersenGens} {pubInputs : List ℕ} :
    verifyPublicClaimEC proof challenges mleEval gens pubInputs = .ok () ↔
      evaluateMLEFromData pubInputs challenges.mleEvalPoint.reverse = .ok mleEval ∧
      ∃ lp claim, proof.layerProofs[proof.layerProofs.length - 1]? = some lp ∧
        lp.commitments[0]? = some claim ∧ scalarMul gens.scalarGen mleEval = .ok claim := by
  simp only [verifyPublicClaimEC, bind_eq_ok, require_eq_ok, beq_iff_eq, decide_eq_true_eq,
    getIdx_eq_ok]
  constructor
  · rintro ⟨_, heval, _, rfl, lp, hlp, claim, hclaim, expected, hexpected, rfl⟩
    exact ⟨heval, lp, expected, hlp, hclaim, hexpected⟩
  · rintro ⟨heval, lp, claim, hlp, hclaim, hexpected⟩
    exact ⟨mleEval, heval, (), rfl, lp, hlp, claim, hclaim, claim, hexpected, rfl⟩

/-! ## What the layered verifier accepts -/

theorem lengths_of_checkCircuit {circuit : CircuitDescription}
    (h : checkCircuit circuit = .ok ()) :
    circuit.numLayers ≠ 0 ∧ circuit.layerTypes.length = circuit.numLayers ∧
      circuit.isCommitted.length = circuit.numLayers := by
  simp only [checkCircuit, bind_eq_ok, require_eq_ok, bne_iff_ne, beq_iff_eq] at h
  obtain ⟨_, hne, _, -, _, htypes, hkinds⟩ := h
  exact ⟨hne, htypes, hkinds⟩

/-- The bindings of the layers of a transcript, from layer 0 upwards. -/
def chainBindings (chs : List LayerChallenges) : List (List ℕ) :=
  [] :: (chs.map (·.bindings)).reverse

/-- What an accepted proof of a circuit with the one committed input `i` amounts to. -/
structure Accepted (proof : LayeredProof) (circuit : CircuitDescription) (pubInputs : List ℕ)
    (gens : PedersenGens) (i : ℕ) (start : LayeredStart) (chs : List LayerChallenges) (s₁ : Sponge)
    (inputProof : EvalProof) : Prop where
  layers : ChainPasses gens proof.gkrProof circuit 0 [start.outputChallenge] chs
  input : ∃ mulBindings, inputClaimPoints circuit (chainBindings chs) i =
      .ok (deriveInputClaimPoints mulBindings) ∧
    ∃ run, InputOpened gens proofComEval i inputProof (deriveInputClaimPoints mulBindings)
      (inputTranscript inputProof (deriveInputClaimPoints mulBindings) s₁) run
  evaluation : ∀ j ∈ inputLayers circuit false, ∃ point mleEval lp claim,
    findReferringBindings j circuit (chainBindings chs) = .ok point ∧
    evaluateMLEFromData pubInputs point = .ok mleEval ∧
    proof.gkrProof.layerProofs.getLast? = some lp ∧ lp.commitments[0]? = some claim ∧
    scalarMul gens.scalarGen mleEval = .ok claim

theorem inputClaimPoints_eq_ok {circuit : CircuitDescription} {bindings points : List (List ℕ)}
    {i : ℕ} (h : inputClaimPoints circuit bindings i = .ok points) :
    i + 1 < circuit.numLayers ∧ ∃ mulBindings, points = deriveInputClaimPoints mulBindings := by
  simp only [inputClaimPoints, bind_eq_ok, require_eq_ok, decide_eq_true_eq, pure_eq_ok] at h
  obtain ⟨_, hi, mulBindings, -, _, -, _, -, rfl⟩ := h
  exact ⟨hi, mulBindings, rfl⟩

/-- The runs of an accepted loop end with the first commitment of the last layer proof. -/
private theorem lastClaim_eq {proof : GKRProof} {chs : List LayerChallenges}
    {runs : List LayerRun} {n : ℕ} (hlen : proof.layerProofs.length = n) (hpos : 0 < n)
    (hdrawn : RunsDrawn proof 0 n chs runs) (start : LayeredStart) :
    ∃ lp, proof.layerProofs.getLast? = some lp ∧
      lp.commitments[0]? = some (lastClaim start runs) := by
  have hne : runs ≠ [] := List.ne_nil_of_length_pos (hdrawn.length ▸ hpos)
  have hlast : runs.getLast? = some (runs.getLast hne) := List.getLast?_eq_some_getLast hne
  obtain ⟨lp, hlp, hcom⟩ := hdrawn.last _ hlast
  refine ⟨lp, ?_, ?_⟩
  · rw [List.getLast?_eq_getElem?, hlen, ← hlp, Nat.zero_add]
  · rw [lastClaim, hlast]
    exact hcom

section Accepted

variable {proof : LayeredProof} {circuit : CircuitDescription} {pubInputs : List ℕ}
  {gens : PedersenGens} {s : Sponge}

private theorem inputLoop_range (hchecked : checkCircuit circuit = .ok ()) {ctx : InputContext}
    {s₁ : Sponge} {runs : List InputRun} :
    inputLoop proofComEval proof circuit ctx (List.range circuit.numLayers) 0 s₁ = .ok runs ↔
      InputsOpened proof circuit ctx (inputLayers circuit true) 0 s₁ runs ∧
      ∀ i ∈ inputLayers circuit false,
        verifyPublicInput circuit ctx.publicInputs ctx.gens ctx.bindings ctx.claim i = .ok () := by
  obtain ⟨-, htypes, hkinds⟩ := lengths_of_checkCircuit hchecked
  refine inputLoop_iff ?_ ?_
  · intro i hi
    rw [htypes]
    exact List.mem_range.mp hi
  · intro i hi
    rw [hkinds]
    exact List.mem_range.mp hi

/-- The run of an accepted proof draws the transcript of the proof, which passes the checks. -/
theorem accepted_of_verifyLayered (hchecked : checkCircuit circuit = .ok ()) {i : ℕ}
    (hi : inputLayers circuit true = [i]) {run : LayeredRun}
    (h : verifyLayered proof circuit pubInputs gens s = .ok run) :
    ∃ start chs s₁ inputProof, 0 < circuit.numLayers - 1 ∧
      proof.gkrProof.layerProofs.length = circuit.numLayers - 1 ∧
      layeredStart proof.gkrProof s = .ok start ∧
      chainTranscripts proof.gkrProof (List.range (circuit.numLayers - 1)) start.randomCoeff
        start.sponge = .ok (chs, s₁) ∧
      proof.inputProofs[0]? = some inputProof ∧
      Accepted proof circuit pubInputs gens i start chs s₁ inputProof ∧
      run.outputChallenge = start.outputChallenge ∧ run.layers.map (·.randomCoeff) = chs.map coeffOf ∧
      ∃ mulBindings, run.inputs.map (fun input => (input.rlcCoeffs, input.podpChallenge)) =
        [((inputTranscript inputProof (deriveInputClaimPoints mulBindings) s₁).rlcCoeffs,
          (inputTranscript inputProof (deriveInputClaimPoints mulBindings) s₁).podpChallenge)] := by
  obtain ⟨-, hlen, start, s₁, hstart, hout, hlayers, hinputs⟩ := verifyWith_eq_ok.mp h
  have hloop := hlayers
  rw [List.range_eq_range'] at hloop
  obtain ⟨chs, hchs, hpasses, hdrawn⟩ := passes_of_layerLoop hloop
  rw [← List.range_eq_range'] at hchs
  obtain ⟨hopened, hpublic⟩ := (inputLoop_range hchecked).mp hinputs
  rw [hi] at hopened
  obtain ⟨claimPoints, inputProof, input, rest, hpoints, hproof, hinput, hrest, hruns⟩ := hopened
  obtain rfl : rest = [] := hrest
  have hbindings : allBindings run.layers = chainBindings chs := by
    rw [allBindings, chainBindings, hdrawn.bindings]
  simp only [hbindings] at hpoints hpublic
  obtain ⟨hi1, mulBindings, rfl⟩ := inputClaimPoints_eq_ok hpoints
  have hpos : 0 < circuit.numLayers - 1 := by omega
  obtain ⟨lp, hlp, hclaim⟩ := lastClaim_eq hlen hpos hdrawn start
  refine ⟨start, chs, s₁, inputProof, hpos, hlen, hstart, hchs, hproof, ?_, hout, hdrawn.coeffs,
    mulBindings, ?_⟩
  · refine ⟨hpasses, ⟨mulBindings, hpoints, input, hinput⟩, fun j hj => ?_⟩
    obtain ⟨point, mleEval, hpoint, heval, hmul⟩ := verifyPublicInput_eq_ok.mp (hpublic j hj)
    exact ⟨point, mleEval, lp, lastClaim start run.layers, hpoint, heval, hlp, hclaim, hmul⟩
  · rw [hruns, List.map_singleton, hinput.rlcCoeffs_eq, hinput.podpChallenge_eq]

/-- A transcript that passes the checks is accepted. -/
theorem verifyLayered_of_accepted (hchecked : checkCircuit circuit = .ok ()) {i : ℕ}
    (hi : inputLayers circuit true = [i])
    (hlen : proof.gkrProof.layerProofs.length = circuit.numLayers - 1) {start : LayeredStart}
    (hstart : layeredStart proof.gkrProof s = .ok start) {chs : List LayerChallenges} {s₁ : Sponge}
    (hchs : chainTranscripts proof.gkrProof (List.range (circuit.numLayers - 1)) start.randomCoeff
      start.sponge = .ok (chs, s₁)) {inputProof : EvalProof}
    (hproof : proof.inputProofs[0]? = some inputProof)
    (h : Accepted proof circuit pubInputs gens i start chs s₁ inputProof) :
    ∃ run, verifyLayered proof circuit pubInputs gens s = .ok run := by
  obtain ⟨mulBindings, hpoints, input, hinput⟩ := h.input
  have hpos : 0 < circuit.numLayers - 1 := by
    have := (inputClaimPoints_eq_ok hpoints).1
    omega
  have hchs' := hchs
  rw [List.range_eq_range'] at hchs'
  obtain ⟨runs, hruns⟩ := layerLoop_of_passes start.claim hchs' h.layers
  obtain ⟨chs', hdraw, -, hdrawn⟩ := passes_of_layerLoop hruns
  obtain rfl : chs = chs' := congrArg Prod.fst (Except.ok.inj (hchs'.symm.trans hdraw))
  rw [← List.range_eq_range'] at hruns
  have hbindings : allBindings runs = chainBindings chs := by
    rw [allBindings, chainBindings, hdrawn.bindings]
  obtain ⟨lp, hlp, hclaim⟩ := lastClaim_eq hlen hpos hdrawn start
  refine ⟨⟨start.outputChallenge, runs, [input]⟩, verifyWith_eq_ok.mpr
    ⟨(lengths_of_checkCircuit hchecked).1, hlen, start, s₁, hstart, rfl, hruns,
      (inputLoop_range hchecked).mpr ⟨?_, ?_⟩⟩⟩
  · rw [hi]
    exact ⟨_, inputProof, input, [], hbindings ▸ hpoints, hproof, hinput, rfl, rfl⟩
  · intro j hj
    obtain ⟨point, mleEval, lp', claim, hpoint, heval, hlp', hclaim', hmul⟩ := h.evaluation j hj
    obtain rfl : lp = lp' := Option.some.inj (hlp.symm.trans hlp')
    obtain rfl : lastClaim start runs = claim := Option.some.inj (hclaim.symm.trans hclaim')
    exact verifyPublicInput_eq_ok.mpr ⟨point, mleEval, hbindings ▸ hpoint, heval, hmul⟩

end Accepted

/-! ## What the hybrid verifier accepts -/

section Hybrid

variable {proof : LayeredProof} {circuit : CircuitDescription} {pubInputs : List ℕ}
  {gens : PedersenGens} {i : ℕ} {start : LayeredStart} {chs : List LayerChallenges} {s₁ : Sponge}
  {inputProof : EvalProof} {challenges : TranscriptChallenges}

/-- The circuit has one committed input, and the proof one layer proof for each compute layer, with
at most one product proof in each. -/
structure ShapedFor (proof : LayeredProof) (circuit : CircuitDescription) (i : ℕ)
    (inputProof : EvalProof) : Prop where
  numLayers : circuit.numLayers ≠ 0
  layerCount : proof.gkrProof.layerProofs.length = circuit.numLayers - 1
  oneProduct : ∀ lp ∈ proof.gkrProof.layerProofs, lp.pops.length ≤ 1
  committed : inputLayers circuit true = [i]
  input : proof.inputProofs[0]? = some inputProof

private theorem layerBindings_eq (h : Replayed proof challenges start chs s₁ inputProof) :
    layerBindings challenges.layers = chainBindings chs := by
  rw [layerBindings, chainBindings, h.layers.layers, List.map_map]
  rfl

/-- The true values of the committed input, and what the hybrid check makes of them. -/
private theorem inputHyrax_iff (hshape : ShapedFor proof circuit i inputProof)
    (hrep : Replayed proof challenges start chs s₁ inputProof) {outputs : Groth16Outputs}
    (htrue : TrueOutputs proof circuit pubInputs challenges outputs) :
    verifyInputHyrax inputProof challenges.inputPodpChallenge outputs.lTensor outputs.zDotR gens =
        .ok () ↔
      ∃ mulBindings, inputClaimPoints circuit (chainBindings chs) i =
          .ok (deriveInputClaimPoints mulBindings) ∧
        ∃ run, InputOpened gens proofComEval i inputProof (deriveInputClaimPoints mulBindings)
          (inputTranscript inputProof (deriveInputClaimPoints mulBindings) s₁) run := by
  have hmem : i ∈ inputLayers circuit true := by
    rw [hshape.committed]
    exact List.mem_singleton_self i
  obtain ⟨proof', claimPoints, rCoeffs, hproof', hpoints, htensors, hdot⟩ := htrue.input i hmem
  obtain rfl : inputProof = proof' := Option.some.inj (hshape.input.symm.trans hproof')
  rw [layerBindings_eq hrep] at hpoints
  obtain ⟨-, mulBindings, rfl⟩ := inputClaimPoints_eq_ok hpoints
  obtain ⟨hcoeffs, hpodp⟩ := hrep.input mulBindings
  rw [← hcoeffs] at htensors
  rw [← hpodp]
  constructor
  · intro hcheck
    exact ⟨mulBindings, hpoints, inputOpened_iff.mpr
      ⟨(outputs.lTensor, rCoeffs), outputs.zDotR, htensors, hdot, hcheck⟩⟩
  · rintro ⟨mulBindings', hpoints', hrun⟩
    have hsame := Except.ok.inj (hpoints.symm.trans hpoints')
    rw [← hsame] at hrun
    obtain ⟨tensors, zDotR, htensors', hdot', hcheck⟩ := inputOpened_iff.mp hrun
    obtain rfl := Except.ok.inj (htensors.symm.trans htensors')
    obtain rfl : outputs.zDotR = zDotR := Except.ok.inj (hdot.symm.trans hdot')
    exact hcheck

/-- The public data evaluates alike at the point of the hybrid check and at that of the layered
verifier. -/
def SamePoint (circuit : CircuitDescription) (pubInputs : List ℕ) (chs : List LayerChallenges)
    (challenges : TranscriptChallenges) : Prop :=
  ∀ j ∈ inputLayers circuit false, pubInputs ≠ [] → ∀ point,
    findReferringBindings j circuit (chainBindings chs) = .ok point →
    evaluateMLEFromData pubInputs challenges.mleEvalPoint.reverse =
      evaluateMLEFromData pubInputs point

/-- The hybrid check at the true values of an accepted proof. -/
theorem verifyECChecks_of_accepted (hshape : ShapedFor proof circuit i inputProof)
    (hrep : Replayed proof challenges start chs s₁ inputProof)
    (hpoint : SamePoint circuit pubInputs chs challenges) {outputs : Groth16Outputs}
    (htrue : TrueOutputs proof circuit pubInputs challenges outputs)
    (h : Accepted proof circuit pubInputs gens i start chs s₁ inputProof) :
    verifyECChecks proof challenges outputs gens circuit pubInputs = .ok () := by
  refine (verifyECChecks_eq_ok hshape.input).mpr ⟨?_, (inputHyrax_iff hshape hrep htrue).mpr h.input,
    ?_⟩
  · refine (verifyLayersEC_iff hrep.layers hshape.layerCount hshape.numLayers hshape.oneProduct
      htrue.layers).mpr ?_
    rw [hrep.output]
    exact h.layers
  · intro hlayer hdata
    obtain ⟨j, hj⟩ := List.exists_mem_of_ne_nil _ hlayer
    obtain ⟨point, mleEval, lp, claim, hfind, heval, hlp, hclaim, hmul⟩ := h.evaluation j hj
    obtain ⟨point', hfind', heval'⟩ := htrue.evaluation j hj
    rw [layerBindings_eq hrep] at hfind'
    obtain rfl : point = point' := Except.ok.inj (hfind.symm.trans hfind')
    obtain rfl : mleEval = outputs.mleEval := Except.ok.inj (heval.symm.trans heval')
    refine verifyPublicClaimEC_eq_ok.mpr ⟨(hpoint j hj hdata point hfind).trans heval, lp, claim, ?_,
      hclaim, hmul⟩
    rw [← List.getLast?_eq_getElem?]
    exact hlp

/-- An accepted proof has true values. -/
theorem exists_trueOutputs (hshape : ShapedFor proof circuit i inputProof)
    (hrep : Replayed proof challenges start chs s₁ inputProof)
    (hpoint : SamePoint circuit pubInputs chs challenges)
    (h : Accepted proof circuit pubInputs gens i start chs s₁ inputProof) :
    ∃ outputs, TrueOutputs proof circuit pubInputs challenges outputs := by
  have hpasses := h.layers
  rw [← hrep.output] at hpasses
  obtain ⟨values, hvalues⟩ := exists_layerValues hrep.layers hshape.layerCount hshape.numLayers
    hshape.oneProduct hpasses
  obtain ⟨mulBindings, hpoints, hrun⟩ := h.input
  obtain ⟨tensors, zDotR, htensors, hdot, -⟩ := inputOpened_iff.mp hrun
  rw [(hrep.input mulBindings).1] at htensors
  -- all public inputs evaluate to the value at the hybrid check's own point
  obtain ⟨mleEval, hmle⟩ : ∃ mleEval, ∀ j ∈ inputLayers circuit false, ∃ point,
      findReferringBindings j circuit (chainBindings chs) = .ok point ∧
        evaluateMLEFromData pubInputs point = .ok mleEval := by
    by_cases hdata : pubInputs = []
    · refine ⟨0, fun j hj => ?_⟩
      obtain ⟨point, -, -, -, hfind, -⟩ := h.evaluation j hj
      rw [hdata]
      exact ⟨point, hfind, evaluateMLEFromData_nil point⟩
    · by_cases hlayer : inputLayers circuit false = []
      · exact ⟨0, by simp [hlayer]⟩
      · obtain ⟨j, hj⟩ := List.exists_mem_of_ne_nil _ hlayer
        obtain ⟨point, mleEval, -, -, hfind, heval, -⟩ := h.evaluation j hj
        refine ⟨mleEval, fun k hk => ?_⟩
        obtain ⟨point', -, -, -, hfind', -⟩ := h.evaluation k hk
        refine ⟨point', hfind', ?_⟩
        rw [← hpoint k hk hdata point' hfind', hpoint j hj hdata point hfind, heval]
  refine ⟨⟨values.map Prod.fst, values.map Prod.snd, tensors.1, zDotR, mleEval⟩, ?_, ?_, ?_⟩
  · simp only [List.zip_map', Prod.mk.eta, List.map_id']
    exact hvalues
  · intro k hk
    rw [hshape.committed, List.mem_singleton] at hk
    subst hk
    exact ⟨inputProof, _, tensors.2, hshape.input, by rw [layerBindings_eq hrep, hpoints], htensors,
      hdot⟩
  · intro j hj
    rw [layerBindings_eq hrep]
    exact hmle j hj

private theorem isOnCurve_scalarGen {podpChallenge zDotR : ℕ} {lTensor : List ℕ}
    (h : verifyInputHyrax inputProof podpChallenge lTensor zDotR gens = .ok ()) :
    isOnCurve gens.scalarGen = true := by
  simp only [verifyInputHyrax, verifyInputPODPChecks, podpChecks, bind_eq_ok] at h
  obtain ⟨_, -, _, -, _, -, _, -, _, -, _, -, _, -, zg, hzg, -⟩ := h
  exact (LayeredBinding.scalarMul_eq_ok.mp hzg).1

/-- A replayed proof that the hybrid check accepts at its true values passes the layered checks. -/
theorem accepted_of_verifyECChecks (hshape : ShapedFor proof circuit i inputProof)
    (hrep : Replayed proof challenges start chs s₁ inputProof)
    (hempty : inputLayers circuit false ≠ [] → pubInputs = [] → ∀ lp,
      proof.gkrProof.layerProofs.getLast? = some lp → lp.commitments[0]? = some G1Point.INFINITY)
    {outputs : Groth16Outputs} (htrue : TrueOutputs proof circuit pubInputs challenges outputs)
    (h : verifyECChecks proof challenges outputs gens circuit pubInputs = .ok ()) :
    Accepted proof circuit pubInputs gens i start chs s₁ inputProof := by
  obtain ⟨hlayers, hinput, hpublic⟩ := (verifyECChecks_eq_ok hshape.input).mp h
  have hopened := (inputHyrax_iff hshape hrep htrue).mp hinput
  refine ⟨?_, hopened, fun j hj => ?_⟩
  · rw [← hrep.output]
    exact (verifyLayersEC_iff hrep.layers hshape.layerCount hshape.numLayers hshape.oneProduct
      htrue.layers).mp hlayers
  · obtain ⟨point, hfind, heval⟩ := htrue.evaluation j hj
    rw [layerBindings_eq hrep] at hfind
    have hlayer : inputLayers circuit false ≠ [] := List.ne_nil_of_mem hj
    by_cases hdata : pubInputs = []
    · obtain ⟨mulBindings, hpoints, -⟩ := hopened
      have hne : proof.gkrProof.layerProofs ≠ [] := by
        have hi := (inputClaimPoints_eq_ok hpoints).1
        have hlen := hshape.layerCount
        intro hnil
        rw [hnil, List.length_nil] at hlen
        omega
      have hlast := List.getLast?_eq_some_getLast hne
      refine ⟨point, 0, _, G1Point.INFINITY, hfind, ?_, hlast, hempty hlayer hdata _ hlast,
        scalarMul_zero (isOnCurve_scalarGen hinput)⟩
      rw [hdata]
      exact evaluateMLEFromData_nil point
    · obtain ⟨-, lp, claim, hlp, hclaim, hmul⟩ :=
        verifyPublicClaimEC_eq_ok.mp (hpublic hlayer hdata)
      rw [← List.getLast?_eq_getElem?] at hlp
      exact ⟨point, outputs.mleEval, lp, claim, hfind, heval, hlp, hclaim, hmul⟩

end Hybrid

/-! ## Agreement of the two verifiers -/

section Agreement

variable {proof : LayeredProof} {circuit : CircuitDescription} {pubInputs : List ℕ}
  {gens : PedersenGens} {s : Sponge} {start : LayeredStart} {chs : List LayerChallenges}
  {s₁ : Sponge} {inputProof : EvalProof} {challenges : TranscriptChallenges}

private theorem getLast?_chainBindings (ch : LayerChallenges) (rest : List LayerChallenges) :
    (chainBindings (ch :: rest)).getLast? = some ch.bindings := by
  rw [chainBindings, List.map_cons, List.reverse_cons, ← List.cons_append, List.getLast?_concat]

private theorem transcriptBindings_eq (hstart : layeredStart proof.gkrProof s = .ok start)
    (hchs : chainTranscripts proof.gkrProof (List.range proof.gkrProof.layerProofs.length)
      start.randomCoeff start.sponge = .ok (chs, s₁)) :
    transcriptBindings proof.gkrProof s = .ok (chainBindings chs) := by
  rw [transcriptBindings, hstart, ok_bind, hchs]
  rfl

private theorem head_of_replayed (hrep : Replayed proof challenges start chs s₁ inputProof)
    {lp : CommittedLayerProof} (hlp : proof.gkrProof.layerProofs[0]? = some lp) :
    ∃ ch rest, chs = ch :: rest := by
  refine List.exists_cons_of_length_pos ?_
  rw [hrep.layers.length]
  exact (List.getElem?_eq_some_iff.mp hlp).1

private theorem samePoint_of_shape (hstart : layeredStart proof.gkrProof s = .ok start)
    (hchs : chainTranscripts proof.gkrProof (List.range proof.gkrProof.layerProofs.length)
      start.randomCoeff start.sponge = .ok (chs, s₁))
    (hrep : Replayed proof challenges start chs s₁ inputProof) {lp : CommittedLayerProof}
    (hlp : proof.gkrProof.layerProofs[0]? = some lp)
    (h : HybridShape proof circuit pubInputs s) : SamePoint circuit pubInputs chs challenges := by
  intro j hj hdata point hfind
  obtain ⟨ch, rest, rfl⟩ := head_of_replayed hrep hlp
  rw [hrep.point ch rfl]
  exact h.samePoint j hj hdata _ point ch.bindings (transcriptBindings_eq hstart hchs) hfind
    (getLast?_chainBindings ch rest)

/-- The replay of an accepted proof keeps what the verification drew. -/
private theorem sameChallenges_of_replayed {run : LayeredRun}
    (hone : ∀ lp ∈ proof.gkrProof.layerProofs, lp.pops.length ≤ 1)
    (hstart : layeredStart proof.gkrProof s = .ok start)
    (hchs : chainTranscripts proof.gkrProof (List.range (circuit.numLayers - 1)) start.randomCoeff
      start.sponge = .ok (chs, s₁))
    (hrep : Replayed proof challenges start chs s₁ inputProof)
    (hout : run.outputChallenge = start.outputChallenge)
    (hcoeffs : run.layers.map (·.randomCoeff) = chs.map coeffOf) {mulBindings : List ℕ}
    (hinputs : run.inputs.map (fun input => (input.rlcCoeffs, input.podpChallenge)) =
      [((inputTranscript inputProof (deriveInputClaimPoints mulBindings) s₁).rlcCoeffs,
        (inputTranscript inputProof (deriveInputClaimPoints mulBindings) s₁).podpChallenge)]) :
    SameChallenges proof circuit s run challenges := by
  refine ⟨hrep.output.trans (by rw [hout]), hrep.layers.coeffs.trans hcoeffs.symm,
    ⟨start, chs, s₁, hstart, hchs, ?_⟩, ?_⟩
  · rw [hrep.layers.layers, List.forall₂_map_right_iff, List.forall₂_same]
    intro ch hch
    obtain ⟨j, hj, rfl⟩ := List.getElem_of_mem hch
    have hj' : j < proof.gkrProof.layerProofs.length := hrep.layers.length ▸ hj
    have hlp := List.getElem?_eq_getElem hj'
    have hpops := hrep.layers.pops j _ _ (List.getElem?_eq_getElem hj) hlp
    have hle := hone _ (List.mem_of_getElem? hlp)
    refine ⟨rfl, rfl, rfl, rfl, ?_⟩
    rw [← hpops] at hle
    match hcs : chs[j].popChallenges, hle with
    | [], _ => exact .inl rfl
    | [c], _ =>
      right
      simp [hybridLayer, hcs]
  · rw [hinputs, (hrep.input mulBindings).1, (hrep.input mulBindings).2]

theorem agrees_of_hybridShape (hchecked : checkCircuit circuit = .ok ())
    (h : HybridShape proof circuit pubInputs s) : Agrees proof circuit pubInputs gens s := by
  obtain ⟨i, hi⟩ := List.length_eq_one_iff.mp h.oneCommitted
  have hne := (lengths_of_checkCircuit hchecked).1
  constructor
  · intro run hrun
    obtain ⟨start, chs, s₁, inputProof, hpos, hlen, hstart, hchs, hproof, haccepted, hout, hcoeffs,
      mulBindings, hinputs⟩ := accepted_of_verifyLayered hchecked hi hrun
    have hlp := List.getElem?_eq_getElem (hlen ▸ hpos : 0 < proof.gkrProof.layerProofs.length)
    obtain ⟨challenges, chs', s₁', hreplay, hchs', hrep⟩ :=
      replay_of_oneVariable hstart hlp (h.oneVariable _ hlp) hproof
    rw [← hlen] at hchs
    obtain ⟨rfl, rfl⟩ := Prod.mk.inj (Except.ok.inj (hchs.symm.trans hchs'))
    have hshape : ShapedFor proof circuit i inputProof := ⟨hne, hlen, h.oneProduct, hi, hproof⟩
    have hpoint := samePoint_of_shape hstart hchs hrep hlp h
    rw [hlen] at hchs
    refine ⟨challenges, hreplay, sameChallenges_of_replayed h.oneProduct hstart hchs hrep hout hcoeffs
      hinputs, exists_trueOutputs hshape hrep hpoint haccepted, fun outputs htrue => ?_⟩
    exact verifyECChecks_of_accepted hshape hrep hpoint htrue haccepted
  · intro challenges outputs hreplay htrue hec
    obtain ⟨⟨lp, hlp⟩, ⟨start, hstart⟩, inputProof, hproof⟩ := parts_of_replay hreplay
    obtain ⟨challenges', chs, s₁, hreplay', hchs, hrep⟩ :=
      replay_of_oneVariable hstart hlp (h.oneVariable _ hlp) hproof
    obtain rfl : challenges = challenges' := Except.ok.inj (hreplay.symm.trans hreplay')
    have hshape : ShapedFor proof circuit i inputProof :=
      ⟨hne, h.layerCount, h.oneProduct, hi, hproof⟩
    have haccepted := accepted_of_verifyECChecks hshape hrep h.emptyData htrue hec
    rw [h.layerCount] at hchs
    exact verifyLayered_of_accepted hchecked hi h.layerCount hstart hchs hproof haccepted

private theorem length_inputLayers (hchecked : checkCircuit circuit = .ok ()) {run : LayeredRun}
    (h : verifyLayered proof circuit pubInputs gens s = .ok run) :
    (inputLayers circuit true).length = run.inputs.length := by
  obtain ⟨-, -, start, s₁, -, -, -, hinputs⟩ := verifyWith_eq_ok.mp h
  exact (length_inputsOpened ((inputLoop_range hchecked).mp hinputs).1).symm

theorem hybridShape_of_agrees (hchecked : checkCircuit circuit = .ok ()) {run : LayeredRun}
    (hrun : verifyLayered proof circuit pubInputs gens s = .ok run)
    (h : Agrees proof circuit pubInputs gens s) : HybridShape proof circuit pubInputs s := by
  obtain ⟨challenges, hreplay, hsame, ⟨outputs, htrue⟩, hec⟩ := h.1 run hrun
  have hcommitted : (inputLayers circuit true).length = 1 := by
    have hlen := congrArg List.length hsame.inputs
    rw [List.length_map] at hlen
    rw [length_inputLayers hchecked hrun, hlen]
    rfl
  obtain ⟨i, hi⟩ := List.length_eq_one_iff.mp hcommitted
  obtain ⟨start, chs, s₁, inputProof, hpos, hlen, hstart, hchs, hproof, haccepted, -⟩ :=
    accepted_of_verifyLayered hchecked hi hrun
  have hone : ∀ lp, proof.gkrProof.layerProofs[0]? = some lp →
      lp.sumcheckProof.messages.length = 1 := by
    intro lp hlp
    rw [← length_outputChallenges hreplay hlp, hsame.output]
    rfl
  have hlp := List.getElem?_eq_getElem (hlen ▸ hpos : 0 < proof.gkrProof.layerProofs.length)
  obtain ⟨challenges', chs', s₁', hreplay', hchs', hrep⟩ :=
    replay_of_oneVariable hstart hlp (hone _ hlp) hproof
  obtain rfl : challenges = challenges' := Except.ok.inj (hreplay.symm.trans hreplay')
  rw [← hlen] at hchs
  obtain ⟨rfl, rfl⟩ := Prod.mk.inj (Except.ok.inj (hchs.symm.trans hchs'))
  refine ⟨hlen, hone, ?_, hcommitted, ?_, ?_⟩
  · intro lp hmem
    obtain ⟨j, hj, rfl⟩ := List.getElem_of_mem hmem
    have hj' : j < chs.length := hrep.layers.length.symm ▸ hj
    rw [← hrep.layers.pops j chs[j] _ (List.getElem?_eq_getElem hj') (List.getElem?_eq_getElem hj)]
    obtain ⟨start', chs'', s₂, hstart', hchs'', hlayers⟩ := hsame.layers
    obtain rfl : start = start' := Except.ok.inj (hstart.symm.trans hstart')
    rw [← hlen] at hchs''
    obtain ⟨rfl, -⟩ := Prod.mk.inj (Except.ok.inj (hchs.symm.trans hchs''))
    obtain ⟨hlength, hall⟩ := List.forall₂_iff_get.mp hlayers
    obtain hnil | hcons := (hall j hj' (hlength ▸ hj')).popChallenges
    · simp only [List.get_eq_getElem] at hnil
      simp [hnil]
    · simp only [List.get_eq_getElem] at hcons
      simp [hcons]
  · intro hlayer hdata lp hlast
    obtain ⟨j, hj⟩ := List.exists_mem_of_ne_nil _ hlayer
    obtain ⟨point, mleEval, lp', claim, -, heval, hlast', hclaim, hmul⟩ := haccepted.evaluation j hj
    obtain rfl : lp = lp' := Option.some.inj (hlast.symm.trans hlast')
    rw [hdata, evaluateMLEFromData_nil] at heval
    obtain rfl : 0 = mleEval := Except.ok.inj heval
    have hzero := scalarMul_zero (LayeredBinding.scalarMul_eq_ok.mp hmul).1
    obtain rfl : G1Point.INFINITY = claim := Except.ok.inj (hzero.symm.trans hmul)
    exact hclaim
  · intro j hj hdata bindings point top hbindings hfind htop
    rw [transcriptBindings_eq hstart hchs] at hbindings
    obtain rfl : chainBindings chs = bindings := Except.ok.inj hbindings
    obtain ⟨ch, rest, rfl⟩ := head_of_replayed hrep hlp
    obtain rfl : ch.bindings = top :=
      Option.some.inj ((getLast?_chainBindings ch rest).symm.trans htop)
    obtain ⟨-, -, hpublic⟩ := (verifyECChecks_eq_ok hproof).mp (hec outputs htrue)
    obtain ⟨heval, -⟩ := verifyPublicClaimEC_eq_ok.mp (hpublic (List.ne_nil_of_mem hj) hdata)
    obtain ⟨point', hfind', heval'⟩ := htrue.evaluation j hj
    rw [layerBindings_eq hrep] at hfind'
    obtain rfl : point = point' := Except.ok.inj (hfind.symm.trans hfind')
    rw [← hrep.point ch rfl, heval, heval']

end Agreement

/-- For a registered circuit the two verifiers agree on every proof of the shape that the replay was
written for, and on no other proof that the layered verifier accepts. -/
theorem layered_hybrid_agreement (config : CircuitConfig) (proof : LayeredProof)
    (pubInputs : List ℕ) (gens : PedersenGens) (s : Sponge) :
    (HybridShape proof config.description pubInputs s →
      Agrees proof config.description pubInputs gens s) ∧
    ∀ run, verifyLayered proof config.description pubInputs gens s = .ok run →
      (Agrees proof config.description pubInputs gens s ↔
        HybridShape proof config.description pubInputs s) :=
  ⟨agrees_of_hybridShape config.checked, fun _ hrun =>
    ⟨hybridShape_of_agrees config.checked hrun, agrees_of_hybridShape config.checked⟩⟩

/-! ## A subtract layer over a committed input -/

def committedCircuit : CircuitDescription := ⟨2, [8, 4], [3, 0], [true, false]⟩

def committedConfig : CircuitConfig where
  circuitHash := 1
  description := committedCircuit
  active := true
  gensHash := 0
  hash_ne_zero := Nat.one_ne_zero
  checked := by decide

def infinityGens : PedersenGens :=
  ⟨List.replicate 8 G1Point.INFINITY, G1Point.INFINITY, G1Point.INFINITY⟩

/-- A proof at infinity whose layer has `n` messages. -/
def infinityProof (n : ℕ) : LayeredProof :=
  ⟨⟨[G1Point.INFINITY], [⟨⟨G1Point.INFINITY, List.replicate n G1Point.INFINITY,
      ⟨G1Point.INFINITY, G1Point.INFINITY, List.replicate (3 * n) 0, 0, 0⟩⟩,
      [G1Point.INFINITY, G1Point.INFINITY], []⟩]⟩,
    [⟨[G1Point.INFINITY], ⟨G1Point.INFINITY, G1Point.INFINITY, List.replicate (2 ^ (n + 1)) 0, 0, 0⟩,
      G1Point.INFINITY⟩]⟩

private theorem setup_infinityProof (n : ℕ) :
    setupLayeredTranscript 1 [] (infinityProof n) =
      absorbPair solOps (absorb solOps (absorb solOps (absorbPair solOps (absorbPair solOps init
        (hashToFqPair (wordToBeBytes 1))) (sha256HashChain [])) 0) 0) (sha256HashChain [0, 0]) :=
  setupTranscript_infinity solOps (wordToBeBytes 1)

/-- With two variables the layered verifier accepts, and the replay draws two output challenges. -/
theorem two_variables_disagree :
    ∃ run, verifyLayered (infinityProof 2) committedConfig.description [] infinityGens
        (setupLayeredTranscript 1 [] (infinityProof 2)) = .ok run ∧
      ¬Agrees (infinityProof 2) committedConfig.description [] infinityGens
        (setupLayeredTranscript 1 [] (infinityProof 2)) := by
  have haccept : okAnd (verifyLayered (infinityProof 2) committedConfig.description [] infinityGens
      (setupLayeredTranscript 1 [] (infinityProof 2))) (fun _ => true) = true := by
    rw [setup_infinityProof, sha256HashChain_nil, sha256HashChain_infinity]
    decide +kernel
  obtain ⟨run, hrun, -⟩ := okAnd_eq_true.mp haccept
  refine ⟨run, hrun, fun h => ?_⟩
  obtain ⟨challenges, hreplay, hsame, -⟩ := h.1 run hrun
  have hlen := length_outputChallenges hreplay (show _ = some _ from rfl)
  rw [hsame.output, List.length_singleton] at hlen
  exact absurd hlen (by decide)

/-- With one variable both accept. -/
theorem one_variable_agrees :
    ∃ run, verifyLayered (infinityProof 1) committedConfig.description [] infinityGens
        (setupLayeredTranscript 1 [] (infinityProof 1)) = .ok run ∧
      Agrees (infinityProof 1) committedConfig.description [] infinityGens
        (setupLayeredTranscript 1 [] (infinityProof 1)) := by
  have haccept : okAnd (verifyLayered (infinityProof 1) committedConfig.description [] infinityGens
      (setupLayeredTranscript 1 [] (infinityProof 1))) (fun _ => true) = true := by
    rw [setup_infinityProof, sha256HashChain_nil, sha256HashChain_infinity]
    decide +kernel
  obtain ⟨run, hrun, -⟩ := okAnd_eq_true.mp haccept
  have hpublic : inputLayers committedCircuit false = [] := by decide
  refine ⟨run, hrun, (layered_hybrid_agreement committedConfig (infinityProof 1) [] infinityGens
    _).1 ⟨rfl, ?_, ?_, rfl, ?_, ?_⟩⟩
  · rintro lp ⟨⟩
    rfl
  · intro lp hlp
    obtain rfl := List.mem_singleton.mp hlp
    exact Nat.zero_le 1
  · intro hlayer
    exact absurd hpublic hlayer
  · intro i hi
    rw [show inputLayers committedConfig.description false = [] from hpublic] at hi
    cases hi

end WorldZk.LayeredAgreement
