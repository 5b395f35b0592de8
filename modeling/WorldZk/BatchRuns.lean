import WorldZk.BatchRefinement

/-!
# Whole batch sessions

A session that is driven with one set of arguments to its end, against `verifyDAGProof` on the
same arguments. The invariant ties the stored session to what the one-transaction verifier still
has to check.
-/

namespace WorldZk.BatchRuns

open CheckedRuns PoseidonSponge ProofTypes VerifierBackend DagLayers InputLayers ProofDecoding
open FieldArithmetic Transcript SolidityVerifier BatchSessions BatchRefinement
open scoped NamedInstances

/-- The arguments of the calls of a session. -/
structure Calldata where
  proof : List UInt8
  circuitHash : ℕ
  publicInputs : List UInt8
  gensData : List UInt8
deriving DecidableEq, Repr

/-! ## One transaction, cut where the session cuts it -/

/-- The set-up that `verifyDAGProof` and `startDAGBatchVerify` have in common succeeds. -/
structure SetupDone (c : Contract) (d : Calldata) (config : DAGCircuitConfig)
    (proof : DecodedProof) (ctx : VerifyContext) (s : Sponge) : Prop where
  unpaused : c.paused = false
  circuit : activeCircuit c d.circuitHash = .ok config
  format : checkProofFormat d.proof = .ok ()
  generators : checkGenerators config d.gensData = .ok ()
  decoded : decodeProofForDag (calldataReader (d.proof.drop 4)) = .ok proof
  output : outputPhase solBackend proof.gkrProof (setupDagTranscript d.circuitHash proof) =
    .ok (ctx, s)

/-- What is left of `verifyDAGProof` after the set-up, from the given layer on. -/
def LayersAccepted (d : Calldata) (desc : DAGCircuitDescription) (proof : DecodedProof)
    (bindings : List (List ℕ)) (outputChallenges : List ℕ) (session : DAGBatchSession) : Prop :=
  ∃ gens runs ctx s,
    decodePedersenGens (calldataReader d.gensData) = .ok gens ∧
    processLayers solBackend proof.gkrProof desc gens
      (List.range' bindings.length (desc.numComputeLayers - bindings.length))
      ⟨bindings, outputChallenges, session.outputEval⟩ session.sponge = .ok (runs, ctx, s) ∧
    FinalizeAccepted proof desc gens ctx.allBindings session.finalizeInputIdx
      session.finalizeGroupsDone s

theorem decodeProofForDag_eq_ok {r : Reader} {proof : DecodedProof} :
    decodeProofForDag r = .ok proof ↔
      (∃ offset, (extractEmbeddedPublicInputs r).run 0 = .ok (proof.embeddedPubInputs, offset)) ∧
        decodeProofSections r = .ok (proof.gkrProof, proof.publicValueClaims,
          proof.dagInputProofs) := by
  simp only [decodeProofForDag, bind_eq_ok, pure_eq_ok]
  constructor
  · rintro ⟨⟨embedded, offset⟩, hembedded, ⟨gkrProof, claims, inputs⟩, hsections, rfl⟩
    exact ⟨⟨offset, hembedded⟩, hsections⟩
  · rintro ⟨⟨offset, hembedded⟩, hsections⟩
    exact ⟨(proof.embeddedPubInputs, offset), hembedded, _, hsections, rfl⟩

/-- The session that `startDAGBatchVerify` stores. -/
def startSession (d : Calldata) (sender : ℕ) (config : DAGCircuitConfig) (ctx : VerifyContext)
    (s : Sponge) : DAGBatchSession :=
  ⟨d.circuitHash, sender, 0, computeNumComputeBatches config.description.numComputeLayers,
    config.description.numComputeLayers, false, s, ctx.outputEval, 0, 0⟩

theorem startDAGBatchVerify_eq_ok {c : BatchContract} {sender blockNum : ℕ} {d : Calldata}
    {out : ℕ × BatchContract} :
    startDAGBatchVerify c sender blockNum d.proof d.circuitHash d.publicInputs d.gensData =
        .ok out ↔
      ∃ config proof ctx s, SetupDone c.toContract d config proof ctx s ∧
        out = (generateSessionId sender d.circuitHash blockNum,
          c.store (generateSessionId sender d.circuitHash blockNum)
            (startSession d sender config ctx s) ⟨[], [0], ctx.outputChallenges⟩) := by
  simp only [startDAGBatchVerify, bind_eq_ok, pure_eq_ok, require_eq_ok, liftDecode_eq_ok,
    liftVerifier_eq_ok, Bool.not_eq_true']
  constructor
  · rintro ⟨_, hpaused, config, hconfig, _, hformat, _, hgens, ⟨gkrProof, claims, inputs⟩, hsections,
      ⟨embedded, offset⟩, hembedded, ⟨ctx, s⟩, houtput, rfl⟩
    refine ⟨config, ⟨gkrProof, embedded, inputs, claims⟩, ctx, s, ⟨hpaused, hconfig, hformat, hgens,
      decodeProofForDag_eq_ok.mpr ⟨⟨offset, hembedded⟩, hsections⟩, houtput⟩, rfl⟩
  · rintro ⟨config, proof, ctx, s, h, rfl⟩
    obtain ⟨⟨offset, hembedded⟩, hsections⟩ := decodeProofForDag_eq_ok.mp h.decoded
    exact ⟨(), h.unpaused, config, h.circuit, (), h.format, (), h.generators, _, hsections, _,
      hembedded, (ctx, s), h.output, rfl⟩

theorem outputPhase_ctx {proof : GKRProof} {s₀ s : Sponge} {ctx : VerifyContext}
    (h : outputPhase solBackend proof s₀ = .ok (ctx, s)) :
    ctx = ⟨[], ctx.outputChallenges, ctx.outputEval⟩ := by
  simp only [outputPhase, bind_eq_ok, pure_eq_ok] at h
  obtain ⟨_, -, _, -, h⟩ := h
  obtain ⟨rfl, -⟩ := Prod.mk.inj h
  rfl

/-- `verifyDAGProof` accepts when its set-up succeeds and the layers are accepted after it. -/
theorem verifyDAGProof_eq_true {c : Contract} {sender : ℕ} {d : Calldata} :
    verifyDAGProof c d.proof d.circuitHash d.publicInputs d.gensData = .ok true ↔
      ∃ config proof ctx s, SetupDone c d config proof ctx s ∧
        LayersAccepted d config.description proof [] ctx.outputChallenges
          (startSession d sender config ctx s) := by
  simp only [verifyDAGProof, verifyPhases, verifyComputeLayers, bind_eq_ok, pure_eq_ok,
    require_eq_ok, liftDecode_eq_ok, liftVerifier_eq_ok, Bool.not_eq_true', LayersAccepted,
    startSession, finalizeAccepted_start, List.length_nil, Nat.sub_zero, ← List.range_eq_range']
  constructor
  · rintro ⟨_, hpaused, config, hconfig, _, hformat, _, hgens, proof, hdecoded, gens, hgensData, _,
      ⟨⟨layers, ctx', s'⟩, ⟨⟨ctx, s⟩, houtput, hlayers⟩, st, hst, -⟩, -⟩
    refine ⟨config, proof, ctx, s, ⟨hpaused, hconfig, hformat, hgens, hdecoded, houtput⟩, gens,
      layers, ctx', s', hgensData, ?_, st, hst⟩
    rw [← outputPhase_ctx houtput]
    exact hlayers
  · rintro ⟨config, proof, ctx, s, h, gens, layers, ctx', s', hgensData, hlayers, st, hst⟩
    rw [← outputPhase_ctx h.output] at hlayers
    exact ⟨(), h.unpaused, config, h.circuit, (), h.format, (), h.generators, proof, h.decoded, gens,
      hgensData, _, ⟨(layers, ctx', s'), ⟨(ctx, s), h.output, hlayers⟩, st, hst, rfl⟩, trivial⟩

/-! ## What a call can change -/

@[simp] theorem store_toContract (c : BatchContract) (sessionId : ℕ) (session : DAGBatchSession)
    (crossData : CrossBatchData) : (c.store sessionId session crossData).toContract = c.toContract :=
  rfl

@[simp] theorem store_sessions_self (c : BatchContract) (sessionId : ℕ) (session : DAGBatchSession)
    (crossData : CrossBatchData) : (c.store sessionId session crossData).sessions sessionId = session :=
  Function.update_self ..

@[simp] theorem store_crossBatch_self (c : BatchContract) (sessionId : ℕ)
    (session : DAGBatchSession) (crossData : CrossBatchData) :
    (c.store sessionId session crossData).crossBatch sessionId = crossData :=
  Function.update_self ..

/-- The session that a continue call stores. -/
def continuedSession (session : DAGBatchSession) (s : Sponge) : DAGBatchSession :=
  { session with nextBatchIdx := session.nextBatchIdx + 1, sponge := s }

/-- A continue call stores to its own session only. -/
theorem continue_stores {c c' : BatchContract} {sender sessionId : ℕ}
    {proof publicInputs gensData : List UInt8}
    (h : continueDAGBatchVerify c sender sessionId proof publicInputs gensData = .ok c') :
    checkSession (c.sessions sessionId) sender = .ok () ∧
      (c.sessions sessionId).nextBatchIdx < (c.sessions sessionId).totalBatches ∧
      ∃ s crossData, c' = c.store sessionId (continuedSession (c.sessions sessionId) s) crossData := by
  simp only [continueDAGBatchVerify, bind_eq_ok, pure_eq_ok, require_eq_ok, decide_eq_true_eq] at h
  obtain ⟨_, -, _, hsession, _, hnext, _, -, _, -, _, -, _, -, _, -, _, -, rfl⟩ := h
  exact ⟨hsession, hnext, _, _, rfl⟩

/-- The session that a finalize call stores. -/
def finalizedSession (session : DAGBatchSession) (f : FinalizeStepCtx) (s : Sponge) :
    DAGBatchSession :=
  { session with finalizeInputIdx := f.inputIdx, finalizeGroupsDone := f.groupsDone, sponge := s,
                 finalized := f.done }

theorem finalizeDAGBatchVerify_eq_ok {c : BatchContract} {sender sessionId : ℕ}
    {proof publicInputs gensData : List UInt8} {out : Bool × BatchContract} :
    finalizeDAGBatchVerify c sender sessionId proof publicInputs gensData = .ok out ↔
      c.paused = false ∧ checkSession (c.sessions sessionId) sender = .ok () ∧
      (c.sessions sessionId).totalBatches ≤ (c.sessions sessionId).nextBatchIdx ∧
      checkProofFormat proof = .ok () ∧
      ∃ decoded gens allBindings f s,
        decodeProofForDag (calldataReader (proof.drop 4)) = .ok decoded ∧
        decodePedersenGens (calldataReader gensData) = .ok gens ∧
        reconstructBindings (c.crossBatch sessionId) (c.sessions sessionId).numComputeLayers =
          .ok allBindings ∧
        executeFinalizeStep decoded
          (storedDescription c.toContract (c.sessions sessionId).circuitHash) gens allBindings
          (c.sessions sessionId) = .ok (f, s) ∧
        out = (f.done, c.store sessionId (finalizedSession (c.sessions sessionId) f s)
          (c.crossBatch sessionId)) := by
  simp only [finalizeDAGBatchVerify, bind_eq_ok, pure_eq_ok, require_eq_ok, liftDecode_eq_ok,
    liftVerifier_eq_ok, Bool.not_eq_true', decide_eq_true_eq]
  constructor
  · rintro ⟨_, hpaused, _, hsession, _, hdone, _, hformat, decoded, hdecoded, gens, hgens, allBindings,
      hbindings, ⟨f, s⟩, hstep, rfl⟩
    exact ⟨hpaused, hsession, hdone, hformat, decoded, gens, allBindings, f, s, hdecoded, hgens,
      hbindings, hstep, rfl⟩
  · rintro ⟨hpaused, hsession, hdone, hformat, decoded, gens, allBindings, f, s, hdecoded, hgens,
      hbindings, hstep, rfl⟩
    exact ⟨(), hpaused, (), hsession, (), hdone, (), hformat, decoded, hdecoded, gens, hgens,
      allBindings, hbindings, (f, s), hstep, rfl⟩

/-- A finalize call stores to its own session only. -/
theorem finalize_stores {c c' : BatchContract} {sender sessionId : ℕ}
    {proof publicInputs gensData : List UInt8} {done : Bool}
    (h : finalizeDAGBatchVerify c sender sessionId proof publicInputs gensData = .ok (done, c')) :
    checkSession (c.sessions sessionId) sender = .ok () ∧
      (c.sessions sessionId).totalBatches ≤ (c.sessions sessionId).nextBatchIdx ∧
      ∃ f s, c' = c.store sessionId (finalizedSession (c.sessions sessionId) f s)
        (c.crossBatch sessionId) := by
  obtain ⟨-, hsession, hdone, -, _, _, _, f, s, -, -, -, -, hout⟩ :=
    finalizeDAGBatchVerify_eq_ok.mp h
  exact ⟨hsession, hdone, f, s, (Prod.mk.inj hout).2⟩

/-! ## The invariant -/

/-- The open session follows the one-transaction run of the arguments `d`: it holds the bindings of
the layers in the batches done so far and a place at which the input phase can resume, and what is
left from there decides whether `verifyDAGProof` accepts. -/
structure Tracks (c : BatchContract) (sender sessionId : ℕ) (d : Calldata)
    (config : DAGCircuitConfig) (proof : DecodedProof) (bindings : List (List ℕ))
    (outputChallenges : List ℕ) : Prop where
  unpaused : c.paused = false
  circuit : c.dagCircuits d.circuitHash = some config
  format : checkProofFormat d.proof = .ok ()
  generators : checkGenerators config d.gensData = .ok ()
  decoded : decodeProofForDag (calldataReader (d.proof.drop 4)) = .ok proof
  hash : (c.sessions sessionId).circuitHash = d.circuitHash
  verifier : (c.sessions sessionId).verifier = sender
  layers : (c.sessions sessionId).numComputeLayers = config.description.numComputeLayers
  batches : (c.sessions sessionId).totalBatches =
    computeNumComputeBatches config.description.numComputeLayers
  unfinished : (c.sessions sessionId).finalized = false
  stored : c.crossBatch sessionId = storedBindings bindings outputChallenges
  filled : bindings.length = min ((c.sessions sessionId).nextBatchIdx * LAYERS_PER_BATCH)
    config.description.numComputeLayers
  next_le : (c.sessions sessionId).nextBatchIdx ≤ (c.sessions sessionId).totalBatches
  place : Resumable config.description (c.sessions sessionId).finalizeInputIdx
    (c.sessions sessionId).finalizeGroupsDone
  accepted :
    verifyDAGProof c.toContract d.proof d.circuitHash d.publicInputs d.gensData = .ok true ↔
      LayersAccepted d config.description proof bindings outputChallenges (c.sessions sessionId)

private theorem setupDone_unique {c : Contract} {d : Calldata} {config config' : DAGCircuitConfig}
    {proof proof' : DecodedProof} {ctx ctx' : VerifyContext} {s s' : Sponge}
    (h : SetupDone c d config proof ctx s) (h' : SetupDone c d config' proof' ctx' s') :
    config = config' ∧ proof = proof' ∧ ctx = ctx' ∧ s = s' := by
  obtain rfl := Except.ok.inj (h.circuit.symm.trans h'.circuit)
  obtain rfl := Except.ok.inj (h.decoded.symm.trans h'.decoded)
  obtain ⟨rfl, rfl⟩ := Prod.mk.inj (Except.ok.inj (h.output.symm.trans h'.output))
  exact ⟨rfl, rfl, rfl, rfl⟩

/-- A started session tracks its arguments. -/
theorem tracks_start {c : BatchContract} {sender sessionId : ℕ} {d : Calldata}
    {config : DAGCircuitConfig} {proof : DecodedProof} {ctx : VerifyContext} {s : Sponge}
    (h : SetupDone c.toContract d config proof ctx s) :
    Tracks (c.store sessionId (startSession d sender config ctx s) ⟨[], [0], ctx.outputChallenges⟩)
      sender sessionId d config proof [] ctx.outputChallenges := by
  have hcircuit := (activeCircuit_eq_ok.mp h.circuit).1
  have haccepted : verifyDAGProof c.toContract d.proof d.circuitHash d.publicInputs d.gensData =
      .ok true ↔ LayersAccepted d config.description proof [] ctx.outputChallenges
        (startSession d sender config ctx s) := by
    rw [verifyDAGProof_eq_true]
    constructor
    · rintro ⟨config', proof', ctx', s', h', hlayers⟩
      obtain ⟨rfl, rfl, rfl, rfl⟩ := setupDone_unique h h'
      exact hlayers
    · exact fun hlayers => ⟨config, proof, ctx, s, h, hlayers⟩
  constructor <;>
    simp [BatchContract.store, startSession, hcircuit, h.unpaused, h.format, h.generators, h.decoded,
      storedBindings, FlatArrays.offsetsFrom, resumable_start]
  exact haccepted

/-- The invariant reads its own session only. -/
theorem Tracks.frame {c c' : BatchContract} {sender sessionId : ℕ} {d : Calldata}
    {config : DAGCircuitConfig} {proof : DecodedProof} {bindings : List (List ℕ)}
    {outputChallenges : List ℕ}
    (h : Tracks c sender sessionId d config proof bindings outputChallenges)
    (hcontract : c'.toContract = c.toContract)
    (hsession : c'.sessions sessionId = c.sessions sessionId)
    (hcross : c'.crossBatch sessionId = c.crossBatch sessionId) :
    Tracks c' sender sessionId d config proof bindings outputChallenges := by
  refine ⟨?_, ?_, h.format, h.generators, h.decoded, ?_, ?_, ?_, ?_, ?_, ?_, ?_, ?_, ?_, ?_⟩ <;>
    simp only [hcontract, hsession, hcross]
  exacts [h.unpaused, h.circuit, h.hash, h.verifier, h.layers, h.batches, h.unfinished, h.stored,
    h.filled, h.next_le, h.place, h.accepted]

/-- A started session has all its batches to go. -/
private theorem nextBatchIdx_store_start (c : BatchContract) {sender sessionId : ℕ} {d : Calldata}
    {config : DAGCircuitConfig} {ctx : VerifyContext} {s : Sponge} {crossData : CrossBatchData} :
    ((c.store sessionId (startSession d sender config ctx s) crossData).sessions
        sessionId).nextBatchIdx +
      ((c.store sessionId (startSession d sender config ctx s) crossData).sessions
        sessionId).totalBatches =
      ((c.store sessionId (startSession d sender config ctx s) crossData).sessions
        sessionId).totalBatches := by
  simp only [BatchContract.store, startSession, Function.update_self, zero_add]

section Steps

variable {c : BatchContract} {sender sessionId : ℕ} {d : Calldata} {config : DAGCircuitConfig}
variable {proof : DecodedProof} {bindings : List (List ℕ)} {outputChallenges : List ℕ}

private theorem Tracks.storedDescription_eq
    (h : Tracks c sender sessionId d config proof bindings outputChallenges) :
    storedDescription c.toContract (c.sessions sessionId).circuitHash = config.description := by
  rw [h.hash, storedDescription, h.circuit]

private theorem Tracks.checkSession_eq_ok
    (h : Tracks c sender sessionId d config proof bindings outputChallenges) :
    checkSession (c.sessions sessionId) sender = .ok () := by
  have hhash : (c.sessions sessionId).circuitHash ≠ 0 := by
    rw [h.hash]
    exact circuitHash_ne_zero h.circuit
  simp [checkSession, bind_eq_ok, hhash, h.verifier, h.unfinished]

/-- The layers of the next batch. -/
private theorem Tracks.batchLayerRange_eq
    (h : Tracks c sender sessionId d config proof bindings outputChallenges)
    (hnext : (c.sessions sessionId).nextBatchIdx < (c.sessions sessionId).totalBatches) :
    batchLayerRange (c.sessions sessionId).nextBatchIdx (c.sessions sessionId).numComputeLayers =
        (bindings.length, min (((c.sessions sessionId).nextBatchIdx + 1) * LAYERS_PER_BATCH)
          config.description.numComputeLayers) ∧
      bindings.length < config.description.numComputeLayers := by
  have hfilled := h.filled
  rw [h.batches] at hnext
  have hlt := mul_lt_of_lt_computeNumComputeBatches hnext
  rw [Nat.min_eq_left hlt.le] at hfilled
  rw [BatchSessions.batchLayerRange_eq, h.layers, hfilled]
  exact ⟨rfl, hlt⟩

/-- How many layers the next batch has. -/
private def batchSize (config : DAGCircuitConfig) (session : DAGBatchSession)
    (bindings : List (List ℕ)) : ℕ :=
  min ((session.nextBatchIdx + 1) * LAYERS_PER_BATCH) config.description.numComputeLayers -
    bindings.length

/-- A continue call on a tracked session runs the next stretch of the layer loop. -/
theorem Tracks.continue_eq_ok
    (h : Tracks c sender sessionId d config proof bindings outputChallenges)
    (hnext : (c.sessions sessionId).nextBatchIdx < (c.sessions sessionId).totalBatches)
    {c' : BatchContract} :
    continueDAGBatchVerify c sender sessionId d.proof d.publicInputs d.gensData = .ok c' ↔
      ∃ gens runs ctx s, decodePedersenGens (calldataReader d.gensData) = .ok gens ∧
        processLayers solBackend proof.gkrProof config.description gens
          (List.range' bindings.length (batchSize config (c.sessions sessionId) bindings))
          ⟨bindings, outputChallenges, (c.sessions sessionId).outputEval⟩
          (c.sessions sessionId).sponge = .ok (runs, ctx, s) ∧
        c' = c.store sessionId (continuedSession (c.sessions sessionId) s)
          (storedBindings ctx.allBindings outputChallenges) := by
  obtain ⟨hrange, hlt⟩ := h.batchLayerRange_eq hnext
  have hbindings : reconstructBindings (storedBindings bindings outputChallenges)
      (c.sessions sessionId).numComputeLayers = .ok (bindings ++
        List.replicate (config.description.numComputeLayers - bindings.length) []) := by
    rw [h.layers]
    exact reconstructBindings_stored hlt.le
  have hsections := (decodeProofForDag_eq_ok.mp h.decoded).2
  have hslots : batchSize config (c.sessions sessionId) bindings ≤
      (List.replicate (config.description.numComputeLayers - bindings.length)
        ([] : List ℕ)).length := by
    rw [List.length_replicate, batchSize]
    omega
  -- the batch ends where its last layer has filled its slot
  have hupdate : ∀ {gens runs ctx s}, processLayers solBackend proof.gkrProof config.description
      gens (List.range' bindings.length (batchSize config (c.sessions sessionId) bindings))
      ⟨bindings, outputChallenges, (c.sessions sessionId).outputEval⟩
      (c.sessions sessionId).sponge = .ok (runs, ctx, s) → ∀ rest : List (List ℕ),
      (ctx.allBindings ++ rest).take (min (((c.sessions sessionId).nextBatchIdx + 1) *
        LAYERS_PER_BATCH) config.description.numComputeLayers) = ctx.allBindings := by
    intro gens runs ctx s hlayers rest
    have hlen := length_processLayers solBackend hlayers
    have hctx := processLayers_ctx solBackend hlayers
    have hfilled := h.filled
    rw [List.take_left']
    simp only at hctx hlen
    rw [hctx, List.length_append, List.length_map, hlen, List.length_range', batchSize]
    rw [Nat.add_mul]
    omega
  simp only [continueDAGBatchVerify, h.unpaused, Bool.not_false, require_true, ok_bind,
    h.checkSession_eq_ok, decide_eq_true hnext, h.format, h.stored, storedBindings_outputChallenges,
    hbindings, hrange,
    h.storedDescription_eq, hsections, liftDecode_ok, liftVerifier_ok]
  simp only [bind_eq_ok, require_eq_ok, liftDecode_eq_ok, liftVerifier_eq_ok, pure_eq_ok,
    decide_eq_true_eq]
  constructor
  · rintro ⟨gens, hgens, ⟨allBindings, s⟩, hbatch, _, -, rfl⟩
    obtain ⟨runs, ctx, hlayers, hout⟩ := (verifyComputeLayersBatch_eq_ok hslots).mp hbatch
    simp only at hout
    refine ⟨gens, runs, ctx, s, hgens, hlayers, ?_⟩
    rw [updateBindings, hout, hupdate hlayers]
    rfl
  · rintro ⟨gens, runs, ctx, s, hgens, hlayers, rfl⟩
    refine ⟨gens, hgens, (_, s), (verifyComputeLayersBatch_eq_ok hslots).mpr ⟨runs, ctx, hlayers, rfl⟩, (), ?_, ?_⟩
    · have hfilled := h.filled
      rw [Nat.add_mul]
      omega
    · simp only [updateBindings, hupdate hlayers, continuedSession, storedBindings_outputChallenges]

/-- The layers of the next batch and those after it are the layers that are left. -/
theorem layersAccepted_append {session : DAGBatchSession} {desc : DAGCircuitDescription} {len : ℕ}
    (hlen : bindings.length + len ≤ desc.numComputeLayers) :
    LayersAccepted d desc proof bindings outputChallenges session ↔
      ∃ gens runs ctx s, decodePedersenGens (calldataReader d.gensData) = .ok gens ∧
        processLayers solBackend proof.gkrProof desc gens (List.range' bindings.length len)
          ⟨bindings, outputChallenges, session.outputEval⟩ session.sponge = .ok (runs, ctx, s) ∧
        LayersAccepted d desc proof ctx.allBindings outputChallenges
          (continuedSession session s) := by
  have hsplit : List.range' bindings.length (desc.numComputeLayers - bindings.length) =
      List.range' bindings.length len ++
        List.range' (bindings.length + len) (desc.numComputeLayers - (bindings.length + len)) := by
    rw [List.range'_append_1]
    congr 1
    omega
  have hctx : ∀ {gens runs ctx s}, processLayers solBackend proof.gkrProof desc gens
      (List.range' bindings.length len) ⟨bindings, outputChallenges, session.outputEval⟩
      session.sponge = .ok (runs, ctx, s) → ctx.allBindings.length = bindings.length + len ∧
        ctx = ⟨ctx.allBindings, outputChallenges, session.outputEval⟩ := by
    intro gens runs ctx s hlayers
    have hruns := length_processLayers solBackend hlayers
    have hctx := processLayers_ctx solBackend hlayers
    simp only [List.length_range'] at hruns hctx
    rw [hctx]
    exact ⟨by simp [hruns], rfl⟩
  simp only [LayersAccepted, hsplit, processLayers_append, continuedSession]
  constructor
  · rintro ⟨gens, _, ctx, s, hgens, ⟨runs, ctx₁, s₁, runs', hfirst, hrest, -⟩, hinputs⟩
    obtain ⟨hfilled, heq⟩ := hctx hfirst
    refine ⟨gens, runs, ctx₁, s₁, hgens, hfirst, gens, runs', ctx, s, hgens, ?_, hinputs⟩
    rw [hfilled, ← heq]
    exact hrest
  · rintro ⟨gens, runs, ctx₁, s₁, hgens, hfirst, gens', runs', ctx, s, hgens', hrest, hinputs⟩
    obtain ⟨hfilled, heq⟩ := hctx hfirst
    obtain rfl := Except.ok.inj (hgens.symm.trans hgens')
    rw [hfilled, ← heq] at hrest
    exact ⟨gens, _, ctx, s, hgens, ⟨runs, ctx₁, s₁, runs', hfirst, hrest, rfl⟩, hinputs⟩

/-- A continue call keeps the invariant, with the bindings of one more batch. -/
theorem Tracks.continue
    (h : Tracks c sender sessionId d config proof bindings outputChallenges)
    (hnext : (c.sessions sessionId).nextBatchIdx < (c.sessions sessionId).totalBatches)
    {gens : PedersenGens} {runs : List LayerRun} {ctx : VerifyContext} {s : Sponge}
    (hgens : decodePedersenGens (calldataReader d.gensData) = .ok gens)
    (hlayers : processLayers solBackend proof.gkrProof config.description gens
      (List.range' bindings.length (batchSize config (c.sessions sessionId) bindings))
      ⟨bindings, outputChallenges, (c.sessions sessionId).outputEval⟩
      (c.sessions sessionId).sponge = .ok (runs, ctx, s)) :
    Tracks (c.store sessionId (continuedSession (c.sessions sessionId) s)
        (storedBindings ctx.allBindings outputChallenges))
      sender sessionId d config proof ctx.allBindings outputChallenges := by
  obtain ⟨hrange, hlt⟩ := h.batchLayerRange_eq hnext
  have hfilled := h.filled
  have hruns := length_processLayers solBackend hlayers
  have hctx := processLayers_ctx solBackend hlayers
  simp only [List.length_range'] at hruns hctx
  have hlen : ctx.allBindings.length = min (((c.sessions sessionId).nextBatchIdx + 1) *
      LAYERS_PER_BATCH) config.description.numComputeLayers := by
    rw [hctx, List.length_append, List.length_map, hruns, batchSize, Nat.add_mul]
    omega
  have hsplit : bindings.length + batchSize config (c.sessions sessionId) bindings ≤
      config.description.numComputeLayers := by
    unfold batchSize
    omega
  -- the layers of this batch leave the acceptance of the rest as it was
  have haccepted : verifyDAGProof c.toContract d.proof d.circuitHash d.publicInputs d.gensData =
      .ok true ↔ LayersAccepted d config.description proof ctx.allBindings outputChallenges
        (continuedSession (c.sessions sessionId) s) := by
    rw [h.accepted, layersAccepted_append hsplit]
    constructor
    · rintro ⟨gens', runs', ctx', s', hgens', hlayers', hrest⟩
      obtain rfl := Except.ok.inj (hgens.symm.trans hgens')
      obtain ⟨-, hout⟩ := Prod.mk.inj (Except.ok.inj (hlayers.symm.trans hlayers'))
      obtain ⟨rfl, rfl⟩ := Prod.mk.inj hout
      exact hrest
    · exact fun hrest => ⟨gens, runs, ctx, s, hgens, hlayers, hrest⟩
  refine ⟨h.unpaused, h.circuit, h.format, h.generators, h.decoded, ?_, ?_, ?_, ?_, ?_, ?_, ?_, ?_,
    ?_, ?_⟩ <;>
    simp only [store_toContract, store_sessions_self, store_crossBatch_self]
  · exact h.hash
  · exact h.verifier
  · exact h.layers
  · exact h.batches
  · exact h.unfinished
  · exact hlen
  · exact hnext
  · exact h.place
  · exact haccepted

/-- While `verifyDAGProof` accepts, a continue call does not revert. -/
theorem Tracks.exists_continue
    (h : Tracks c sender sessionId d config proof bindings outputChallenges)
    (hnext : (c.sessions sessionId).nextBatchIdx < (c.sessions sessionId).totalBatches)
    (hverify : verifyDAGProof c.toContract d.proof d.circuitHash d.publicInputs d.gensData =
      .ok true) :
    ∃ c', continueDAGBatchVerify c sender sessionId d.proof d.publicInputs d.gensData = .ok c' := by
  obtain ⟨hrange, hlt⟩ := h.batchLayerRange_eq hnext
  have hsplit : bindings.length + batchSize config (c.sessions sessionId) bindings ≤
      config.description.numComputeLayers := by
    unfold batchSize
    omega
  obtain ⟨gens, runs, ctx, s, hgens, hlayers, -⟩ :=
    (layersAccepted_append hsplit).mp (h.accepted.mp hverify)
  exact ⟨_, (h.continue_eq_ok hnext).mpr ⟨gens, runs, ctx, s, hgens, hlayers, rfl⟩⟩

/-- Once the batches are done, only the input phase is left. -/
private theorem Tracks.accepted_inputs
    (h : Tracks c sender sessionId d config proof bindings outputChallenges)
    (hdone : (c.sessions sessionId).totalBatches ≤ (c.sessions sessionId).nextBatchIdx) :
    bindings.length = config.description.numComputeLayers ∧
      (verifyDAGProof c.toContract d.proof d.circuitHash d.publicInputs d.gensData = .ok true ↔
        ∃ gens, decodePedersenGens (calldataReader d.gensData) = .ok gens ∧
          FinalizeAccepted proof config.description gens bindings
            (c.sessions sessionId).finalizeInputIdx (c.sessions sessionId).finalizeGroupsDone
            (c.sessions sessionId).sponge) := by
  have hfilled := h.filled
  rw [h.batches] at hdone
  unfold computeNumComputeBatches LAYERS_PER_BATCH at hdone
  unfold LAYERS_PER_BATCH at hfilled
  have hall : bindings.length = config.description.numComputeLayers := by omega
  refine ⟨hall, h.accepted.trans ?_⟩
  simp only [LayersAccepted, hall, Nat.sub_self, List.range'_zero, processLayers_nil]
  constructor
  · rintro ⟨gens, runs, ctx, s, hgens, hout, hinputs⟩
    obtain ⟨-, rfl, rfl⟩ : runs = [] ∧ ctx = _ ∧ s = _ := by simpa using hout
    exact ⟨gens, hgens, hinputs⟩
  · rintro ⟨gens, hgens, hinputs⟩
    exact ⟨gens, [], _, _, hgens, rfl, hinputs⟩

/-- A finalize call on a tracked session runs one finalize step on the stored bindings. -/
private theorem Tracks.finalize_eq_ok
    (h : Tracks c sender sessionId d config proof bindings outputChallenges)
    (hdone : (c.sessions sessionId).totalBatches ≤ (c.sessions sessionId).nextBatchIdx)
    {out : Bool × BatchContract} :
    finalizeDAGBatchVerify c sender sessionId d.proof d.publicInputs d.gensData = .ok out ↔
      ∃ gens f s, decodePedersenGens (calldataReader d.gensData) = .ok gens ∧
        executeFinalizeStep proof config.description gens bindings (c.sessions sessionId) =
          .ok (f, s) ∧
        out = (f.done, c.store sessionId (finalizedSession (c.sessions sessionId) f s)
          (c.crossBatch sessionId)) := by
  have hall := (h.accepted_inputs hdone).1
  have hbindings : reconstructBindings (c.crossBatch sessionId)
      (c.sessions sessionId).numComputeLayers = .ok bindings := by
    rw [h.stored, h.layers, reconstructBindings_stored hall.le, hall, Nat.sub_self,
      List.replicate_zero, List.append_nil]
  rw [finalizeDAGBatchVerify_eq_ok]
  simp only [h.unpaused, h.checkSession_eq_ok, hdone, h.format, true_and, h.decoded, hbindings,
    h.storedDescription_eq, Except.ok.injEq]
  constructor
  · rintro ⟨_, gens, _, f, s, rfl, hgens, rfl, hstep, hout⟩
    exact ⟨gens, f, s, hgens, hstep, hout⟩
  · rintro ⟨gens, f, s, hgens, hstep, hout⟩
    exact ⟨proof, gens, bindings, f, s, rfl, hgens, rfl, hstep, hout⟩

/-- A finalize call that finishes has decided `verifyDAGProof`; one that does not finish keeps the
invariant and comes closer to the end. -/
theorem Tracks.finalize
    (h : Tracks c sender sessionId d config proof bindings outputChallenges)
    (hagree : CursorsAgree config.description)
    (hdone : (c.sessions sessionId).totalBatches ≤ (c.sessions sessionId).nextBatchIdx)
    {done : Bool} {c' : BatchContract}
    (hc' : finalizeDAGBatchVerify c sender sessionId d.proof d.publicInputs d.gensData =
      .ok (done, c')) :
    (c'.sessions sessionId).finalized = done ∧
    (done = true →
      verifyDAGProof c.toContract d.proof d.circuitHash d.publicInputs d.gensData = .ok true) ∧
    (done = false → Tracks c' sender sessionId d config proof bindings outputChallenges ∧
      (c'.sessions sessionId).totalBatches ≤ (c'.sessions sessionId).nextBatchIdx ∧
      finalizeMeasure config.description (c'.sessions sessionId).finalizeInputIdx
          (c'.sessions sessionId).finalizeGroupsDone <
        finalizeMeasure config.description (c.sessions sessionId).finalizeInputIdx
          (c.sessions sessionId).finalizeGroupsDone) := by
  obtain ⟨gens, f, s, hgens, hstep, hout⟩ := (h.finalize_eq_ok hdone).mp hc'
  obtain ⟨rfl, rfl⟩ := Prod.mk.inj hout
  -- what was left before the call, in terms of what is left after it
  have haccepted : verifyDAGProof c.toContract d.proof d.circuitHash d.publicInputs d.gensData =
      .ok true ↔ (f.done = false → FinalizeAccepted proof config.description gens bindings
        f.inputIdx f.groupsDone s) := by
    rw [(h.accepted_inputs hdone).2]
    constructor
    · rintro ⟨gens', hgens', hinputs⟩
      obtain rfl := Except.ok.inj (hgens.symm.trans hgens')
      obtain ⟨f', s', hstep', hlater⟩ := (executeFinalizeStep_iff hagree h.place).mp hinputs
      obtain ⟨rfl, rfl⟩ := Prod.mk.inj (Except.ok.inj (hstep.symm.trans hstep'))
      exact hlater
    · exact fun hlater =>
        ⟨gens, hgens, (executeFinalizeStep_iff hagree h.place).mpr ⟨f, s, hstep, hlater⟩⟩
  refine ⟨by simp only [store_sessions_self, finalizedSession], ?_, ?_⟩
  · intro hfdone
    exact haccepted.mpr fun hnot => absurd hfdone (by simp [hnot])
  · intro hfdone
    obtain ⟨f₀, hinput, hgroups, hstop⟩ :=
      stoppedAt_of_executeFinalizeStep hagree h.place hstep hfdone
    have hmeasure := hstop.measure_lt
    rw [hinput, hgroups] at hmeasure
    have hall := (h.accepted_inputs hdone).1
    refine ⟨⟨h.unpaused, h.circuit, h.format, h.generators, h.decoded, ?_, ?_, ?_, ?_, ?_, ?_, ?_, ?_,
      ?_, ?_⟩, ?_, ?_⟩ <;>
      simp only [store_toContract, store_sessions_self, store_crossBatch_self, finalizedSession]
    · exact h.hash
    · exact h.verifier
    · exact h.layers
    · exact h.batches
    · exact hfdone
    · exact h.stored
    · exact h.filled
    · exact h.next_le
    · exact hstop.resumable
    · refine haccepted.trans ?_
      simp only [hfdone, forall_const, LayersAccepted, hall, Nat.sub_self, List.range'_zero,
        processLayers_nil]
      constructor
      · exact fun hinputs => ⟨gens, [], _, _, hgens, rfl, hinputs⟩
      · rintro ⟨gens', runs, ctx, s', hgens', hout, hinputs⟩
        obtain rfl := Except.ok.inj (hgens.symm.trans hgens')
        obtain ⟨-, rfl, rfl⟩ : runs = [] ∧ ctx = _ ∧ s' = _ := by simpa using hout
        exact hinputs
    · exact hdone
    · exact hmeasure

/-- While `verifyDAGProof` accepts, a finalize call does not revert. -/
theorem Tracks.exists_finalize
    (h : Tracks c sender sessionId d config proof bindings outputChallenges)
    (hagree : CursorsAgree config.description)
    (hdone : (c.sessions sessionId).totalBatches ≤ (c.sessions sessionId).nextBatchIdx)
    (hverify : verifyDAGProof c.toContract d.proof d.circuitHash d.publicInputs d.gensData =
      .ok true) :
    ∃ out, finalizeDAGBatchVerify c sender sessionId d.proof d.publicInputs d.gensData =
      .ok out := by
  obtain ⟨gens, hgens, hinputs⟩ := (h.accepted_inputs hdone).2.mp hverify
  obtain ⟨f, s, hstep, -⟩ := (executeFinalizeStep_iff hagree h.place).mp hinputs
  exact ⟨_, (h.finalize_eq_ok hdone).mpr ⟨gens, f, s, hgens, hstep, rfl⟩⟩

end Steps

/-! ## A session driven to its end -/

/-- The next `n` continue calls of a session. -/
def continueAll (sender sessionId : ℕ) (d : Calldata) : ℕ → BatchContract → Call BatchContract
  | 0, c => pure c
  | n + 1, c => do
    let c ← continueDAGBatchVerify c sender sessionId d.proof d.publicInputs d.gensData
    continueAll sender sessionId d n c

/-- Finalize calls until one reports that the session is done, at most `n` of them. -/
def finalizeAll (sender sessionId : ℕ) (d : Calldata) : ℕ → BatchContract → Call BatchContract
  | 0, c => pure c
  | n + 1, c => do
    let (done, c) ← finalizeDAGBatchVerify c sender sessionId d.proof d.publicInputs d.gensData
    if done then pure c else finalizeAll sender sessionId d n c

/-- A whole session on one set of arguments, with at most `n` finalize calls. Returns whether the
session ends finalized. -/
def batchVerify (c : BatchContract) (sender blockNum : ℕ) (d : Calldata) (n : ℕ) : Call Bool := do
  let (sessionId, c) ←
    startDAGBatchVerify c sender blockNum d.proof d.circuitHash d.publicInputs d.gensData
  let c ← continueAll sender sessionId d (c.sessions sessionId).totalBatches c
  let c ← finalizeAll sender sessionId d n c
  pure (c.sessions sessionId).finalized

section Runs

variable {sender sessionId : ℕ} {d : Calldata} {config : DAGCircuitConfig} {proof : DecodedProof}
variable {outputChallenges : List ℕ}

/-- The continue calls complete the batches. -/
private theorem continueAll_tracks {n : ℕ} {c c' : BatchContract} {bindings : List (List ℕ)}
    (h : Tracks c sender sessionId d config proof bindings outputChallenges)
    (hn : (c.sessions sessionId).nextBatchIdx + n = (c.sessions sessionId).totalBatches)
    (hc' : continueAll sender sessionId d n c = .ok c') :
    c'.toContract = c.toContract ∧
    (∃ bindings', Tracks c' sender sessionId d config proof bindings' outputChallenges) ∧
      (c'.sessions sessionId).totalBatches ≤ (c'.sessions sessionId).nextBatchIdx := by
  induction n generalizing c bindings with
  | zero =>
    rw [continueAll, pure_eq_ok] at hc'
    subst hc'
    exact ⟨rfl, ⟨bindings, h⟩, by omega⟩
  | succ n ih =>
    rw [continueAll, bind_eq_ok] at hc'
    obtain ⟨c₁, hc₁, hrest⟩ := hc'
    have hnext : (c.sessions sessionId).nextBatchIdx < (c.sessions sessionId).totalBatches := by
      omega
    obtain ⟨gens, runs, ctx, s, hgens, hlayers, rfl⟩ := (h.continue_eq_ok hnext).mp hc₁
    have hall := ih (h.continue hnext hgens hlayers)
      (by simp only [store_sessions_self, continuedSession]; omega) hrest
    exact hall

private theorem exists_continueAll {n : ℕ} {c : BatchContract} {bindings : List (List ℕ)}
    (h : Tracks c sender sessionId d config proof bindings outputChallenges)
    (hn : (c.sessions sessionId).nextBatchIdx + n = (c.sessions sessionId).totalBatches)
    (hverify : verifyDAGProof c.toContract d.proof d.circuitHash d.publicInputs d.gensData =
      .ok true) :
    ∃ c', continueAll sender sessionId d n c = .ok c' := by
  induction n generalizing c bindings with
  | zero => exact ⟨c, rfl⟩
  | succ n ih =>
    have hnext : (c.sessions sessionId).nextBatchIdx < (c.sessions sessionId).totalBatches := by
      omega
    obtain ⟨c₁, hc₁⟩ := h.exists_continue hnext hverify
    obtain ⟨gens, runs, ctx, s, hgens, hlayers, rfl⟩ := (h.continue_eq_ok hnext).mp hc₁
    obtain ⟨c', hc'⟩ := ih (h.continue hnext hgens hlayers)
      (by simp only [store_sessions_self, continuedSession]; omega) hverify
    exact ⟨c', by rw [continueAll, hc₁, ok_bind, hc']⟩

/-- A session that ends finalized was accepted. -/
private theorem verify_of_finalizeAll (hagree : CursorsAgree config.description) {n : ℕ}
    {c c' : BatchContract} {bindings : List (List ℕ)}
    (h : Tracks c sender sessionId d config proof bindings outputChallenges)
    (hdone : (c.sessions sessionId).totalBatches ≤ (c.sessions sessionId).nextBatchIdx)
    (hc' : finalizeAll sender sessionId d n c = .ok c')
    (hfinal : (c'.sessions sessionId).finalized = true) :
    verifyDAGProof c.toContract d.proof d.circuitHash d.publicInputs d.gensData = .ok true := by
  induction n generalizing c with
  | zero =>
    rw [finalizeAll, pure_eq_ok] at hc'
    subst hc'
    exact absurd hfinal (by simp [h.unfinished])
  | succ n ih =>
    rw [finalizeAll, bind_eq_ok] at hc'
    obtain ⟨⟨done, c₁⟩, hc₁, hrest⟩ := hc'
    obtain ⟨-, haccepts, hcontinues⟩ := h.finalize hagree hdone hc₁
    cases done with
    | true => exact haccepts rfl
    | false =>
      obtain ⟨h₁, hdone₁, -⟩ := hcontinues rfl
      have hcontract : c₁.toContract = c.toContract := by
        obtain ⟨-, -, _, _, rfl⟩ := finalize_stores hc₁
        rfl
      rw [← hcontract]
      exact ih h₁ hdone₁ hrest

/-- An accepted session is finalized after finitely many calls. -/
private theorem exists_finalizeAll (hagree : CursorsAgree config.description)
    {c : BatchContract} {bindings : List (List ℕ)}
    (h : Tracks c sender sessionId d config proof bindings outputChallenges)
    (hdone : (c.sessions sessionId).totalBatches ≤ (c.sessions sessionId).nextBatchIdx)
    (hverify : verifyDAGProof c.toContract d.proof d.circuitHash d.publicInputs d.gensData =
      .ok true) :
    ∃ n c', finalizeAll sender sessionId d n c = .ok c' ∧
      (c'.sessions sessionId).finalized = true := by
  -- on the measure that every unfinished call lowers
  induction hm : finalizeMeasure config.description (c.sessions sessionId).finalizeInputIdx
    (c.sessions sessionId).finalizeGroupsDone using Nat.strong_induction_on generalizing c with
  | _ m ih =>
    obtain ⟨⟨done, c₁⟩, hc₁⟩ := h.exists_finalize hagree hdone hverify
    obtain ⟨hfinal, -, hcontinues⟩ := h.finalize hagree hdone hc₁
    cases done with
    | true =>
      refine ⟨1, c₁, ?_, hfinal⟩
      rw [finalizeAll, hc₁]
      rfl
    | false =>
      obtain ⟨h₁, hdone₁, hlt⟩ := hcontinues rfl
      have hcontract : c₁.toContract = c.toContract := by
        obtain ⟨-, -, _, _, rfl⟩ := finalize_stores hc₁
        rfl
      obtain ⟨n, c', hc', hfinal'⟩ := ih _ (hm ▸ hlt) h₁ hdone₁ (hcontract ▸ hverify) rfl
      refine ⟨n + 1, c', ?_, hfinal'⟩
      rw [finalizeAll, hc₁]
      exact hc'

end Runs

/-- Batch verification ends finalized exactly when the one-transaction verifier accepts, on every
circuit whose cursors agree. -/
theorem batchVerify_iff_verifyDAGProof {c : BatchContract} {sender blockNum : ℕ} {d : Calldata}
    (hagree : ∀ config, c.dagCircuits d.circuitHash = some config →
      CursorsAgree config.description) :
    (∃ n, batchVerify c sender blockNum d n = .ok true) ↔
      verifyDAGProof c.toContract d.proof d.circuitHash d.publicInputs d.gensData = .ok true := by
  simp only [batchVerify, bind_eq_ok, startDAGBatchVerify_eq_ok, pure_eq_ok]
  constructor
  · rintro ⟨n, _, ⟨config, proof, ctx, s, hsetup, rfl⟩, c₁, hc₁, c₂, hc₂, hfinal⟩
    have htracks := @tracks_start c sender (generateSessionId sender d.circuitHash blockNum) d config
      proof ctx s hsetup
    have hconfig := hagree config htracks.circuit
    obtain ⟨hcontract, ⟨bindings, h₁⟩, hdone⟩ :=
      continueAll_tracks htracks (nextBatchIdx_store_start c) hc₁
    have hverify := verify_of_finalizeAll hconfig h₁ hdone hc₂ hfinal
    rw [hcontract] at hverify
    exact hverify
  · intro hverify
    obtain ⟨config, proof, ctx, s, hsetup, -⟩ := (@verifyDAGProof_eq_true _ sender _).mp hverify
    have htracks := @tracks_start c sender (generateSessionId sender d.circuitHash blockNum) d config
      proof ctx s hsetup
    have hconfig := hagree config htracks.circuit
    obtain ⟨c₁, hc₁⟩ := exists_continueAll htracks (nextBatchIdx_store_start c) hverify
    obtain ⟨hcontract, ⟨bindings, h₁⟩, hdone⟩ :=
      continueAll_tracks htracks (nextBatchIdx_store_start c) hc₁
    obtain ⟨n, c₂, hc₂, hfinal⟩ := exists_finalizeAll hconfig h₁ hdone (hcontract ▸ hverify)
    exact ⟨n, _, ⟨config, proof, ctx, s, hsetup, rfl⟩, c₁, hc₁, c₂, hc₂, hfinal⟩

/-! ## A circuit whose claims need two finalize calls -/

/-- One layer whose atoms claim on a public input, seventeen times on a committed input and on
another public input. The atom range of the layer starts at `first`. -/
def splitDesc (first : ℕ) : DAGCircuitDescription :=
  ⟨1, 3, [0], [0], [first, 19], [1] ++ List.replicate 17 2 ++ [3], List.replicate 19 0,
    List.replicate 20 0, [], [false, true, false], [0, 0], [], []⟩

def splitConfig (first : Fin 2) : DAGCircuitConfig where
  circuitHash := 1
  description := splitDesc first
  active := true
  gensHash := 0
  hash_ne_zero := Nat.one_ne_zero
  hash_lt := one_lt_word
  abi := by revert first; decide
  checked := by revert first; decide

/-- A proof with all its points at infinity and the given number of public value claims. -/
def splitProof (numClaims : ℕ) : DecodedProof :=
  ⟨⟨[G1Point.INFINITY], [⟨⟨G1Point.INFINITY, [], ⟨G1Point.INFINITY, G1Point.INFINITY, [], 0, 0⟩⟩,
      [G1Point.INFINITY], []⟩]⟩, [],
    [⟨[G1Point.INFINITY], List.replicate 17 ⟨G1Point.INFINITY, G1Point.INFINITY, [0], 0, 0⟩,
      List.replicate 17 G1Point.INFINITY⟩],
    List.replicate numClaims ⟨0, 0, G1Point.INFINITY⟩⟩

def splitGens : PedersenGens := ⟨[G1Point.INFINITY], G1Point.INFINITY, G1Point.INFINITY⟩

def splitProofWords (numClaims : ℕ) : List ℕ :=
  [0, 0, 1, 0, 0, 1] ++ List.replicate 10 0 ++ [1, 0, 0, 0, 0, 0, numClaims] ++
    List.replicate (5 * numClaims) 0 ++ [1, 1, 0, 0, 17] ++
    (List.replicate 17 [0, 0, 0, 0, 1, 0, 0, 0, 0, 0]).flatten

def splitCalldata (numClaims : ℕ) : Calldata where
  proof := SELECTOR ++ (splitProofWords numClaims).flatMap wordToBeBytes
  circuitHash := 1
  publicInputs := []
  gensData := [1, 0, 0, 0, 0, 0, 0].flatMap wordToBeBytes

/-- A decoded form of the calldata. -/
private structure SplitDecoded (numClaims : ℕ) : Prop where
  words : (splitProofWords numClaims).all (· < WORD) = true
  decoded : decodeProofForDag (wordsReader (splitProofWords numClaims)) = .ok (splitProof numClaims)

private theorem SplitDecoded.proof_eq {numClaims : ℕ} (h : SplitDecoded numClaims) :
    decodeProofForDag (calldataReader ((splitCalldata numClaims).proof.drop 4)) =
      .ok (splitProof numClaims) := by
  have hdrop : (splitCalldata numClaims).proof.drop 4 =
    (splitProofWords numClaims).flatMap wordToBeBytes := rfl
  rw [hdrop, calldataReader_flatMap_wordToBeBytes h.words, h.decoded]

private theorem decodePedersenGens_split (numClaims : ℕ) :
    decodePedersenGens (calldataReader (splitCalldata numClaims).gensData) = .ok splitGens := by
  have hgens : (splitCalldata numClaims).gensData = [1, 0, 0, 0, 0, 0, 0].flatMap wordToBeBytes :=
    rfl
  rw [hgens, calldataReader_flatMap_wordToBeBytes (by decide)]
  decide

/-- The sponge after the set-up. -/
def splitSponge : Sponge :=
  ⟨9484618645486364085995267765918392121300340820480276748637983145589244682732,
    17319507700172669621726784829894051042005892260004355738342310190590633159890,
    15161208127191276144213792500100064706093532699417496145443100203725863204111, 0⟩

private theorem setupDagTranscript_split (numClaims : ℕ) :
    setupDagTranscript 1 (splitProof numClaims) = splitSponge := by
  have hsetup : setupDagTranscript 1 (splitProof numClaims) =
      absorbPair solOps (absorb solOps (absorb solOps (absorbPair solOps (absorbPair solOps init
        (hashToFqPair (wordToBeBytes 1))) (sha256HashChain [])) 0) 0) (sha256HashChain [0, 0]) :=
    setupTranscript_infinity solOps (wordToBeBytes 1)
  rw [hsetup, sha256HashChain_nil, sha256HashChain_infinity]
  decide +kernel

private theorem verifyDAGProof_split {first : Fin 2} {numClaims : ℕ}
    (hdecoded : SplitDecoded numClaims)
    (hrun : okAnd (verifyPhases (splitProof numClaims) (splitDesc first) splitGens splitSponge)
      (fun _ => true) = true) :
    verifyDAGProof (Contract.single (splitConfig first)) (splitCalldata numClaims).proof 1 []
      (splitCalldata numClaims).gensData = .ok true := by
  obtain ⟨run, hrun, -⟩ := okAnd_eq_true.mp hrun
  refine verifyDAGProof_eq_ok.mpr ⟨rfl, rfl, splitConfig first, splitProof numClaims, splitGens, run,
    activeCircuit_single rfl, checkProofFormat_selector _, rfl, hdecoded.proof_eq,
    decodePedersenGens_split numClaims, ?_⟩
  rw [setupDagTranscript_split]
  exact hrun

/-- Where every atom lies in the layer's range, the session is finalized as the proof is accepted. -/
theorem batchVerify_split :
    ∃ n, batchVerify (BatchContract.fresh (Contract.single (splitConfig 0))) 0 0 (splitCalldata 2) n =
      .ok true := by
  refine (batchVerify_iff_verifyDAGProof ?_).mpr
    (verifyDAGProof_split ⟨by decide, by decide⟩ (by decide +kernel))
  intro config hconfig
  obtain rfl : splitConfig 0 = config := Option.some.inj hconfig
  unfold CursorsAgree
  decide

/-- The session between the continue call and the finalize calls. -/
private def splitSession (out : VerifyContext × Sponge) (s : Sponge) : DAGBatchSession :=
  continuedSession (startSession (splitCalldata 1) 0 (splitConfig 1) out.1 out.2) s

/-- With the first atom outside of the layer's range, the second finalize call looks for a public
value claim that the proof does not have. -/
private theorem executeFinalizeStep_split :
    okAnd (outputPhase solBackend (splitProof 1).gkrProof splitSponge) (fun out =>
      okAnd (processLayers solBackend (splitProof 1).gkrProof (splitDesc 1) splitGens [0] out.1 out.2)
        (fun layers => okAnd (executeFinalizeStep (splitProof 1) (splitDesc 1) splitGens
            layers.2.1.allBindings (splitSession out layers.2.2))
          (fun f => !f.1.done && !okAnd (executeFinalizeStep (splitProof 1) (splitDesc 1) splitGens
            layers.2.1.allBindings (finalizedSession (splitSession out layers.2.2) f.1 f.2))
            (fun _ => true)))) = true := by
  decide +kernel


/-- A session whose second finalize step fails is never finalized. -/
private theorem Tracks.finalized_eq_false {c c' : BatchContract} {sender sessionId n : ℕ}
    {d : Calldata} {config : DAGCircuitConfig} {proof : DecodedProof} {bindings : List (List ℕ)}
    {outputChallenges : List ℕ} {gens : PedersenGens} {f : FinalizeStepCtx} {s : Sponge}
    (h : Tracks c sender sessionId d config proof bindings outputChallenges)
    (hdone : (c.sessions sessionId).totalBatches ≤ (c.sessions sessionId).nextBatchIdx)
    (hgens : decodePedersenGens (calldataReader d.gensData) = .ok gens)
    (hstep : executeFinalizeStep proof config.description gens bindings (c.sessions sessionId) =
      .ok (f, s))
    (hfdone : f.done = false)
    (hstuck : ∀ out, executeFinalizeStep proof config.description gens bindings
      (finalizedSession (c.sessions sessionId) f s) ≠ .ok out)
    (hc' : finalizeAll sender sessionId d n c = .ok c') :
    (c'.sessions sessionId).finalized = false := by
  cases n with
  | zero =>
    rw [finalizeAll, pure_eq_ok] at hc'
    exact hc' ▸ h.unfinished
  | succ n =>
    rw [finalizeAll, (h.finalize_eq_ok hdone).mpr ⟨gens, f, s, hgens, hstep, rfl⟩, ok_bind] at hc'
    simp only [hfdone, Bool.false_eq_true, ↓reduceIte] at hc'
    cases n with
    | zero =>
      rw [finalizeAll, pure_eq_ok] at hc'
      subst hc'
      simp only [store_sessions_self, finalizedSession, hfdone]
    | succ n =>
      rw [finalizeAll, bind_eq_ok] at hc'
      obtain ⟨out, hsecond, -⟩ := hc'
      obtain ⟨-, -, -, -, proof', gens', bindings', f', s', hproof', hgens', hbindings', hstep', -⟩ :=
        finalizeDAGBatchVerify_eq_ok.mp hsecond
      obtain rfl := Except.ok.inj (h.decoded.symm.trans hproof')
      obtain rfl := Except.ok.inj (hgens.symm.trans hgens')
      have hall := (h.accepted_inputs hdone).1
      simp only [store_toContract, store_sessions_self, store_crossBatch_self] at hbindings' hstep'
      have hlayers : (finalizedSession (c.sessions sessionId) f s).numComputeLayers =
        config.description.numComputeLayers := h.layers
      rw [h.stored, hlayers, reconstructBindings_stored hall.le, hall, Nat.sub_self,
        List.replicate_zero, List.append_nil] at hbindings'
      obtain rfl := Except.ok.inj hbindings'
      have hdesc : storedDescription c.toContract
          (finalizedSession (c.sessions sessionId) f s).circuitHash = config.description :=
        h.storedDescription_eq
      exact absurd (hdesc ▸ hstep') (hstuck _)

/-- With an atom outside of the layer's range, the proof is accepted and no session on it ends
finalized. -/
theorem batchVerify_uncovered :
    verifyDAGProof (BatchContract.fresh (Contract.single (splitConfig 1))).toContract
        (splitCalldata 1).proof (splitCalldata 1).circuitHash (splitCalldata 1).publicInputs
        (splitCalldata 1).gensData = .ok true ∧
      ¬∃ n, batchVerify (BatchContract.fresh (Contract.single (splitConfig 1))) 0 0
        (splitCalldata 1) n = .ok true := by
  have hdecoded : SplitDecoded 1 := ⟨by decide, by decide⟩
  refine ⟨verifyDAGProof_split hdecoded (by decide +kernel), ?_⟩
  rintro ⟨n, hn⟩
  simp only [batchVerify, bind_eq_ok, startDAGBatchVerify_eq_ok, pure_eq_ok] at hn
  obtain ⟨_, ⟨config, proof, ctx, s, hsetup, rfl⟩, c₁, hc₁, c₂, hc₂, hfinal⟩ := hn
  -- the set-up has one outcome
  obtain rfl : splitConfig 1 = config :=
    Except.ok.inj ((activeCircuit_single rfl).symm.trans hsetup.circuit)
  obtain rfl := Except.ok.inj (hdecoded.proof_eq.symm.trans hsetup.decoded)
  have houtput := hsetup.output
  have hhash : (splitCalldata 1).circuitHash = 1 := rfl
  rw [hhash, setupDagTranscript_split] at houtput
  obtain ⟨out, hout, hlayers⟩ := okAnd_eq_true.mp executeFinalizeStep_split
  obtain rfl := Except.ok.inj (houtput.symm.trans hout)
  obtain ⟨layers, hlayers, hsteps⟩ := okAnd_eq_true.mp hlayers
  obtain ⟨f, hf, hlast⟩ := okAnd_eq_true.mp hsteps
  have hstart := @tracks_start _ 0 (generateSessionId 0 (splitCalldata 1).circuitHash 0) _ _ _ _ _
    hsetup
  -- one continue call
  have hcontinues := @hstart.continue_eq_ok
  have htracks := @hstart.continue
  simp only [store_sessions_self] at hc₁ hcontinues htracks
  have hone : (startSession (splitCalldata 1) 0 (splitConfig 1) ctx s).totalBatches = 1 := rfl
  rw [hone, continueAll, bind_eq_ok] at hc₁
  obtain ⟨c, hcontinue, hc₁⟩ := hc₁
  rw [continueAll, pure_eq_ok] at hc₁
  subst hc₁
  obtain ⟨gens, runs, ctx₁, s₁, hgens, hlayers', rfl⟩ := (hcontinues Nat.one_pos).mp hcontinue
  have h₁ := htracks Nat.one_pos hgens hlayers'
  obtain rfl := Except.ok.inj ((decodePedersenGens_split 1).symm.trans hgens)
  have hsame : processLayers solBackend (splitProof 1).gkrProof (splitDesc 1) splitGens [0] ctx s =
      .ok (runs, ctx₁, s₁) := by
    rw [outputPhase_ctx houtput]
    exact hlayers'
  obtain rfl := Except.ok.inj (hsame.symm.trans hlayers)
  -- the first finalize call stops, the second one reverts
  obtain ⟨hfdone, hstuck⟩ : f.1.done = false ∧ okAnd (executeFinalizeStep (splitProof 1) (splitDesc 1)
      splitGens ctx₁.allBindings (finalizedSession (splitSession (ctx, s) s₁) f.1 f.2))
      (fun _ => true) = false := by
    simpa only [Bool.and_eq_true, Bool.not_eq_true'] using hlast
  have hnever := @Tracks.finalized_eq_false _ c₂ _ _ n _ _ _ _ _ splitGens f.1 f.2 h₁
  simp only [store_sessions_self] at hnever
  have hreverts : ∀ out, executeFinalizeStep (splitProof 1) (splitDesc 1) splitGens ctx₁.allBindings
      (finalizedSession (splitSession (ctx, s) s₁) f.1 f.2) ≠ .ok out := by
    intro out hout
    rw [hout] at hstuck
    cases hstuck
  have hunfinished := hnever (le_refl 1) (decodePedersenGens_split 1) hf hfdone hreverts hc₂
  rw [hunfinished] at hfinal
  cases hfinal

end WorldZk.BatchRuns
