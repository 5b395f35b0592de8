import WorldZk.BatchSoundness
import WorldZk.BatchStorage

/-!
# Batch sessions reloaded from storage

The start and continue calls of `RemainderVerifier` on the slots of the contract. Between two calls
nothing is kept but the slots: each continue call loads the session and the arrays, checks its
layers, flattens the bindings and stores everything again. What is loaded after any number of
batches is what the one-transaction verifier holds after the same layers.
-/

namespace WorldZk.BatchReload

open CheckedRuns PoseidonSponge ProofTypes VerifierBackend DagLayers ProofDecoding SolidityVerifier
open Transcript
open BatchSessions hiding startDAGBatchVerify continueDAGBatchVerify
open BatchRefinement BatchSoundness BatchStorage StorageAreas Keccak256
open BatchRuns hiding continueAll

inductive StoredError where
  | reverted (cause : ContractError)
  | panicked (cause : Panic)
deriving DecidableEq, Repr

abbrev StoredCall (α : Type) : Type := Except StoredError α

def reverting {α : Type} (x : Call α) : StoredCall α := x.mapError .reverted

def panicking {α : Type} (x : Except Panic α) : StoredCall α := x.mapError .panicked

@[simp] theorem reverting_eq_ok {α : Type} {x : Call α} {a : α} :
    reverting x = .ok a ↔ x = .ok a := mapError_eq_ok

@[simp] theorem panicking_eq_ok {α : Type} {x : Except Panic α} {a : α} :
    panicking x = .ok a ↔ x = .ok a := mapError_eq_ok

/-! ## The calls -/

/-- `startDAGBatchVerify`: what the call stores goes to the slots of its session. -/
def startDAGBatchVerify (c : Contract) (st : Storage) (sender blockNum : ℕ) (d : Calldata) :
    StoredCall (ℕ × Storage) := do
  let (sessionId, started) ← reverting (BatchSessions.startDAGBatchVerify (BatchContract.fresh c)
    sender blockNum d.proof d.circuitHash d.publicInputs d.gensData)
  let crossData := started.crossBatch sessionId
  let _ ← panicking (newArray crossData.outputChallenges.length)
  let st := storeSession st (slotsOf sessionId) (started.sessions sessionId)
  let st ← panicking (storeCrossBatchData st (slotsOf sessionId) crossData)
  pure (sessionId, st)

/-- `_executeContinueBatch`, on the layers from `startLayer` up to `endLayer`. -/
def executeContinueBatch (c : Contract) (st : Storage) (slots : Slots) (session : DAGBatchSession)
    (d : Calldata) (startLayer endLayer : ℕ) : StoredCall (DAGBatchSession × Storage) := do
  let crossData ← panicking (loadCrossBatchData st slots)
  let allBindings ←
    reverting (liftVerifier (reconstructBindings crossData session.numComputeLayers))
  let (gkrProof, _, _) ←
    reverting (liftDecode (decodeProofSections (calldataReader (d.proof.drop 4))))
  let gens ← reverting (liftDecode (decodePedersenGens (calldataReader d.gensData)))
  let (allBindings, s) ← reverting (liftVerifier (verifyComputeLayersBatch gkrProof
    (storedDescription c session.circuitHash) gens crossData.outputChallenges session.outputEval
    (List.range' startLayer (endLayer - startLayer)) allBindings session.sponge))
  let crossData ← panicking (flattenBindings crossData allBindings endLayer)
  let st ← panicking (storeCrossBatchData st slots crossData)
  pure ({ session with sponge := s }, st)

/-- A batch of layers, and the session stored after it. -/
def continueRange (c : Contract) (st : Storage) (slots : Slots) (session : DAGBatchSession)
    (d : Calldata) (range : ℕ × ℕ) : StoredCall Storage := do
  let (session, st) ← executeContinueBatch c st slots session d range.1 range.2
  panicking (require (decide (range.1 ≤ range.2)) .arithmeticOverflow)
  pure (storeSession st slots { session with nextBatchIdx := session.nextBatchIdx + 1 })

/-- `continueDAGBatchVerify`. -/
def continueDAGBatchVerify (c : Contract) (st : Storage) (sender sessionId : ℕ) (d : Calldata) :
    StoredCall Storage := do
  reverting (require (!c.paused) .enforcedPause)
  let session := loadSession st (slotsOf sessionId)
  reverting (checkSession session sender)
  reverting (require (decide (session.nextBatchIdx < session.totalBatches)) .batchAllComputeDone)
  reverting (checkProofFormat d.proof)
  continueRange c st (slotsOf sessionId) session d
    (batchLayerRange session.nextBatchIdx session.numComputeLayers)

/-- The next `k` continue calls of a session. -/
def continueAll (c : Contract) (sender sessionId : ℕ) (d : Calldata) :
    ℕ → Storage → StoredCall Storage
  | 0, st => pure st
  | k + 1, st => do
    let st ← continueDAGBatchVerify c st sender sessionId d
    continueAll c sender sessionId d k st

/-- Batches over the given ranges of layers. -/
def continueRanges (c : Contract) (slots : Slots) (d : Calldata) :
    List (ℕ × ℕ) → Storage → StoredCall Storage
  | [], st => pure st
  | range :: ranges, st => do
    let st ← continueRange c st slots (loadSession st slots) d range
    continueRanges c slots d ranges st

/-- Ranges of the given lengths, one after the other. -/
def partitionRanges : ℕ → List ℕ → List (ℕ × ℕ)
  | _, [] => []
  | start, len :: lens => (start, start + len) :: partitionRanges (start + len) lens

/-! ## What is stored -/

/-- The slots hold the session and its arrays. -/
structure Holds (st : Storage) (slots : Slots) (session : DAGBatchSession) (data : CrossBatchData) :
    Prop where
  session_eq : loadSession st slots = session
  crossBatch_eq : loadCrossBatchData st slots = .ok data

section Storing

variable {st : Storage} {slots : Slots} {session : DAGBatchSession} {data : CrossBatchData}

/-- The session is stored first, as the start call does. -/
theorem holds_storeCrossBatchData (h : SlotsApart slots) (hdata : Allocatable data) :
    ∃ st', storeCrossBatchData (storeSession st slots session) slots data = .ok st' ∧
      Holds st' slots session data := by
  obtain ⟨st', hst', hload, hkept⟩ :=
    @storeCrossBatchData_ok (storeSession st slots session) _ h _ hdata
  refine ⟨st', hst', ?_, hload⟩
  have hsession : AgreeOn (sessionArea slots) (storeSession st slots session) st' :=
    hkept _ fun arrayId hid a ha => (h.session arrayId hid a ha).symm
  rw [loadSession_congr h.session_fits hsession, loadSession_storeSession h.session_fits]

/-- The arrays are stored first, as the continue call does. -/
theorem holds_storeSession (h : SlotsApart slots) (hdata : Allocatable data) :
    ∃ st', storeCrossBatchData st slots data = .ok st' ∧
      Holds (storeSession st' slots session) slots session data := by
  obtain ⟨st', hst', hload, -⟩ := @storeCrossBatchData_ok st _ h _ hdata
  exact ⟨st', hst', loadSession_storeSession h.session_fits session,
    (loadCrossBatchData_storeSession h session).trans hload⟩

end Storing

/-! ## One batch -/

/-- A batch fills slots and adds none. -/
theorem length_verifyComputeLayersBatch {proof : GKRProof} {desc : DAGCircuitDescription}
    {gens : PedersenGens} {outputChallenges : List ℕ} {outputEval : G1Point} {is : List ℕ}
    {allBindings : List (List ℕ)} {s : Sponge} {out : List (List ℕ) × Sponge}
    (h : verifyComputeLayersBatch proof desc gens outputChallenges outputEval is allBindings s =
      .ok out) : out.1.length = allBindings.length := by
  induction is generalizing allBindings s with
  | nil =>
    rw [verifyComputeLayersBatch, pure_eq_ok] at h
    rw [← h]
  | cons i is ih =>
    rw [verifyComputeLayersBatch, bind_eq_ok] at h
    obtain ⟨_, -, hrest⟩ := h
    rw [ih hrest, List.length_set]

theorem length_reconstructBindings {data : CrossBatchData} {n : ℕ} {allBindings : List (List ℕ)}
    (h : reconstructBindings data n = .ok allBindings) : allBindings.length = n := by
  rw [reconstructBindings, mapM_eq_ok] at h
  rw [← h.length_eq, List.length_range]

section Batches

variable {c : Contract} {st : Storage} {slots : Slots} {session : DAGBatchSession}
variable {data : CrossBatchData} {d : Calldata} {range : ℕ × ℕ}

/-- The layers of a batch, checked on what was loaded. -/
structure BatchChecked (c : Contract) (session : DAGBatchSession) (data : CrossBatchData)
    (d : Calldata) (range : ℕ × ℕ) (allBindings : List (List ℕ)) (s : Sponge) : Prop where
  checked : ∃ loaded sections gens,
    reconstructBindings data session.numComputeLayers = .ok loaded ∧
    decodeProofSections (calldataReader (d.proof.drop 4)) = .ok sections ∧
    decodePedersenGens (calldataReader d.gensData) = .ok gens ∧
    verifyComputeLayersBatch sections.1 (storedDescription c session.circuitHash) gens
      data.outputChallenges session.outputEval (List.range' range.1 (range.2 - range.1)) loaded
      session.sponge = .ok (allBindings, s)
  ordered : range.1 ≤ range.2

theorem BatchChecked.length_eq {allBindings : List (List ℕ)} {s : Sponge}
    (h : BatchChecked c session data d range allBindings s) :
    allBindings.length = session.numComputeLayers := by
  obtain ⟨loaded, _, _, hloaded, -, -, hbatch⟩ := h.checked
  rw [← length_reconstructBindings hloaded]
  exact length_verifyComputeLayersBatch hbatch

/-- The arrays of the layers before `endLayer` are allocated, when their sizes allow it. -/
theorem allocatable_updateBindings {allBindings : List (List ℕ)} {endLayer : ℕ}
    (hload : loadCrossBatchData st slots = .ok data) (hend : endLayer ≤ allBindings.length)
    (hflat : (allBindings.take endLayer).flatten.length < 2 ^ 64)
    (hoffsets : endLayer + 1 < 2 ^ 64) : Allocatable (updateBindings data allBindings endLayer) where
  bindingsFlat := hflat
  bindingsOffsets := by
    rw [updateBindings, storedBindings, FlatArrays.length_offsetsFrom, List.length_map,
      List.length_take_of_le hend]
    exact hoffsets
  outputChallenges :=
    (length_outputChallenges_of_load hload : data.outputChallenges.length < 2 ^ 64)

/-- A batch that succeeds has checked its layers, and the slots hold what it leaves. -/
theorem continueRange_holds (h : SlotsApart slots) (hheld : Holds st slots session data)
    (hend : range.2 ≤ session.numComputeLayers) {st' : Storage}
    (hst' : continueRange c st slots session d range = .ok st') :
    ∃ allBindings s, BatchChecked c session data d range allBindings s ∧
      Holds st' slots (continuedSession session s) (updateBindings data allBindings range.2) := by
  simp only [continueRange, executeContinueBatch, bind_eq_ok, pure_eq_ok, reverting_eq_ok,
    panicking_eq_ok, liftVerifier_eq_ok, liftDecode_eq_ok, require_eq_ok, decide_eq_true_eq,
    hheld.crossBatch_eq, Except.ok.injEq] at hst'
  obtain ⟨_, ⟨_, rfl, loaded, hloaded, sections, hsections, gens, hgens, ⟨allBindings, s⟩, hbatch,
    data', hflatten, st₁, hstore, rfl⟩, _, hordered, rfl⟩ := hst'
  have hchecked : BatchChecked c session data d range allBindings s :=
    ⟨⟨loaded, sections, gens, hloaded, hsections, hgens, hbatch⟩, hordered⟩
  obtain ⟨hflat, hoffsets, rfl⟩ :=
    (flattenBindings_eq_ok (hend.trans_eq hchecked.length_eq.symm)).mp hflatten
  obtain ⟨st₂, hstore', hholds⟩ := @holds_storeSession st _ (continuedSession session s) _ h
    (allocatable_updateBindings hheld.crossBatch_eq (hend.trans_eq hchecked.length_eq.symm) hflat
      hoffsets)
  obtain rfl := Except.ok.inj (hstore.symm.trans hstore')
  exact ⟨allBindings, s, hchecked, hholds⟩

/-- A batch whose layers are checked succeeds, when the language can hold its arrays. -/
theorem exists_continueRange (h : SlotsApart slots) (hheld : Holds st slots session data)
    (hend : range.2 ≤ session.numComputeLayers) {allBindings : List (List ℕ)} {s : Sponge}
    (hchecked : BatchChecked c session data d range allBindings s)
    (hflat : (allBindings.take range.2).flatten.length < 2 ^ 64) (hoffsets : range.2 + 1 < 2 ^ 64) :
    ∃ st', continueRange c st slots session d range = .ok st' := by
  have hlen : range.2 ≤ allBindings.length := hend.trans_eq hchecked.length_eq.symm
  obtain ⟨st₁, hstore, -⟩ := @holds_storeSession st _ (continuedSession session s) _ h
    (allocatable_updateBindings hheld.crossBatch_eq hlen hflat hoffsets)
  obtain ⟨loaded, sections, gens, hloaded, hsections, hgens, hbatch⟩ := hchecked.checked
  refine ⟨storeSession st₁ slots (continuedSession session s), ?_⟩
  simp only [continueRange, executeContinueBatch, bind_eq_ok, pure_eq_ok, reverting_eq_ok,
    panicking_eq_ok, liftVerifier_eq_ok, liftDecode_eq_ok, require_eq_ok, decide_eq_true_eq,
    hheld.crossBatch_eq, Except.ok.injEq]
  exact ⟨_, ⟨_, rfl, loaded, hloaded, sections, hsections, gens, hgens, (allBindings, s), hbatch, _,
    (flattenBindings_eq_ok hlen).mpr ⟨hflat, hoffsets, rfl⟩, st₁, hstore, rfl⟩, (),
    hchecked.ordered, rfl⟩

/-- On the bindings of the layers before it, a batch is a stretch of the layer loop. -/
theorem BatchChecked.processLayers {bindings allBindings : List (List ℕ)}
    {outputChallenges : List ℕ} {endLayer : ℕ} {s : Sponge}
    (h : BatchChecked c session (storedBindings bindings outputChallenges) d
      (bindings.length, endLayer) allBindings s) (hend : endLayer ≤ session.numComputeLayers) :
    ∃ sections gens runs ctx,
      decodeProofSections (calldataReader (d.proof.drop 4)) = .ok sections ∧
      decodePedersenGens (calldataReader d.gensData) = .ok gens ∧
      processLayers solBackend sections.1 (storedDescription c session.circuitHash) gens
        (List.range' bindings.length (endLayer - bindings.length))
        ⟨bindings, outputChallenges, session.outputEval⟩ session.sponge = .ok (runs, ctx, s) ∧
      ctx.allBindings = allBindings.take endLayer ∧ ctx.outputChallenges = outputChallenges ∧
      ctx.outputEval = session.outputEval := by
  obtain ⟨loaded, sections, gens, hloaded, hsections, hgens, hbatch⟩ := h.checked
  have hordered : bindings.length ≤ endLayer := h.ordered
  rw [reconstructBindings_stored (hordered.trans hend), Except.ok.injEq] at hloaded
  subst hloaded
  obtain ⟨runs, ctx, hlayers, hout⟩ := (verifyComputeLayersBatch_eq_ok
    (by rw [List.length_replicate]; omega)).mp hbatch
  have hruns := length_processLayers solBackend hlayers
  have hctx := processLayers_ctx solBackend hlayers
  simp only [List.length_range'] at hruns hctx hout
  refine ⟨sections, gens, runs, ctx, hsections, hgens, hlayers, ?_, by rw [hctx]; rfl, by rw [hctx]⟩
  have hlen : ctx.allBindings.length = endLayer := by
    rw [hctx, List.length_append, List.length_map, hruns]
    omega
  rw [hout, ← hlen, List.take_left']
  rfl

/-- A stretch of the layer loop is a batch on the bindings of the layers before it. -/
theorem batchChecked_of_processLayers {bindings : List (List ℕ)} {outputChallenges : List ℕ}
    {len : ℕ} {s : Sponge} {sections : GKRProof × List PublicValueClaim × List DAGInputLayerProof}
    {gens : PedersenGens} {runs : List LayerRun} {ctx : VerifyContext}
    (hsections : decodeProofSections (calldataReader (d.proof.drop 4)) = .ok sections)
    (hgens : decodePedersenGens (calldataReader d.gensData) = .ok gens)
    (hend : bindings.length + len ≤ session.numComputeLayers)
    (hlayers : processLayers solBackend sections.1 (storedDescription c session.circuitHash) gens
      (List.range' bindings.length len) ⟨bindings, outputChallenges, session.outputEval⟩
      session.sponge = .ok (runs, ctx, s)) :
    ∃ allBindings, BatchChecked c session (storedBindings bindings outputChallenges) d
        (bindings.length, bindings.length + len) allBindings s ∧
      allBindings.take (bindings.length + len) = ctx.allBindings := by
  have hruns := length_processLayers solBackend hlayers
  have hctx := processLayers_ctx solBackend hlayers
  simp only [List.length_range'] at hruns hctx
  have hlen : ctx.allBindings.length = bindings.length + len := by
    rw [hctx, List.length_append, List.length_map, hruns]
  have hbatch : verifyComputeLayersBatch sections.1 (storedDescription c session.circuitHash) gens
      outputChallenges session.outputEval (List.range' bindings.length len)
      (bindings ++ List.replicate (session.numComputeLayers - bindings.length) [])
      session.sponge = .ok (ctx.allBindings ++
        (List.replicate (session.numComputeLayers - bindings.length) []).drop len, s) :=
    (verifyComputeLayersBatch_eq_ok (by rw [List.length_replicate]; omega)).mpr
      ⟨runs, ctx, hlayers, rfl⟩
  rw [← Nat.add_sub_cancel_left (n := bindings.length) (m := len)] at hbatch
  exact ⟨_, ⟨⟨_, sections, gens, reconstructBindings_stored (by omega), hsections, hgens, hbatch⟩,
    Nat.le_add_right _ _⟩, List.take_left' hlen⟩

end Batches

/-! ## The session model -/

/-- What a start call on the slots stores is what that of the session model stores. -/
theorem startDAGBatchVerify_refines {c : Contract} {st₀ st : Storage}
    {sender blockNum sessionId : ℕ} {d : Calldata} (h : SlotsApart (slotsOf sessionId))
    (hst : startDAGBatchVerify c st₀ sender blockNum d = .ok (sessionId, st)) :
    ∃ b, BatchSessions.startDAGBatchVerify (BatchContract.fresh c) sender blockNum d.proof
        d.circuitHash d.publicInputs d.gensData = .ok (sessionId, b) ∧ b.toContract = c ∧
      Holds st (slotsOf sessionId) (b.sessions sessionId) (b.crossBatch sessionId) := by
  simp only [startDAGBatchVerify, bind_eq_ok, pure_eq_ok, reverting_eq_ok, panicking_eq_ok,
    newArray_eq_ok] at hst
  obtain ⟨⟨id, b⟩, hstart, _, ⟨hchallenges, -⟩, st₁, hstore, hout⟩ := hst
  obtain ⟨rfl, rfl⟩ := Prod.mk.inj hout
  obtain ⟨config, proof, ctx, s, -, hb⟩ := startDAGBatchVerify_eq_ok.mp hstart
  obtain ⟨rfl, rfl⟩ := Prod.mk.inj hb
  simp only [store_sessions_self, store_crossBatch_self] at hstore hchallenges
  have hdata : Allocatable ⟨[], [0], ctx.outputChallenges⟩ :=
    ⟨Nat.two_pow_pos 64, (by decide : (1 : ℕ) < 2 ^ 64), hchallenges⟩
  obtain ⟨st₂, hstore', hholds⟩ :=
    @holds_storeCrossBatchData st₀ _ (startSession d sender config ctx s) _ h hdata
  obtain rfl := Except.ok.inj (hstore.symm.trans hstore')
  refine ⟨_, hstart, rfl, ?_⟩
  rw [store_sessions_self, store_crossBatch_self]
  exact hholds

/-- A continue call on the slots is one of the session model, and the slots hold what that one
stores. -/
theorem continueDAGBatchVerify_refines {b : BatchContract} {st st' : Storage}
    {sender sessionId : ℕ} {d : Calldata} (h : SlotsApart (slotsOf sessionId))
    (hheld : Holds st (slotsOf sessionId) (b.sessions sessionId) (b.crossBatch sessionId))
    (hst' : continueDAGBatchVerify b.toContract st sender sessionId d = .ok st') :
    ∃ b', BatchSessions.continueDAGBatchVerify b sender sessionId d.proof d.publicInputs
        d.gensData = .ok b' ∧ b'.toContract = b.toContract ∧
      Holds st' (slotsOf sessionId) (b'.sessions sessionId) (b'.crossBatch sessionId) := by
  simp only [continueDAGBatchVerify, bind_eq_ok, reverting_eq_ok, require_eq_ok,
    decide_eq_true_eq, hheld.session_eq] at hst'
  obtain ⟨_, hpaused, _, hsession, _, hnext, _, hformat, hrange⟩ := hst'
  obtain ⟨allBindings, s, hchecked, hholds⟩ :=
    continueRange_holds h hheld (by rw [batchLayerRange_eq]; exact Nat.min_le_right _ _) hrange
  obtain ⟨loaded, sections, gens, hloaded, hsections, hgens, hbatch⟩ := hchecked.checked
  refine ⟨b.store sessionId (continuedSession (b.sessions sessionId) s) (updateBindings
    (b.crossBatch sessionId) allBindings (batchLayerRange (b.sessions sessionId).nextBatchIdx
      (b.sessions sessionId).numComputeLayers).2), ?_, rfl, ?_⟩
  · simp only [BatchSessions.continueDAGBatchVerify, bind_eq_ok, pure_eq_ok, require_eq_ok,
      liftDecode_eq_ok, liftVerifier_eq_ok, decide_eq_true_eq]
    exact ⟨(), hpaused, (), hsession, (), hnext, (), hformat, loaded, hloaded, sections, hsections,
      gens, hgens, (allBindings, s), hbatch, (), hchecked.ordered, rfl⟩
  · rw [store_sessions_self, store_crossBatch_self]
    exact hholds

/-- Continue calls of a session, each with its sender and its calldata. -/
def continueCalls (c : Contract) (sessionId : ℕ) (calls : List (ℕ × Calldata)) (st : Storage) :
    StoredCall Storage :=
  calls.foldlM (fun st call => continueDAGBatchVerify c st call.1 sessionId call.2) st

/-- The same calls in the session model. -/
def modelCalls (sessionId : ℕ) (calls : List (ℕ × Calldata)) (b : BatchContract) :
    Call BatchContract :=
  calls.foldlM (fun b call => BatchSessions.continueDAGBatchVerify b call.1 sessionId call.2.proof
    call.2.publicInputs call.2.gensData) b

theorem continueCalls_refines {b : BatchContract} {st st' : Storage} {sessionId : ℕ}
    {calls : List (ℕ × Calldata)} (h : SlotsApart (slotsOf sessionId))
    (hheld : Holds st (slotsOf sessionId) (b.sessions sessionId) (b.crossBatch sessionId))
    (hst' : continueCalls b.toContract sessionId calls st = .ok st') :
    ∃ b', modelCalls sessionId calls b = .ok b' ∧
      Holds st' (slotsOf sessionId) (b'.sessions sessionId) (b'.crossBatch sessionId) := by
  induction calls generalizing b st with
  | nil =>
    obtain rfl := pure_eq_ok.mp hst'
    exact ⟨b, rfl, hheld⟩
  | cons call calls ih =>
    rw [continueCalls, List.foldlM_cons, bind_eq_ok] at hst'
    obtain ⟨st₁, hfirst, hrest⟩ := hst'
    obtain ⟨b₁, hb₁, hsame, hheld₁⟩ := continueDAGBatchVerify_refines h hheld hfirst
    rw [← hsame] at hrest
    obtain ⟨b', hb', hholds⟩ := ih hheld₁ hrest
    refine ⟨b', ?_, hholds⟩
    rw [modelCalls, List.foldlM_cons, bind_eq_ok]
    exact ⟨b₁, hb₁, hb'⟩

/-- Whatever the storage held and whoever continues a session with whatever calldata, the calls that
succeed on the slots succeed in the session model, the slots hold its session, and after
`cleanupSession` they hold none. -/
theorem session_refines {c : Contract} {st₀ st₁ st : Storage} {sender blockNum sessionId : ℕ}
    {d : Calldata} {calls : List (ℕ × Calldata)} (hslots : SlotsApart (slotsOf sessionId))
    (hstart : startDAGBatchVerify c st₀ sender blockNum d = .ok (sessionId, st₁))
    (hrun : continueCalls c sessionId calls st₁ = .ok st) :
    ∃ b₁ b, BatchSessions.startDAGBatchVerify (BatchContract.fresh c) sender blockNum d.proof
        d.circuitHash d.publicInputs d.gensData = .ok (sessionId, b₁) ∧
      modelCalls sessionId calls b₁ = .ok b ∧
      Holds st (slotsOf sessionId) (b.sessions sessionId) (b.crossBatch sessionId) ∧
      ∀ st', cleanupSession st (slotsOf sessionId) = .ok st' →
        Holds st' (slotsOf sessionId) DAGBatchSession.empty ⟨[], [], []⟩ := by
  obtain ⟨b₁, hb₁, rfl, hheld⟩ := startDAGBatchVerify_refines hslots hstart
  obtain ⟨b, hb, hholds⟩ := continueCalls_refines hslots hheld hrun
  refine ⟨b₁, b, hb₁, hb, hholds, fun st' hst' => ?_⟩
  obtain ⟨hsession, hcrossBatch⟩ := cleanupSession_eq_ok hst'
  exact ⟨hsession, hcrossBatch⟩

/-! ## The single pass -/

/-- What `verifyDAGProof` holds once the first `m` compute layers are checked. -/
def singlePass (proof : DecodedProof) (desc : DAGCircuitDescription) (gens : PedersenGens)
    (circuitHash m : ℕ) : Checked (VerifyContext × Sponge) := do
  let (ctx, s) ← outputPhase solBackend proof.gkrProof (setupDagTranscript circuitHash proof)
  let (_, ctx, s) ← DagLayers.processLayers solBackend proof.gkrProof desc gens (List.range m) ctx s
  pure (ctx, s)

section SinglePass

variable {proof : DecodedProof} {desc : DAGCircuitDescription} {gens : PedersenGens}
variable {circuitHash m : ℕ} {ctx : VerifyContext} {s : Sponge}

theorem singlePass_eq_ok {out : VerifyContext × Sponge} :
    singlePass proof desc gens circuitHash m = .ok out ↔
      ∃ ctx s runs,
        outputPhase solBackend proof.gkrProof (setupDagTranscript circuitHash proof) =
          .ok (ctx, s) ∧
        processLayers solBackend proof.gkrProof desc gens (List.range m) ctx s =
          .ok (runs, out) := by
  simp only [singlePass, bind_eq_ok, pure_eq_ok]
  constructor
  · rintro ⟨⟨ctx, s⟩, houtput, ⟨runs, ctx', s'⟩, hlayers, rfl⟩
    exact ⟨ctx, s, runs, houtput, hlayers⟩
  · rintro ⟨ctx, s, runs, houtput, hlayers⟩
    exact ⟨(ctx, s), houtput, (runs, out), hlayers, rfl⟩

theorem length_singlePass (h : singlePass proof desc gens circuitHash m = .ok (ctx, s)) :
    ctx.allBindings.length = m := by
  obtain ⟨ctx₀, s₀, runs, houtput, hlayers⟩ := singlePass_eq_ok.mp h
  have hruns := length_processLayers solBackend hlayers
  have hctx := processLayers_ctx solBackend hlayers
  rw [outputPhase_ctx houtput, List.nil_append] at hctx
  simp only [List.length_range] at hruns hctx
  rw [hctx, List.length_map, hruns]

/-- The pass goes on with the layers of the next batch. -/
theorem singlePass_add {len : ℕ} {out : VerifyContext × Sponge} :
    singlePass proof desc gens circuitHash (m + len) = .ok out ↔
      ∃ ctx s runs, singlePass proof desc gens circuitHash m = .ok (ctx, s) ∧
        processLayers solBackend proof.gkrProof desc gens (List.range' m len) ctx s =
          .ok (runs, out) := by
  have hsplit : List.range (m + len) = List.range m ++ List.range' m len := by
    have happ := @List.range'_append_1 0 m len
    rw [Nat.zero_add] at happ
    rw [List.range_eq_range', List.range_eq_range', happ]
  simp only [singlePass_eq_ok, hsplit, processLayers_append]
  constructor
  · rintro ⟨ctx₀, s₀, _, houtput, runs₀, ctx, s, runs, hfirst, hrest, -⟩
    exact ⟨ctx, s, runs, ⟨ctx₀, s₀, runs₀, houtput, hfirst⟩, hrest⟩
  · rintro ⟨ctx, s, runs, ⟨ctx₀, s₀, runs₀, houtput, hfirst⟩, hrest⟩
    exact ⟨ctx₀, s₀, _, houtput, runs₀, ctx, s, runs, hfirst, hrest, rfl⟩

end SinglePass

/-! ## Runs -/

/-- What is reloaded from the slots is what the single pass holds after `m` layers: the bindings of
these layers, in an array with a place for every layer, the sponge, and the output challenges with
the claim they are for. -/
def ReloadsSinglePass (d : Calldata) (desc : DAGCircuitDescription) (proof : DecodedProof)
    (slots : Slots) (m : ℕ) (st : Storage) : Prop :=
  ∃ gens ctx s data,
    (m = 0 ∨ decodePedersenGens (calldataReader d.gensData) = .ok gens) ∧
    singlePass proof desc gens d.circuitHash m = .ok (ctx, s) ∧
    (loadSession st slots).sponge = s ∧ (loadSession st slots).outputEval = ctx.outputEval ∧
    loadCrossBatchData st slots = .ok data ∧ data.outputChallenges = ctx.outputChallenges ∧
    reconstructBindings data desc.numComputeLayers =
      .ok (ctx.allBindings ++ List.replicate (desc.numComputeLayers - m) [])

/-- The slots follow the single pass: after `i` batches they hold its state after `m` layers. -/
structure Follows (d : Calldata) (config : DAGCircuitConfig) (proof : DecodedProof) (slots : Slots)
    (m i : ℕ) (gens : PedersenGens) (ctx : VerifyContext) (session : DAGBatchSession)
    (st : Storage) : Prop where
  generators : m = 0 ∨ decodePedersenGens (calldataReader d.gensData) = .ok gens
  pass : singlePass proof config.description gens d.circuitHash m = .ok (ctx, session.sponge)
  held : Holds st slots session (storedBindings ctx.allBindings ctx.outputChallenges)
  hash : session.circuitHash = d.circuitHash
  layers : session.numComputeLayers = config.description.numComputeLayers
  batches : session.totalBatches = computeNumComputeBatches config.description.numComputeLayers
  eval : session.outputEval = ctx.outputEval
  next : session.nextBatchIdx = i

section Runs

variable {c : Contract} {st : Storage} {d : Calldata} {config : DAGCircuitConfig}
variable {proof : DecodedProof} {slots : Slots} {m i : ℕ} {gens : PedersenGens}
variable {ctx : VerifyContext} {session : DAGBatchSession}

theorem Follows.reloads (h : Follows d config proof slots m i gens ctx session st)
    (hm : m ≤ config.description.numComputeLayers) :
    ReloadsSinglePass d config.description proof slots m st := by
  have hlen := length_singlePass h.pass
  refine ⟨gens, ctx, session.sponge, _, h.generators, h.pass, by rw [h.held.session_eq],
    by rw [h.held.session_eq, h.eval], h.held.crossBatch_eq, rfl, ?_⟩
  rw [reconstructBindings_stored (hlen.trans_le hm), hlen]

theorem singlePass_congr {gens' : PedersenGens}
    (hm : m = 0 ∨ gens = gens') (desc : DAGCircuitDescription) (circuitHash : ℕ) :
    singlePass proof desc gens circuitHash m = singlePass proof desc gens' circuitHash m := by
  rcases hm with rfl | rfl <;> rfl

/-- One batch: the layers from `m` on are checked on what was reloaded, and the slots follow the
single pass over them. -/
theorem Follows.continueRange (h : Follows d config proof slots m i gens ctx session st)
    (hslots : SlotsApart slots) (hcircuit : c.dagCircuits d.circuitHash = some config)
    (hdecoded : decodeProofForDag (calldataReader (d.proof.drop 4)) = .ok proof) {len : ℕ}
    (hlen : m + len ≤ config.description.numComputeLayers) {st' : Storage}
    (hst' : continueRange c st slots (loadSession st slots) d (m, m + len) = .ok st') :
    ∃ gens ctx session, Follows d config proof slots (m + len) (i + 1) gens ctx session st' := by
  have hlayers := length_singlePass h.pass
  have hend : m + len ≤ session.numComputeLayers := hlen.trans_eq h.layers.symm
  rw [h.held.session_eq] at hst'
  obtain ⟨allBindings, s, hchecked, hheld⟩ := continueRange_holds hslots h.held hend hst'
  rw [← hlayers] at hchecked
  obtain ⟨sections, gens', runs, ctx', hsections, hgens', hprocess, hbindings, hchallenges,
    heval⟩ := hchecked.processLayers (hlayers.symm ▸ hend)
  obtain rfl := Except.ok.inj (hsections.symm.trans (decodeProofForDag_eq_ok.mp hdecoded).2)
  have hdesc : storedDescription c session.circuitHash = config.description := by
    rw [h.hash, storedDescription, hcircuit]
  have hgens : m = 0 ∨ gens = gens' := h.generators.imp_right fun hgens =>
    Except.ok.inj (hgens.symm.trans hgens')
  have hpass := h.pass
  rw [singlePass_congr hgens] at hpass
  rw [hdesc, hlayers, Nat.add_sub_cancel_left, h.eval] at hprocess
  refine ⟨gens', ctx', continuedSession session s, Or.inr hgens',
    singlePass_add.mpr ⟨ctx, session.sponge, runs, hpass, hprocess⟩, ?_, h.hash, h.layers,
    h.batches, heval.symm, congrArg (· + 1) h.next⟩
  rw [hbindings, hchallenges, hlayers]
  exact hheld

/-- Where the single pass goes on, so does a batch, when the language can hold its arrays. -/
theorem Follows.exists_continueRange (h : Follows d config proof slots m i gens ctx session st)
    (hslots : SlotsApart slots) (hcircuit : c.dagCircuits d.circuitHash = some config)
    (hdecoded : decodeProofForDag (calldataReader (d.proof.drop 4)) = .ok proof)
    {gens' : PedersenGens} (hgens' : decodePedersenGens (calldataReader d.gensData) = .ok gens')
    {len : ℕ} (hlen : m + len ≤ config.description.numComputeLayers) {ctx' : VerifyContext}
    {s' : Sponge}
    (hpass' : singlePass proof config.description gens' d.circuitHash (m + len) = .ok (ctx', s'))
    (hflat : ctx'.allBindings.flatten.length < 2 ^ 64) (hoffsets : m + len + 1 < 2 ^ 64) :
    ∃ st', BatchReload.continueRange c st slots session d (m, m + len) = .ok st' := by
  have hlayers := length_singlePass h.pass
  have hend : m + len ≤ session.numComputeLayers := hlen.trans_eq h.layers.symm
  have hgens : m = 0 ∨ gens = gens' := h.generators.imp_right fun hgens =>
    Except.ok.inj (hgens.symm.trans hgens')
  have hpass := h.pass
  rw [singlePass_congr hgens] at hpass
  obtain ⟨ctx₁, s₁, runs, hpass₁, hprocess⟩ := singlePass_add.mp hpass'
  obtain ⟨rfl, rfl⟩ := Prod.mk.inj (Except.ok.inj (hpass.symm.trans hpass₁))
  have hdesc : storedDescription c session.circuitHash = config.description := by
    rw [h.hash, storedDescription, hcircuit]
  rw [← hdesc, ← hlayers] at hprocess
  have hctx : ctx = ⟨ctx.allBindings, ctx.outputChallenges, session.outputEval⟩ := by rw [h.eval]
  rw [hctx] at hprocess
  obtain ⟨allBindings, hchecked, htake⟩ := batchChecked_of_processLayers
    (decodeProofForDag_eq_ok.mp hdecoded).2 hgens' (hlayers.symm ▸ hend) hprocess
  simp only [hlayers] at hchecked htake
  exact BatchReload.exists_continueRange hslots h.held hend hchecked (htake.symm ▸ hflat) hoffsets

/-- A started session follows the single pass over no layers. -/
theorem follows_start {st₀ : Storage} {sender blockNum sessionId : ℕ}
    (hslots : SlotsApart (slotsOf (generateSessionId sender d.circuitHash blockNum)))
    (hst : startDAGBatchVerify c st₀ sender blockNum d = .ok (sessionId, st)) :
    sessionId = generateSessionId sender d.circuitHash blockNum ∧
      ∃ config proof ctx s, SetupDone c d config proof ctx s ∧
        ∀ gens, Follows d config proof (slotsOf sessionId) 0 0 gens ctx
          (startSession d sender config ctx s) st := by
  simp only [startDAGBatchVerify, bind_eq_ok, pure_eq_ok, reverting_eq_ok, panicking_eq_ok,
    newArray_eq_ok, startDAGBatchVerify_eq_ok] at hst
  obtain ⟨_, ⟨config, proof, ctx, s, hsetup, rfl⟩, _, ⟨hchallenges, -⟩, st₁, hstore, hout⟩ := hst
  obtain ⟨rfl, rfl⟩ := Prod.mk.inj hout
  simp only [store_sessions_self, store_crossBatch_self] at hstore hchallenges
  refine ⟨rfl, config, proof, ctx, s, hsetup, fun gens => ?_⟩
  have hdata : Allocatable (storedBindings [] ctx.outputChallenges) :=
    ⟨Nat.two_pow_pos 64, (by decide : (1 : ℕ) < 2 ^ 64), hchallenges⟩
  obtain ⟨st₂, hstore', hheld⟩ :=
    @holds_storeCrossBatchData st₀ _ (startSession d sender config ctx s) _ hslots hdata
  obtain rfl := Except.ok.inj (hstore.symm.trans hstore')
  have hpass : singlePass proof config.description gens d.circuitHash 0 = .ok (ctx, s) :=
    singlePass_eq_ok.mpr ⟨ctx, s, [], hsetup.output, rfl⟩
  refine ⟨Or.inl rfl, hpass, ?_, rfl, rfl, rfl, rfl, rfl⟩
  rw [outputPhase_ctx hsetup.output]
  exact hheld

/-- A set-up that succeeds is stored, when the language can hold its challenges. -/
theorem exists_start {sender blockNum : ℕ} {s : Sponge} (st₀ : Storage)
    (hslots : SlotsApart (slotsOf (generateSessionId sender d.circuitHash blockNum)))
    (hsetup : SetupDone c d config proof ctx s) (hlen : ctx.outputChallenges.length < 2 ^ 64) :
    ∃ st, startDAGBatchVerify c st₀ sender blockNum d =
      .ok (generateSessionId sender d.circuitHash blockNum, st) := by
  have hdata : Allocatable (storedBindings [] ctx.outputChallenges) :=
    ⟨Nat.two_pow_pos 64, (by decide : (1 : ℕ) < 2 ^ 64), hlen⟩
  obtain ⟨st, hstore, -⟩ :=
    @holds_storeCrossBatchData st₀ _ (startSession d sender config ctx s) _ hslots hdata
  refine ⟨st, ?_⟩
  simp only [startDAGBatchVerify, bind_eq_ok, pure_eq_ok, reverting_eq_ok, panicking_eq_ok,
    newArray_eq_ok, startDAGBatchVerify_eq_ok]
  refine ⟨_, ⟨config, proof, ctx, s, hsetup, rfl⟩, ?_⟩
  simp only [store_sessions_self, store_crossBatch_self]
  exact ⟨_, ⟨hlen, rfl⟩, st, hstore, rfl⟩

/-- Batches of any lengths, one after the other. -/
theorem follows_continueRanges (hslots : SlotsApart slots)
    (hcircuit : c.dagCircuits d.circuitHash = some config)
    (hdecoded : decodeProofForDag (calldataReader (d.proof.drop 4)) = .ok proof) {lens : List ℕ}
    (h : Follows d config proof slots m i gens ctx session st)
    (hsum : m + lens.sum ≤ config.description.numComputeLayers) {st' : Storage}
    (hst' : continueRanges c slots d (partitionRanges m lens) st = .ok st') :
    ∃ gens ctx session,
      Follows d config proof slots (m + lens.sum) (i + lens.length) gens ctx session st' := by
  induction lens generalizing m i gens ctx session st with
  | nil =>
    rw [partitionRanges, continueRanges, pure_eq_ok] at hst'
    subst hst'
    exact ⟨gens, ctx, session, h⟩
  | cons len lens ih =>
    rw [List.sum_cons] at hsum ⊢
    rw [partitionRanges, continueRanges, bind_eq_ok] at hst'
    obtain ⟨st₁, hst₁, hrest⟩ := hst'
    obtain ⟨gens₁, ctx₁, session₁, h₁⟩ :=
      h.continueRange hslots hcircuit hdecoded (by omega) hst₁
    obtain ⟨gens₂, ctx₂, session₂, h₂⟩ := ih h₁ (by omega) hrest
    rw [← Nat.add_assoc, List.length_cons, Nat.add_comm lens.length 1, ← Nat.add_assoc]
    exact ⟨gens₂, ctx₂, session₂, h₂⟩

theorem exists_batchLayerRange_eq {n : ℕ} (hi : i < computeNumComputeBatches n) :
    ∃ len, batchLayerRange i n =
        (min (i * LAYERS_PER_BATCH) n, min (i * LAYERS_PER_BATCH) n + len) ∧
      min (i * LAYERS_PER_BATCH) n + len = min ((i + 1) * LAYERS_PER_BATCH) n := by
  have hlt := mul_lt_of_lt_computeNumComputeBatches hi
  have hle : i * LAYERS_PER_BATCH ≤ min ((i + 1) * LAYERS_PER_BATCH) n :=
    le_min (Nat.mul_le_mul_right _ (Nat.le_succ i)) hlt.le
  rw [batchLayerRange_eq, Nat.min_eq_left hlt.le]
  exact ⟨_, by rw [Nat.add_sub_of_le hle], Nat.add_sub_of_le hle⟩

/-- The continue calls of the contract. -/
theorem follows_continueAll {sender sessionId k : ℕ} (hslots : SlotsApart (slotsOf sessionId))
    (hcircuit : c.dagCircuits d.circuitHash = some config)
    (hdecoded : decodeProofForDag (calldataReader (d.proof.drop 4)) = .ok proof)
    (h : Follows d config proof (slotsOf sessionId)
      (min (i * LAYERS_PER_BATCH) config.description.numComputeLayers) i gens ctx session st)
    {st' : Storage} (hst' : continueAll c sender sessionId d k st = .ok st') :
    ∃ gens ctx session, Follows d config proof (slotsOf sessionId)
      (min ((i + k) * LAYERS_PER_BATCH) config.description.numComputeLayers) (i + k) gens ctx
      session st' := by
  induction k generalizing i gens ctx session st with
  | zero =>
    rw [continueAll, pure_eq_ok] at hst'
    subst hst'
    exact ⟨gens, ctx, session, h⟩
  | succ k ih =>
    simp only [continueAll, continueDAGBatchVerify, bind_eq_ok, reverting_eq_ok, require_eq_ok,
      decide_eq_true_eq, h.held.session_eq, h.batches, h.layers, h.next] at hst'
    obtain ⟨st₁, ⟨_, -, _, -, _, hnext, _, -, hst₁⟩, hrest⟩ := hst'
    obtain ⟨len, hrange, hlen⟩ := exists_batchLayerRange_eq hnext
    rw [hrange, ← h.held.session_eq] at hst₁
    obtain ⟨gens₁, ctx₁, session₁, h₁⟩ := h.continueRange hslots hcircuit hdecoded
      (hlen.trans_le (Nat.min_le_right _ _)) hst₁
    rw [hlen] at h₁
    obtain ⟨gens₂, ctx₂, session₂, h₂⟩ := ih h₁ hrest
    rw [Nat.add_right_comm] at h₂
    exact ⟨gens₂, ctx₂, session₂, h₂⟩

end Runs

/-! ## Coverage -/

/-- The layers of batch `i`. -/
def batchLayers (n i : ℕ) : List ℕ :=
  List.range' (batchLayerRange i n).1 ((batchLayerRange i n).2 - (batchLayerRange i n).1)

theorem flatMap_batchLayers (n k : ℕ) :
    (List.range k).flatMap (batchLayers n) = List.range (min (k * LAYERS_PER_BATCH) n) := by
  induction k with
  | zero => rw [List.range_zero, List.flatMap_nil, Nat.zero_mul, Nat.zero_min, List.range_zero]
  | succ k ih =>
    rw [List.range_succ, List.flatMap_append, List.flatMap_singleton, ih, batchLayers,
      batchLayerRange_eq]
    unfold LAYERS_PER_BATCH
    simp only
    by_cases hk : k * 8 < n
    · have happ := @List.range'_append_1 0 (k * 8) (min ((k + 1) * 8) n - k * 8)
      rw [Nat.zero_add, Nat.add_sub_cancel' (by omega)] at happ
      rw [Nat.min_eq_left hk.le, List.range_eq_range', List.range_eq_range', happ]
    · have hnone : min ((k + 1) * 8) n - k * 8 = 0 := by omega
      rw [hnone, List.range'_zero, List.append_nil, Nat.min_eq_right (by omega),
        Nat.min_eq_right (by omega)]

theorem flatMap_batchLayers_all (n : ℕ) :
    (List.range (computeNumComputeBatches n)).flatMap (batchLayers n) = List.range n := by
  rw [flatMap_batchLayers]
  congr 1
  unfold computeNumComputeBatches LAYERS_PER_BATCH
  omega

/-- For every circuit, on slots that are apart: after any number of continue calls, and after
batches of any lengths, what is reloaded is what the single pass holds after the same layers; and
the batches of the contract go over every compute layer once, in order. -/
theorem session_reloads_singlePass {c : Contract} {st₀ st : Storage}
    {sender blockNum sessionId : ℕ} {d : Calldata}
    (hslots : SlotsApart (slotsOf (generateSessionId sender d.circuitHash blockNum)))
    (hstart : startDAGBatchVerify c st₀ sender blockNum d = .ok (sessionId, st)) :
    ∃ config proof, activeCircuit c d.circuitHash = .ok config ∧
      decodeProofForDag (calldataReader (d.proof.drop 4)) = .ok proof ∧
      (∀ k st', continueAll c sender sessionId d k st = .ok st' →
        ReloadsSinglePass d config.description proof (slotsOf sessionId)
          (min (k * LAYERS_PER_BATCH) config.description.numComputeLayers) st') ∧
      (∀ lens st', lens.sum ≤ config.description.numComputeLayers →
        continueRanges c (slotsOf sessionId) d (partitionRanges 0 lens) st = .ok st' →
        ReloadsSinglePass d config.description proof (slotsOf sessionId) lens.sum st') ∧
      (∀ k, (List.range k).flatMap (batchLayers config.description.numComputeLayers) =
        List.range (min (k * LAYERS_PER_BATCH) config.description.numComputeLayers)) ∧
      (List.range (computeNumComputeBatches config.description.numComputeLayers)).flatMap
        (batchLayers config.description.numComputeLayers) =
          List.range config.description.numComputeLayers := by
  obtain ⟨rfl, config, proof, ctx, s, hsetup, hfollows⟩ := follows_start hslots hstart
  have hcircuit := (activeCircuit_eq_ok.mp hsetup.circuit).1
  have hstarted := hfollows ⟨[], G1Point.INFINITY, G1Point.INFINITY⟩
  refine ⟨config, proof, hsetup.circuit, hsetup.decoded, ?_, ?_, flatMap_batchLayers _,
    flatMap_batchLayers_all _⟩
  · intro k st' hst'
    have hzero : min (0 * LAYERS_PER_BATCH) config.description.numComputeLayers = 0 := by
      rw [Nat.zero_mul, Nat.zero_min]
    obtain ⟨gens, ctx', session, h⟩ :=
      follows_continueAll hslots hcircuit hsetup.decoded (hzero.symm ▸ hstarted) hst'
    rw [Nat.zero_add] at h
    exact h.reloads (Nat.min_le_right _ _)
  · intro lens st' hsum hst'
    obtain ⟨gens, ctx', session, h⟩ := follows_continueRanges hslots hcircuit hsetup.decoded
      hstarted (by rwa [Nat.zero_add]) hst'
    rw [Nat.zero_add] at h
    exact h.reloads hsum

/-! ## A session on used slots -/

section Plain

/-- The call for the circuit without committed inputs. -/
def plainCalldata : Calldata := (plainPayload plainGensData).calldata 1

/-- The identifier of its session. -/
def plainSessionId : ℕ :=
  57989914974800395321990840296713405853342915830134054509494425024150029671198

private theorem generateSessionId_plain :
    generateSessionId 0 plainCalldata.circuitHash 0 = plainSessionId := by
  rw [generateSessionId, keccak256_eq_keccakLanes]
  decide +kernel

private theorem sessionSlot_plain : sessionSlot plainSessionId =
    38136302770304917073824825698348342767898490886623832674562752702903515776797 := by
  rw [sessionSlot, keccak256_eq_keccakLanes]
  decide +kernel

/-- The slots of the lengths of its arrays. -/
private def plainLengths : List ℕ :=
  [11104435184270090631081352933038910909423939622735590889382252056279618873892,
    2693546458033298405543547525563241531375638166312495533836359362005474382486,
    24884983233318762736243433232417755470693109946631352117790639743108045464971]

/-- The slots of the first entries of its arrays. -/
private def plainData : List ℕ :=
  [64822752996217921425861506294995510810428639017545969484783597230527493491474,
    103825382646512901403801835845764411375960166043099783746477107692712550163802,
    6645559454021888543845362939265703583369677092966161449949603893149591159289]

private theorem crossBatchSlot_plain :
    ∀ arrayId < 3, crossBatchSlot plainSessionId arrayId = plainLengths.getD arrayId 0 := by
  intro arrayId hid
  rw [crossBatchSlot, keccak256_eq_keccakLanes]
  interval_cases arrayId <;> decide +kernel

private theorem dataSlot_plain :
    ∀ arrayId < 3, dataSlot plainSessionId arrayId = plainData.getD arrayId 0 := by
  intro arrayId hid
  rw [dataSlot, crossBatchSlot_plain arrayId hid, keccak256_eq_keccakLanes]
  interval_cases arrayId <;> decide +kernel

theorem slotsApart_plain : SlotsApart (slotsOf plainSessionId) where
  session_fits := by
    simp only [slotsOf, sessionSlot_plain]
    decide
  data_fits := by
    intro arrayId hid
    simp only [slotsOf, dataSlot_plain arrayId hid]
    revert arrayId
    decide
  session := by
    intro arrayId hid
    simp only [sessionArea, arrayAreas, lengthArea, dataArea, slotsOf, sessionSlot_plain,
      crossBatchSlot_plain arrayId hid, dataSlot_plain arrayId hid]
    revert arrayId
    decide
  own := by
    intro arrayId hid
    simp only [lengthArea, dataArea, slotsOf, crossBatchSlot_plain arrayId hid,
      dataSlot_plain arrayId hid]
    revert arrayId
    decide
  arrays := by
    intro i hi j hj
    simp only [arrayAreas, lengthArea, dataArea, slotsOf, crossBatchSlot_plain i hi,
      dataSlot_plain i hi, crossBatchSlot_plain j hj, dataSlot_plain j hj]
    revert i j
    decide

private theorem singlePass_plain : okAnd (singlePass plainProof plainDesc
    ⟨[], G1Point.INFINITY, G1Point.INFINITY⟩ plainCalldata.circuitHash 1) (fun out =>
      decide (out.1.allBindings = [[]]) && decide (out.1.outputChallenges = [])) = true := by
  have hhash : plainCalldata.circuitHash = 1 := rfl
  have hsetup : setupDagTranscript 1 plainProof = absorbPair solOps (absorbPair solOps (absorbPair
      solOps init (hashToFqPair (wordToBeBytes 1))) (sha256HashChain [])) (sha256HashChain []) :=
    setupTranscript_nil solOps (wordToBeBytes 1)
  rw [hhash, singlePass, hsetup, sha256HashChain_nil]
  decide +kernel

/-- On slots that all hold something, a session of one batch reloads what the single pass holds
after its layer. -/
theorem plain_reloads_singlePass :
    ∃ st st', startDAGBatchVerify (Contract.single plainConfig) (fun _ => 7) 0 0 plainCalldata =
        .ok (plainSessionId, st) ∧
      continueAll (Contract.single plainConfig) 0 plainSessionId plainCalldata 1 st = .ok st' ∧
      ReloadsSinglePass plainCalldata plainDesc plainProof (slotsOf plainSessionId) 1 st' := by
  have hslots := slotsApart_plain
  rw [← generateSessionId_plain] at hslots ⊢
  have hdecoded : decodeProofForDag (calldataReader (plainCalldata.proof.drop 4)) =
      .ok plainProof := by
    have hdrop : plainCalldata.proof.drop 4 = plainProofWords.flatMap wordToBeBytes := rfl
    rw [hdrop, calldataReader_flatMap_wordToBeBytes (by decide)]
    decide
  have hgens : decodePedersenGens (calldataReader plainCalldata.gensData) =
      .ok ⟨[], G1Point.INFINITY, G1Point.INFINITY⟩ := by
    have hdata : plainCalldata.gensData = [0, 0, 0, 0, 0].flatMap wordToBeBytes := rfl
    rw [hdata, calldataReader_flatMap_wordToBeBytes (by decide)]
    decide
  obtain ⟨⟨ctx, s⟩, hpass, hbindings⟩ := okAnd_eq_true.mp singlePass_plain
  obtain ⟨hbindings, hchallenges⟩ : ctx.allBindings = [[]] ∧ ctx.outputChallenges = [] := by
    simpa only [Bool.and_eq_true, decide_eq_true_eq] using hbindings
  obtain ⟨ctx₀, s₀, runs, houtput, hlayers⟩ := singlePass_eq_ok.mp hpass
  have hchallenges₀ : ctx₀.outputChallenges = [] := by
    have hctx := congrArg VerifyContext.outputChallenges (processLayers_ctx solBackend hlayers)
    exact hctx.symm.trans hchallenges
  have hgenerators : checkGenerators plainConfig plainGensData = .ok () := by
    simp [checkGenerators, plainConfig]
  have hsetup : SetupDone (Contract.single plainConfig) plainCalldata plainConfig plainProof ctx₀
      s₀ :=
    ⟨rfl, activeCircuit_single rfl, checkProofFormat_selector _, hgenerators, hdecoded, houtput⟩
  obtain ⟨st, hstart⟩ := @exists_start _ plainCalldata _ _ _ 0 0 _ (fun _ => 7) hslots hsetup
    (by rw [hchallenges₀]; decide)
  -- the only batch
  obtain ⟨-, config, proof, ctx₁, s₁, hsetup', hfollows⟩ := follows_start hslots hstart
  obtain rfl := Except.ok.inj (hsetup.circuit.symm.trans hsetup'.circuit)
  obtain rfl := Except.ok.inj (hsetup.decoded.symm.trans hsetup'.decoded)
  obtain ⟨rfl, rfl⟩ := Prod.mk.inj (Except.ok.inj (hsetup.output.symm.trans hsetup'.output))
  have hf := hfollows ⟨[], G1Point.INFINITY, G1Point.INFINITY⟩
  have hcircuit := (activeCircuit_eq_ok.mp hsetup.circuit).1
  obtain ⟨st', hst'⟩ := hf.exists_continueRange hslots hcircuit hdecoded hgens
    (by decide : 0 + 1 ≤ plainDesc.numComputeLayers) hpass (by rw [hbindings]; decide) (by decide)
  have hcontinue : continueDAGBatchVerify (Contract.single plainConfig) st 0
      (generateSessionId 0 plainCalldata.circuitHash 0) plainCalldata = .ok st' := by
    simp only [continueDAGBatchVerify, bind_eq_ok, reverting_eq_ok, require_eq_ok,
      decide_eq_true_eq, hf.held.session_eq]
    exact ⟨(), rfl, (), rfl, (), (by decide : 0 < 1), (), checkProofFormat_selector _, hst'⟩
  have hall : continueAll (Contract.single plainConfig) 0
      (generateSessionId 0 plainCalldata.circuitHash 0) plainCalldata 1 st = .ok st' := by
    simp only [continueAll, bind_eq_ok, pure_eq_ok]
    exact ⟨st', hcontinue, rfl⟩
  obtain ⟨config, proof, hconfig, hproof, hreload, -⟩ := session_reloads_singlePass hslots hstart
  obtain rfl := Except.ok.inj (hsetup.circuit.symm.trans hconfig)
  obtain rfl := Except.ok.inj (hdecoded.symm.trans hproof)
  exact ⟨st, st', hstart, hall, hreload 1 st' hall⟩

/-- The same session, as one of the session model. -/
theorem plain_session_refines : ∃ st₁ st b₁ b,
    startDAGBatchVerify (Contract.single plainConfig) (fun _ => 7) 0 0 plainCalldata =
        .ok (plainSessionId, st₁) ∧
      continueCalls (Contract.single plainConfig) plainSessionId [(0, plainCalldata)] st₁ = .ok st ∧
      modelCalls plainSessionId [(0, plainCalldata)] b₁ = .ok b ∧
      Holds st (slotsOf plainSessionId) (b.sessions plainSessionId) (b.crossBatch plainSessionId) := by
  have hslots := slotsApart_plain
  rw [← generateSessionId_plain] at hslots ⊢
  have hdecoded : decodeProofForDag (calldataReader (plainCalldata.proof.drop 4)) =
      .ok plainProof := by
    have hdrop : plainCalldata.proof.drop 4 = plainProofWords.flatMap wordToBeBytes := rfl
    rw [hdrop, calldataReader_flatMap_wordToBeBytes (by decide)]
    decide
  have hgens : decodePedersenGens (calldataReader plainCalldata.gensData) =
      .ok ⟨[], G1Point.INFINITY, G1Point.INFINITY⟩ := by
    have hdata : plainCalldata.gensData = [0, 0, 0, 0, 0].flatMap wordToBeBytes := rfl
    rw [hdata, calldataReader_flatMap_wordToBeBytes (by decide)]
    decide
  have hgenerators : checkGenerators plainConfig plainGensData = .ok () := by
    simp [checkGenerators, plainConfig]
  obtain ⟨⟨ctx, s⟩, hpass, hempty⟩ := okAnd_eq_true.mp singlePass_plain
  simp only [Bool.and_eq_true, decide_eq_true_eq] at hempty
  obtain ⟨ctx₀, s₀, runs, houtput, hlayers⟩ := singlePass_eq_ok.mp hpass
  have hchallenges : ctx₀.outputChallenges = [] :=
    (congrArg VerifyContext.outputChallenges (processLayers_ctx solBackend hlayers)).symm.trans
      hempty.2
  obtain ⟨st₁, hstart⟩ := @exists_start (Contract.single plainConfig) plainCalldata plainConfig _ _
    0 0 _ (fun _ => 7) hslots ⟨rfl, activeCircuit_single rfl, checkProofFormat_selector _,
      hgenerators, hdecoded, houtput⟩ (by rw [hchallenges]; decide)
  obtain ⟨-, config, proof, _, _, hsetup, hfollows⟩ := follows_start hslots hstart
  obtain rfl : plainConfig = config :=
    Except.ok.inj ((activeCircuit_single rfl).symm.trans hsetup.circuit)
  obtain rfl := Except.ok.inj (hdecoded.symm.trans hsetup.decoded)
  have hf := hfollows ⟨[], G1Point.INFINITY, G1Point.INFINITY⟩
  obtain ⟨st, hst⟩ := hf.exists_continueRange hslots (activeCircuit_eq_ok.mp hsetup.circuit).1
    hdecoded hgens (by decide : 0 + 1 ≤ plainDesc.numComputeLayers) hpass
    (by rw [hempty.1]; decide) (by decide)
  have hcontinue : continueDAGBatchVerify (Contract.single plainConfig) st₁ 0
      (generateSessionId 0 plainCalldata.circuitHash 0) plainCalldata = .ok st := by
    simp only [continueDAGBatchVerify, bind_eq_ok, reverting_eq_ok, require_eq_ok,
      decide_eq_true_eq, hf.held.session_eq]
    exact ⟨(), rfl, (), rfl, (), (by decide : 0 < 1), (), checkProofFormat_selector _, hst⟩
  have hrun : continueCalls (Contract.single plainConfig)
      (generateSessionId 0 plainCalldata.circuitHash 0) [(0, plainCalldata)] st₁ = .ok st := by
    rw [continueCalls, List.foldlM_cons, hcontinue]
    rfl
  obtain ⟨b₁, b, -, hb, hholds, -⟩ := session_refines hslots hstart hrun
  exact ⟨st₁, st, b₁, b, hstart, hrun, hb, hholds⟩

end Plain

end WorldZk.BatchReload
