import WorldZk.FlatArrays
import WorldZk.GroupChecks
import WorldZk.SolidityVerifier

/-!
# Batch verification over several transactions

`DAGBatchVerifier` and the start, continue and finalize calls of `RemainderVerifier`. A session
stores the sponge, the bindings of the layers checked so far and its progress through the input
layers; proof and generators come with every call again.
-/

namespace WorldZk.BatchSessions

open CheckedRuns PoseidonSponge ProofTypes VerifierBackend DagLayers InputLayers ProofDecoding
open Transcript Keccak256 SolidityVerifier FlatArrays
open scoped NamedInstances

def LAYERS_PER_BATCH : ℕ := 8

def GROUPS_PER_FINALIZE_BATCH : ℕ := 16

/-! ## Storage -/

/-- A stored session. A zero circuit hash marks an empty slot. -/
structure DAGBatchSession where
  circuitHash : ℕ
  verifier : ℕ
  nextBatchIdx : ℕ
  totalBatches : ℕ
  numComputeLayers : ℕ
  finalized : Bool
  sponge : Sponge
  outputEval : G1Point
  finalizeInputIdx : ℕ
  finalizeGroupsDone : ℕ
deriving DecidableEq, Repr

def DAGBatchSession.empty : DAGBatchSession :=
  ⟨0, 0, 0, 0, 0, false, ⟨0, 0, 0, 0⟩, G1Point.INFINITY, 0, 0⟩

/-- The arrays kept between the transactions of a session. -/
structure CrossBatchData where
  bindingsFlat : List ℕ
  bindingsOffsets : List ℕ
  outputChallenges : List ℕ
deriving DecidableEq, Repr

/-- The contract with its session storage. -/
structure BatchContract extends Contract where
  sessions : ℕ → DAGBatchSession
  crossBatch : ℕ → CrossBatchData

/-- A contract without sessions. -/
def BatchContract.fresh (c : Contract) : BatchContract :=
  { c with sessions := fun _ => .empty, crossBatch := fun _ => ⟨[], [], []⟩ }

def BatchContract.store (c : BatchContract) (sessionId : ℕ) (session : DAGBatchSession)
    (crossData : CrossBatchData) : BatchContract :=
  { c with sessions := Function.update c.sessions sessionId session,
           crossBatch := Function.update c.crossBatch sessionId crossData }

/-- The description under a hash; an empty slot reads as an empty description. -/
def storedDescription (c : Contract) (circuitHash : ℕ) : DAGCircuitDescription :=
  match c.dagCircuits circuitHash with
  | some config => config.description
  | none => ⟨0, 0, [], [], [], [], [], [], [], [], [], [], []⟩

def generateSessionId (sender circuitHash blockNum : ℕ) : ℕ :=
  keccak256 ((wordToBeBytes sender).drop 12 ++ wordToBeBytes circuitHash ++ wordToBeBytes blockNum)

def computeNumComputeBatches (numComputeLayers : ℕ) : ℕ :=
  (numComputeLayers + LAYERS_PER_BATCH - 1) / LAYERS_PER_BATCH

def batchLayerRange (batchIdx numComputeLayers : ℕ) : ℕ × ℕ :=
  let startLayer := batchIdx * LAYERS_PER_BATCH
  let endLayer := startLayer + LAYERS_PER_BATCH
  (startLayer, if numComputeLayers < endLayer then numComputeLayers else endLayer)

theorem batchLayerRange_eq (batchIdx numComputeLayers : ℕ) :
    batchLayerRange batchIdx numComputeLayers = (batchIdx * LAYERS_PER_BATCH,
      min ((batchIdx + 1) * LAYERS_PER_BATCH) numComputeLayers) := by
  unfold batchLayerRange LAYERS_PER_BATCH
  refine Prod.ext rfl ?_
  simp only
  split <;> omega

theorem mul_lt_of_lt_computeNumComputeBatches {batchIdx numComputeLayers : ℕ}
    (h : batchIdx < computeNumComputeBatches numComputeLayers) :
    batchIdx * LAYERS_PER_BATCH < numComputeLayers := by
  unfold computeNumComputeBatches LAYERS_PER_BATCH at h
  unfold LAYERS_PER_BATCH
  omega

/-- `reconstructBindings`: layers that were not processed yet have no bindings. -/
def reconstructBindings (data : CrossBatchData) (numComputeLayers : ℕ) :
    Checked (List (List ℕ)) :=
  (List.range numComputeLayers).mapM fun i =>
    if i + 1 < data.bindingsOffsets.length then
      readSlice .indexOutOfBounds data.bindingsOffsets data.bindingsFlat i
    else pure []

/-- The stored form of the given bindings. -/
def storedBindings (bindings : List (List ℕ)) (outputChallenges : List ℕ) : CrossBatchData :=
  ⟨bindings.flatten, offsetsFrom 0 (bindings.map List.length), outputChallenges⟩

@[simp] theorem storedBindings_outputChallenges (bindings : List (List ℕ))
    (outputChallenges : List ℕ) :
    (storedBindings bindings outputChallenges).outputChallenges = outputChallenges := rfl

def updateBindings (data : CrossBatchData) (allBindings : List (List ℕ)) (endLayer : ℕ) :
    CrossBatchData :=
  storedBindings (allBindings.take endLayer) data.outputChallenges

/-! ## Start and continue -/

/-- `startDAGBatchVerify`: the transcript set-up and the output phase. -/
def startDAGBatchVerify (c : BatchContract) (sender blockNum : ℕ) (proof : List UInt8)
    (circuitHash : ℕ) (_publicInputs gensData : List UInt8) : Call (ℕ × BatchContract) := do
  require (!c.paused) .enforcedPause
  let config ← activeCircuit c.toContract circuitHash
  checkProofFormat proof
  checkGenerators config gensData
  let sessionId := generateSessionId sender circuitHash blockNum
  let (gkrProof, _, inputs) ← liftDecode (decodeProofSections (calldataReader (proof.drop 4)))
  let (embedded, _) ←
    liftDecode ((extractEmbeddedPublicInputs (calldataReader (proof.drop 4))).run 0)
  let sponge := setupTranscript solOps (wordToBeBytes circuitHash) embedded
    (inputCommitCoords inputs)
  let numComputeLayers := config.description.numComputeLayers
  let (ctx, s) ← liftVerifier (outputPhase solBackend gkrProof sponge)
  let session : DAGBatchSession :=
    ⟨circuitHash, sender, 0, computeNumComputeBatches numComputeLayers, numComputeLayers, false, s,
      ctx.outputEval, 0, 0⟩
  pure (sessionId, c.store sessionId session ⟨[], [0], ctx.outputChallenges⟩)

/-- `verifyComputeLayersBatch`: the given layers, each of which fills its own slot. -/
def verifyComputeLayersBatch (proof : GKRProof) (desc : DAGCircuitDescription)
    (gens : PedersenGens) (outputChallenges : List ℕ) (outputEval : G1Point) :
    List ℕ → List (List ℕ) → Sponge → Checked (List (List ℕ) × Sponge)
  | [], allBindings, s => pure (allBindings, s)
  | i :: is, allBindings, s => do
    let (run, s) ←
      processOneLayer solBackend i proof desc gens ⟨allBindings, outputChallenges, outputEval⟩ s
    verifyComputeLayersBatch proof desc gens outputChallenges outputEval is
      (allBindings.set i run.bindings) s

/-- The checks on a stored session that continue and finalize share. -/
def checkSession (session : DAGBatchSession) (sender : ℕ) : Call Unit := do
  require (session.circuitHash != 0) .batchSessionNotFound
  require (session.verifier == sender) .batchUnauthorized
  require (!session.finalized) .batchAlreadyFinalized

/-- `continueDAGBatchVerify`: the next batch of compute layers. -/
def continueDAGBatchVerify (c : BatchContract) (sender sessionId : ℕ) (proof : List UInt8)
    (_publicInputs gensData : List UInt8) : Call BatchContract := do
  require (!c.paused) .enforcedPause
  let session := c.sessions sessionId
  checkSession session sender
  require (decide (session.nextBatchIdx < session.totalBatches)) .batchAllComputeDone
  checkProofFormat proof
  let crossData := c.crossBatch sessionId
  let allBindings ← liftVerifier (reconstructBindings crossData session.numComputeLayers)
  let (gkrProof, _, _) ← liftDecode (decodeProofSections (calldataReader (proof.drop 4)))
  let gens ← liftDecode (decodePedersenGens (calldataReader gensData))
  let (startLayer, endLayer) := batchLayerRange session.nextBatchIdx session.numComputeLayers
  let (allBindings, s) ← liftVerifier (verifyComputeLayersBatch gkrProof
    (storedDescription c.toContract session.circuitHash) gens crossData.outputChallenges
    session.outputEval (List.range' startLayer (endLayer - startLayer)) allBindings session.sponge)
  liftVerifier (require (decide (startLayer ≤ endLayer)) .arithmeticOverflow)
  pure (c.store sessionId { session with nextBatchIdx := session.nextBatchIdx + 1, sponge := s }
    (updateBindings crossData allBindings endLayer))

/-! ## Finalize -/

/-- The progress of one finalize call. -/
structure FinalizeStepCtx where
  inputIdx : ℕ
  groupsDone : ℕ
  dagInputIdx : ℕ
  pubClaimIdx : ℕ
  done : Bool
deriving DecidableEq, Repr

/-- All groups of a committed input are checked. -/
def FinalizeStepCtx.afterCommitted (f : FinalizeStepCtx) : FinalizeStepCtx :=
  { f with dagInputIdx := f.dagInputIdx + 1, groupsDone := 0, inputIdx := f.inputIdx + 1 }

/-- The claims of a public input are checked, up to claim `next`. -/
def FinalizeStepCtx.afterPublic (f : FinalizeStepCtx) (next : ℕ) : FinalizeStepCtx :=
  { f with pubClaimIdx := next, inputIdx := f.inputIdx + 1 }

/-- The inputs before `inputIdx` of the given kind, weighted. -/
def countInputsBefore (desc : DAGCircuitDescription) (committed : Bool) (weight : ℕ → ℕ)
    (inputIdx : ℕ) : Checked ℕ :=
  (List.range (min inputIdx desc.numInputLayers)).foldlM
    (fun count i => do
      if (← getIdx desc.inputIsCommitted i) = committed then pure (count + weight i)
      else pure count) 0

/-- `_countCommittedBefore`. -/
def countCommittedBefore (desc : DAGCircuitDescription) (inputIdx : ℕ) : Checked ℕ :=
  countInputsBefore desc true (fun _ => 1) inputIdx

/-- `_countPublicClaimsBefore`: all atoms that target an earlier public input, whether or not a
layer's atom range contains them. -/
def countPublicClaimsBefore (desc : DAGCircuitDescription) (inputIdx : ℕ) : Checked ℕ :=
  countInputsBefore desc false (fun i => countClaimsFor (desc.numComputeLayers + i) desc) inputIdx

/-- One claim of `_verifyPublicInputClaimsFromCtx`. -/
def verifyPublicClaimFromCtx (gens : PedersenGens) (claimPoint : List ℕ) (atomCommitment : G1Point)
    (claimIdx : ℕ) (input : InputData) : Call Unit := do
  let claim ← liftVerifier (getIdx input.publicValueClaims claimIdx)
  require (decide (claim.commitment = atomCommitment)) .batchPublicClaimCommitmentMismatch
  let gValue ← liftVerifier (scalarMul gens.scalarGen claim.value)
  let hBlinding ← liftVerifier (scalarMul gens.blindingGen claim.blinding)
  let expected ← liftVerifier (ecAdd gValue hBlinding)
  require (decide (expected = claim.commitment)) .batchPedersenOpeningInvalid
  let mleVal ← liftVerifier (evaluateMleFromData solBackend input.publicInputs claimPoint)
  require (mleVal == claim.value) .batchPublicInputMLEMismatch

/-- `_verifyPublicInputClaimsFromCtx`. -/
def verifyPublicInputClaimsFromCtx (proof : GKRProof) (desc : DAGCircuitDescription)
    (gens : PedersenGens) (claimPoints : List (List ℕ)) (targetLayer pubClaimStartIdx : ℕ)
    (input : InputData) : Call ℕ := do
  let atoms ← liftVerifier (routedAtoms desc targetLayer desc.numComputeLayers)
  (atoms.zipIdx).forM fun ac => do
    let commitment ← liftVerifier (atomCommitment proof desc ac.1)
    let claimPoint ← liftVerifier (getIdx claimPoints ac.2)
    verifyPublicClaimFromCtx gens claimPoint commitment (pubClaimStartIdx + ac.2) input
  pure (pubClaimStartIdx + atoms.length)

/-- `verifyCommittedInputGroupsBatch`: the eval groups from `startGroup` up to `endGroup`. -/
def verifyCommittedInputGroupsBatch (dagProof : DAGInputLayerProof) (claimPoints : List (List ℕ))
    (gens : PedersenGens) (startGroup endGroup : ℕ) (s : Sponge) : Checked Sponge := do
  let plan ← evalPlan dagProof claimPoints
  let (_, s) ← verifyGroups solBackend dagProof claimPoints plan gens
    ((plan.groups.zipIdx.take endGroup).drop startGroup) s
  pure s

/-- The group at which a finalize call stops, out of `totalGroups`. -/
def endGroup (groupsDone totalGroups : ℕ) : ℕ :=
  min (groupsDone + GROUPS_PER_FINALIZE_BATCH) totalGroups

/-- `_processCommittedInput`: up to `GROUPS_PER_FINALIZE_BATCH` more groups, and whether some
remain. -/
def processCommittedInput (desc : DAGCircuitDescription) (gens : PedersenGens)
    (allBindings : List (List ℕ)) (input : InputData) (f : FinalizeStepCtx) (s : Sponge) :
    Checked (Bool × FinalizeStepCtx × Sponge) := do
  let claimPoints ←
    collectClaimPoints solBackend desc allBindings (desc.numComputeLayers + f.inputIdx)
  let totalGroups := claimPoints.length
  let dagProof ← getIdx input.dagInputProofs f.dagInputIdx
  let s ← verifyCommittedInputGroupsBatch dagProof claimPoints gens f.groupsDone
    (endGroup f.groupsDone totalGroups) s
  if endGroup f.groupsDone totalGroups < totalGroups then
    pure (true, { f with groupsDone := endGroup f.groupsDone totalGroups }, s)
  else pure (false, f.afterCommitted, s)

/-- `_processInputLayerLoop`, over the number of input layers that are left. -/
def processInputLayerLoop (proof : GKRProof) (desc : DAGCircuitDescription) (gens : PedersenGens)
    (allBindings : List (List ℕ)) (input : InputData) :
    ℕ → FinalizeStepCtx → Sponge → Call (FinalizeStepCtx × Sponge)
  | 0, f, s => pure ({ f with groupsDone := 0, done := true }, s)
  | n + 1, f, s => do
    if ← liftVerifier (getIdx desc.inputIsCommitted f.inputIdx) then
      let (needsMore, f, s) ←
        liftVerifier (processCommittedInput desc gens allBindings input f s)
      if needsMore then pure (f, s)
      else processInputLayerLoop proof desc gens allBindings input n f s
    else
      let targetLayer := desc.numComputeLayers + f.inputIdx
      let claimPoints ← liftVerifier (collectClaimPoints solBackend desc allBindings targetLayer)
      let next ← verifyPublicInputClaimsFromCtx proof desc gens claimPoints targetLayer
        f.pubClaimIdx input
      processInputLayerLoop proof desc gens allBindings input n (f.afterPublic next) s

/-- `_executeFinalizeStep`: the two cursors are counted again from the description. -/
def executeFinalizeStep (proof : DecodedProof) (desc : DAGCircuitDescription) (gens : PedersenGens)
    (allBindings : List (List ℕ)) (session : DAGBatchSession) :
    Call (FinalizeStepCtx × Sponge) := do
  let dagInputIdx ← liftVerifier (countCommittedBefore desc session.finalizeInputIdx)
  let pubClaimIdx ← liftVerifier (countPublicClaimsBefore desc session.finalizeInputIdx)
  processInputLayerLoop proof.gkrProof desc gens allBindings (inputData proof)
    (desc.numInputLayers - session.finalizeInputIdx)
    ⟨session.finalizeInputIdx, session.finalizeGroupsDone, dagInputIdx, pubClaimIdx, false⟩
    session.sponge

/-- `finalizeDAGBatchVerify`. -/
def finalizeDAGBatchVerify (c : BatchContract) (sender sessionId : ℕ) (proof : List UInt8)
    (_publicInputs gensData : List UInt8) : Call (Bool × BatchContract) := do
  require (!c.paused) .enforcedPause
  let session := c.sessions sessionId
  checkSession session sender
  require (decide (session.totalBatches ≤ session.nextBatchIdx)) .batchComputeNotDone
  checkProofFormat proof
  let decoded ← liftDecode (decodeProofForDag (calldataReader (proof.drop 4)))
  let gens ← liftDecode (decodePedersenGens (calldataReader gensData))
  let crossData := c.crossBatch sessionId
  let allBindings ← liftVerifier (reconstructBindings crossData session.numComputeLayers)
  let (f, s) ← executeFinalizeStep decoded
    (storedDescription c.toContract session.circuitHash) gens allBindings session
  let session := { session with finalizeInputIdx := f.inputIdx, finalizeGroupsDone := f.groupsDone,
                                sponge := s, finalized := f.done }
  pure (f.done, c.store sessionId session crossData)

end WorldZk.BatchSessions
