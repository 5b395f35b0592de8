import WorldZk.FlatArrays
import WorldZk.GroupChecks
import WorldZk.LayerChecks
import WorldZk.SolidityVerifier

/-!
# The hybrid verifier

`GKRDAGHybridVerifier` and `RemainderVerifier.verifyDAGWithGroth16`. The transcript is replayed
without any check; the scalar arithmetic comes as public outputs of a Groth16 proof, and the curve
equations are checked with these outputs.
-/

namespace WorldZk.HybridVerifier

open CheckedRuns PoseidonSponge ProofTypes VerifierBackend CommittedSumcheck DagLayers InputLayers
open FieldArithmetic Bn254Moduli FlatArrays ProofDecoding Transcript SolidityVerifier

/-! ## Transcript replay -/

structure DAGInputGroupChallenges where
  rlcCoeffs : List ℕ
  podpChallenge : ℕ
  lBindings : List ℕ
  rBindings : List ℕ
deriving DecidableEq, Repr

/-- All challenges of a replay. The challenges of a layer are those of `LayerChallenges`. -/
structure DAGTranscriptChallenges where
  outputChallenges : List ℕ
  layers : List LayerChallenges
  inputGroups : List DAGInputGroupChallenges
  allBindings : List (List ℕ)
deriving DecidableEq, Repr

/-- `_replayOneLayer`. -/
def replayOneLayer (layerIdx : ℕ) (lp : CommittedLayerProof) (desc : DAGCircuitDescription)
    (s : Sponge) : LayerChallenges :=
  layerChallenges solBackend (numLayerClaims desc layerIdx) lp s

/-- The layer loop of `replayDAGTranscriptFull`. -/
def replayLayers (proof : GKRProof) (desc : DAGCircuitDescription) :
    List ℕ → Sponge → Checked (List LayerChallenges × Sponge)
  | [], s => pure ([], s)
  | i :: is, s => do
    let lp ← getIdx proof.layerProofs i
    let ch := replayOneLayer i lp desc s
    let (chs, s) ← replayLayers proof desc is ch.sponge
    pure (ch :: chs, s)

/-- One group of `_replayOneInputLayer`, with the halves of its first claim's point that
`_extractGroupBindings` adds. -/
def replayOneGroup (dagProof : DAGInputLayerProof) (claimPoints : List (List ℕ)) (plan : EvalPlan)
    (group : List ℕ) (g : ℕ) (s : Sponge) : Checked (DAGInputGroupChallenges × Sponge) := do
  let comEval ← getIdx dagProof.comEvals g
  let podp ← getIdx dagProof.podps g
  let ch := groupChallenges solBackend group.length comEval podp s
  let firstPoint ← getIdx claimPoints (← getIdx group 0)
  let lBindings ← (List.range plan.lHalfLen).mapM (getIdx firstPoint)
  let rBindings ← (List.range' plan.lHalfLen plan.logNCols).mapM (getIdx firstPoint)
  pure (⟨ch.rlcCoeffs, ch.podpChallenge, lBindings, rBindings⟩, ch.sponge)

def replayGroups (dagProof : DAGInputLayerProof) (claimPoints : List (List ℕ)) (plan : EvalPlan) :
    List (List ℕ × ℕ) → Sponge → Checked (List DAGInputGroupChallenges × Sponge)
  | [], s => pure ([], s)
  | (group, g) :: rest, s => do
    let (ch, s) ← replayOneGroup dagProof claimPoints plan group g s
    let (chs, s) ← replayGroups dagProof claimPoints plan rest s
    pure (ch :: chs, s)

/-- `_replayInputLayersFull`. Public inputs have no part in the transcript. -/
def replayInputLayersFull (desc : DAGCircuitDescription) (allBindings : List (List ℕ))
    (dagInputProofs : List DAGInputLayerProof) :
    List ℕ → ℕ → Sponge → Checked (List DAGInputGroupChallenges)
  | [], _, _ => pure []
  | inputIdx :: is, dagInputIdx, s => do
    if ← getIdx desc.inputIsCommitted inputIdx then
      let claimPoints ←
        collectClaimPoints solBackend desc allBindings (desc.numComputeLayers + inputIdx)
      let dagProof ← getIdx dagInputProofs dagInputIdx
      let plan ← sortAndGroupClaims dagProof claimPoints
      let (chs, s) ← replayGroups dagProof claimPoints plan plan.groups.zipIdx s
      let rest ← replayInputLayersFull desc allBindings dagInputProofs is (dagInputIdx + 1) s
      pure (chs ++ rest)
    else replayInputLayersFull desc allBindings dagInputProofs is dagInputIdx s

/-- `replayDAGTranscriptFull`. -/
def replayDAGTranscriptFull (proof : GKRProof) (desc : DAGCircuitDescription)
    (dagInputProofs : List DAGInputLayerProof) (s : Sponge) : Checked DAGTranscriptChallenges := do
  let (ctx, s) ← outputPhase solBackend proof s
  let (layers, s) ← replayLayers proof desc (List.range desc.numComputeLayers) s
  let allBindings := layers.map (·.bindings)
  let inputGroups ← replayInputLayersFull desc allBindings dagInputProofs
    (List.range desc.numInputLayers) 0 s
  pure ⟨ctx.outputChallenges, layers, inputGroups, allBindings⟩

/-! ## The outputs of the Groth16 proof -/

structure DAGGroth16Outputs where
  rlcBeta : List ℕ
  zDotJStar : List ℕ
  lTensorFlat : List ℕ
  lTensorOffsets : List ℕ
  zDotR : List ℕ
  mleEval : List ℕ
deriving DecidableEq, Repr

/-- The public input layers among `is`. -/
def publicInputs (desc : DAGCircuitDescription) (is : List ℕ) : Checked (List ℕ) :=
  is.filterM fun i => do pure (!(← getIdx desc.inputIsCommitted i))

/-- `_countDAGPublicClaims`: all atoms that target a public input. -/
def countDAGPublicClaims (desc : DAGCircuitDescription) : Checked ℕ := do
  let is ← publicInputs desc (List.range desc.numInputLayers)
  pure (is.map fun i => countClaimsFor (desc.numComputeLayers + i) desc).sum

/-- The number of `lTensor` entries of a group: one tensor for each of its claims. -/
def lTensorSize (group : DAGInputGroupChallenges) : ℕ :=
  group.rlcCoeffs.length * solBackend.shl1 group.lBindings.length

/-- `_computeLTensorOffsets`. -/
def computeLTensorOffsets (inputGroups : List DAGInputGroupChallenges) (lTensorLen : ℕ) :
    Call (List ℕ) := do
  require ((inputGroups.map lTensorSize).sum == lTensorLen) .lTensorOffsetsMismatch
  pure (offsetsFrom 0 (inputGroups.map lTensorSize))

/-- `_parseDAGGroth16Outputs`. -/
def parseDAGGroth16Outputs (groth16Outputs : List ℕ) (desc : DAGCircuitDescription)
    (challenges : DAGTranscriptChallenges) : Call DAGGroth16Outputs := do
  let n := desc.numComputeLayers
  let g := challenges.inputGroups.length
  let p ← liftVerifier (countDAGPublicClaims desc)
  let fixedLen := 2 * n + g + p
  require (decide (fixedLen ≤ groth16Outputs.length)) .dagGroth16OutputsTooShort
  let lTensorLen := groth16Outputs.length - fixedLen
  let offsets ← computeLTensorOffsets challenges.inputGroups lTensorLen
  pure { rlcBeta := groth16Outputs.take n
         zDotJStar := (groth16Outputs.drop n).take n
         lTensorFlat := (groth16Outputs.drop (2 * n)).take lTensorLen
         lTensorOffsets := offsets
         zDotR := (groth16Outputs.drop (2 * n + lTensorLen)).take g
         mleEval := (groth16Outputs.drop (2 * n + lTensorLen + g)).take p }

/-- `collectPubClaimPoints`: one array for the claims of all public inputs. -/
def collectPubClaimPoints (desc : DAGCircuitDescription) (allBindings : List (List ℕ)) :
    Checked (List (List ℕ)) := do
  let is ← publicInputs desc (List.range desc.numInputLayers)
  let points ← is.mapM fun i => do
    let atoms ← routedAtoms desc (desc.numComputeLayers + i) desc.numComputeLayers
    atoms.mapM fun ja => do resolvePoint desc ja.2 (← getIdx allBindings ja.1)
  solBackend.fillClaims (is.map fun i => countClaimsFor (desc.numComputeLayers + i) desc).sum
    points.flatten

/-- `buildDAGGroth16Inputs`. -/
def buildDAGGroth16Inputs (circuitHashFr : ℕ × ℕ) (challenges : DAGTranscriptChallenges)
    (pubClaimPoints : List (List ℕ)) (publicInputValues : List ℕ) (outputs : DAGGroth16Outputs) :
    List ℕ :=
  [circuitHashFr.1, circuitHashFr.2] ++ challenges.outputChallenges ++
    challenges.layers.flatMap (fun lc =>
      lc.rlcCoeffs ++ lc.bindings ++ lc.rhos ++ lc.gammas ++ [lc.podpChallenge] ++
        lc.popChallenges) ++
    challenges.inputGroups.flatMap (fun g =>
      g.rlcCoeffs ++ [g.podpChallenge] ++ g.lBindings ++ g.rBindings) ++
    pubClaimPoints.flatten ++ publicInputValues ++ outputs.rlcBeta ++ outputs.zDotJStar ++
    outputs.lTensorFlat ++ outputs.zDotR ++ outputs.mleEval

/-! ## Curve equations -/

/-- `_msmWithTruncatedGens`. -/
def hybridMsm (allGens : List G1Point) (scalars : List ℕ) : Checked G1Point := do
  require (decide (scalars.length ≤ allGens.length)) .indexOutOfBounds
  multiScalarMul solBackend (allGens.take scalars.length) scalars

/-- The two equations of a dot-product proof, with the inner product `zDot` given. -/
def podpChecks (eq1Failed eq2Failed : VerifyError) (podp : PODPProof) (comX comY : G1Point)
    (podpChallenge zDot : ℕ) (gens : PedersenGens) : Checked Unit := do
  let lhs1 ← podpLhs solBackend comX podpChallenge podp.commitD
  let comZ ← ecAdd (← hybridMsm gens.messageGens podp.zVector)
    (← scalarMul gens.blindingGen podp.zDelta)
  require (decide (lhs1 = comZ)) eq1Failed
  let lhs2 ← podpLhs solBackend comY podpChallenge podp.commitDDotA
  let comZDotA ← ecAdd (← scalarMul gens.scalarGen zDot) (← scalarMul gens.blindingGen podp.zBeta)
  require (decide (lhs2 = comZDotA)) eq2Failed

/-- `_verifyLayerPODPChecks`. -/
def verifyLayerPODPChecks (podp : PODPProof) (alpha dotProduct : G1Point)
    (podpChallenge zDotJStar : ℕ) (gens : PedersenGens) : Checked Unit :=
  podpChecks .podpEq1Failed .podpEq2Failed podp alpha dotProduct podpChallenge zDotJStar gens

/-- `_verifyInputPODPChecks`. -/
def verifyInputPODPChecks (podp : PODPProof) (comX comY : G1Point) (podpChallenge zDotR : ℕ)
    (gens : PedersenGens) : Checked Unit :=
  podpChecks .inputPODPEq1Failed .inputPODPEq2Failed podp comX comY podpChallenge zDotR gens

/-- `_verifyLayerPoPs`, over the product proofs with their challenges. -/
def verifyLayerPoPs (commitments : List G1Point) (gens : PedersenGens) :
    ℕ → List (ProofOfProduct × ℕ) → Checked Bool
  | _, [] => pure true
  | commitIdx, (pop, c) :: pops => do
    require (decide (commitIdx + 2 < commitments.length)) .notEnoughCommitsForPoP
    let valid ← popCheckEquations solBackend pop (← getIdx commitments commitIdx)
      (← getIdx commitments (commitIdx + 1)) (← getIdx commitments (commitIdx + 2)) gens c
    if valid then verifyLayerPoPs commitments gens (commitIdx + 1) pops else pure false

/-- `_verifyComputeLayerEC`: a layer without rounds is passed over. -/
def verifyComputeLayerEC (layerIdx : ℕ) (lp : CommittedLayerProof) (layerCh : LayerChallenges)
    (rlcBeta zDotJStar : ℕ) (desc : DAGCircuitDescription) (gens : PedersenGens) :
    Checked Unit := do
  let n := lp.sumcheckProof.messages.length
  if n = 0 then pure ()
  else
    let alpha ← multiScalarMul solBackend lp.sumcheckProof.messages layerCh.gammas
    let oracleEval ← computeOracleEval solBackend lp.commitments layerIdx rlcBeta desc
    let dotProduct ← computeDotProduct solBackend lp.sumcheckProof.sum oracleEval
      (← getIdx layerCh.rhos 0) (← getIdx layerCh.rhos n)
    verifyLayerPODPChecks lp.sumcheckProof.podp alpha dotProduct layerCh.podpChallenge zDotJStar gens
    require (← verifyLayerPoPs lp.commitments gens 0 (lp.pops.zip layerCh.popChallenges)) .popFailed

/-- `_foldLTensor`: the sum of the tensors of a group's claims, each of `tensorSize` entries. -/
def foldLTensor (lTensorFull : List ℕ) (tensorSize : ℕ) : Checked (List ℕ) :=
  if lTensorFull.length = tensorSize then pure lTensorFull
  else do
    require (tensorSize != 0) .divisionByZero
    pure ((List.range (lTensorFull.length / tensorSize)).foldl
      (fun combined ci => combined.zipWith solBackend.add
        ((lTensorFull.drop (ci * tensorSize)).take tensorSize))
      (List.replicate tensorSize 0))

/-- `_verifyOneInputGroupEC`. -/
def verifyOneInputGroupEC (dagProof : DAGInputLayerProof) (evalIdx groupIdx : ℕ)
    (challenges : DAGTranscriptChallenges) (outputs : DAGGroth16Outputs) (gens : PedersenGens) :
    Checked Unit := do
  let lTensorFull ←
    readSlice .indexOutOfBounds outputs.lTensorOffsets outputs.lTensorFlat groupIdx
  let lTensor ← foldLTensor lTensorFull dagProof.commitmentRows.length
  let comX ← multiScalarMul solBackend dagProof.commitmentRows lTensor
  let comY ← getIdx dagProof.comEvals evalIdx
  let podp ← getIdx dagProof.podps evalIdx
  let group ← getIdx challenges.inputGroups groupIdx
  let zDotR ← getIdx outputs.zDotR groupIdx
  verifyInputPODPChecks podp comX comY group.podpChallenge zDotR gens

/-- `_verifyInputLayersEC`: the groups of a committed input are as many as its evaluation proofs,
and are counted on from input to input. -/
def verifyInputLayersEC (desc : DAGCircuitDescription) (challenges : DAGTranscriptChallenges)
    (outputs : DAGGroth16Outputs) (gens : PedersenGens)
    (dagInputProofs : List DAGInputLayerProof) : List ℕ → ℕ → ℕ → Checked Unit
  | [], _, _ => pure ()
  | inputIdx :: is, dagInputIdx, groupIdx => do
    if ← getIdx desc.inputIsCommitted inputIdx then
      let dagProof ← getIdx dagInputProofs dagInputIdx
      (List.range dagProof.podps.length).forM fun g =>
        verifyOneInputGroupEC dagProof g (groupIdx + g) challenges outputs gens
      verifyInputLayersEC desc challenges outputs gens dagInputProofs is (dagInputIdx + 1)
        (groupIdx + dagProof.podps.length)
    else verifyInputLayersEC desc challenges outputs gens dagInputProofs is dagInputIdx groupIdx

/-- `_verifyOnePublicClaimEC`. -/
def verifyOnePublicClaimEC (proof : GKRProof) (desc : DAGCircuitDescription)
    (allBindings : List (List ℕ)) (input : InputData) (mleEval : List ℕ) (gens : PedersenGens)
    (atom : ℕ × ℕ) (claimIdx : ℕ) : Checked Unit := do
  let claim ← getIdx input.publicValueClaims claimIdx
  let commitment ← atomCommitment proof desc atom
  require (decide (claim.commitment = commitment)) .publicClaimCommitmentMismatch
  let expected ← ecAdd (← scalarMul gens.scalarGen claim.value)
    (← scalarMul gens.blindingGen claim.blinding)
  require (decide (expected = claim.commitment)) .pedersenOpeningInvalid
  require ((← getIdx mleEval claimIdx) == claim.value) .mleEvalMismatch
  let claimPoint ← resolvePoint desc atom.2 (← getIdx allBindings atom.1)
  let onChainMle ← evaluateMleFromData solBackend input.publicInputs claimPoint
  require (onChainMle == claim.value) .onChainMLEMismatch

/-- `_verifyPublicClaimsForLayer`. -/
def verifyPublicClaimsForLayer (proof : GKRProof) (desc : DAGCircuitDescription)
    (allBindings : List (List ℕ)) (input : InputData) (mleEval : List ℕ) (gens : PedersenGens)
    (targetLayer startClaimIdx : ℕ) : Checked ℕ := do
  let atoms ← routedAtoms desc targetLayer desc.numComputeLayers
  (atoms.zipIdx).forM fun ac =>
    verifyOnePublicClaimEC proof desc allBindings input mleEval gens ac.1 (startClaimIdx + ac.2)
  pure (startClaimIdx + atoms.length)

/-- `_verifyPublicValueClaimsEC`. -/
def verifyPublicValueClaimsEC (proof : GKRProof) (desc : DAGCircuitDescription)
    (allBindings : List (List ℕ)) (input : InputData) (mleEval : List ℕ) (gens : PedersenGens) :
    List ℕ → ℕ → Checked Unit
  | [], _ => pure ()
  | inputIdx :: is, pubClaimIdx => do
    if ← getIdx desc.inputIsCommitted inputIdx then
      verifyPublicValueClaimsEC proof desc allBindings input mleEval gens is pubClaimIdx
    else
      let next ← verifyPublicClaimsForLayer proof desc allBindings input mleEval gens
        (desc.numComputeLayers + inputIdx) pubClaimIdx
      verifyPublicValueClaimsEC proof desc allBindings input mleEval gens is next

/-- `verifyDAGECChecks`. -/
def verifyDAGECChecks (proof : GKRProof) (challenges : DAGTranscriptChallenges)
    (outputs : DAGGroth16Outputs) (gens : PedersenGens) (desc : DAGCircuitDescription)
    (input : InputData) : Checked Unit := do
  (List.range desc.numComputeLayers).forM fun i => do
    verifyComputeLayerEC i (← getIdx proof.layerProofs i) (← getIdx challenges.layers i)
      (← getIdx outputs.rlcBeta i) (← getIdx outputs.zDotJStar i) desc gens
  verifyInputLayersEC desc challenges outputs gens input.dagInputProofs
    (List.range desc.numInputLayers) 0 0
  verifyPublicValueClaimsEC proof desc challenges.allBindings input outputs.mleEval gens
    (List.range desc.numInputLayers) 0

/-! ## The contract call -/

/-- The deployed Groth16 verifier of a circuit: whether a proof is accepted for public inputs. -/
abbrev Groth16Verifier : Type := List ℕ → List ℕ → Bool

/-- `_verifyDAGGroth16`. -/
def verifyDAGGroth16 (groth16Verifier : Option Groth16Verifier) (circuitHash : ℕ)
    (embeddedPubInputs : List ℕ) (challenges : DAGTranscriptChallenges) (groth16Proof : List ℕ)
    (outputs : DAGGroth16Outputs) (desc : DAGCircuitDescription) : Call Unit := do
  let pubClaimPoints ← liftVerifier (collectPubClaimPoints desc challenges.allBindings)
  let groth16Inputs := buildDAGGroth16Inputs (hashToFqPair (wordToBeBytes circuitHash)) challenges
    pubClaimPoints embeddedPubInputs outputs
  match groth16Verifier with
  | none => throw .dagGroth16VerifierNotSet
  | some verifier => require (verifier groth16Proof groth16Inputs) .groth16VerificationFailed

/-- `verifyDAGWithGroth16`. The verifier contract of the circuit is not part of the repository. -/
def verifyDAGWithGroth16 (c : Contract) (groth16Verifiers : ℕ → Option Groth16Verifier)
    (innerProof : List UInt8) (circuitHash : ℕ) (_publicInputs gensData : List UInt8)
    (groth16Proof groth16Outputs : List ℕ) : Call Unit := do
  require (!c.paused) .enforcedPause
  let config ← activeCircuit c circuitHash
  checkProofFormat innerProof
  checkGenerators config gensData
  let decoded ← liftDecode (decodeProofForDag (calldataReader (innerProof.drop 4)))
  let challenges ← liftVerifier (replayDAGTranscriptFull decoded.gkrProof config.description
    decoded.dagInputProofs (setupDagTranscript circuitHash decoded))
  let outputs ← parseDAGGroth16Outputs groth16Outputs config.description challenges
  verifyDAGGroth16 (groth16Verifiers circuitHash) circuitHash decoded.embeddedPubInputs challenges
    groth16Proof outputs config.description
  let gens ← liftDecode (decodePedersenGens (calldataReader gensData))
  liftVerifier (verifyDAGECChecks decoded.gkrProof challenges outputs gens config.description
    (inputData decoded))

end WorldZk.HybridVerifier
