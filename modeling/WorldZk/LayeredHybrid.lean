import WorldZk.HybridChecks
import WorldZk.LayeredChecks

/-!
# The layered hybrid verifier

`GKRHybridVerifier` and `RemainderVerifier.verifyWithGroth16`. The replay duplicates the transcript
of `GKRVerifier.verify`, with its own number of output challenges and one stored challenge for the
product proofs of a layer; the curve equations take their scalars from the Groth16 outputs.
-/

namespace WorldZk.LayeredHybrid

open CheckedRuns PoseidonSponge ProofTypes VerifierBackend CommittedSumcheck InputLayers
open DagLayers hiding LayerRun LayerChallenges computeOracleEval
open Bn254Moduli ProofDecoding Transcript Keccak256 SolidityVerifier LayeredVerifier
open HybridVerifier hiding publicInputs

/-! ## Transcript replay -/

/-- The challenges that the replay keeps of a layer. `popChallenge` is 0 in a layer without product
proofs. -/
structure LayerChallenges where
  bindings : List ℕ
  rhos : List ℕ
  gammas : List ℕ
  podpChallenge : ℕ
  popChallenge : ℕ
deriving DecidableEq, Repr

structure TranscriptChallenges where
  outputChallenges : List ℕ
  claimAggCoeff : ℕ
  layers : List LayerChallenges
  interLayerCoeffs : List ℕ
  inputRlcCoeffs : List ℕ
  inputPodpChallenge : ℕ
  mleEvalPoint : List ℕ
  inputClaimPoint : List ℕ
deriving DecidableEq, Repr

/-- The loop over a layer's product proofs: every challenge overwrites the one before. -/
def replayPops (pops : List ProofOfProduct) (s : Sponge) : ℕ × Sponge :=
  pops.foldl (fun st pop => absorbPop solBackend pop st.2) (0, s)

/-- One layer of the replay. -/
def replayLayer (lp : CommittedLayerProof) (s : Sponge) : LayerChallenges × Sponge :=
  let bindings := absorbMessagesAndDeriveBindings solBackend lp.sumcheckProof.messages s
  let s := absorbPoints solBackend bindings.2 lp.commitments
  let rhos := challenges solBackend (lp.sumcheckProof.messages.length + 1) s
  let gammas := challenges solBackend lp.sumcheckProof.messages.length rhos.2
  let podp := absorbPodp solBackend lp.sumcheckProof.podp gammas.2
  let pops := replayPops lp.pops podp.2
  (⟨bindings.1, rhos.1, gammas.1, podp.1, pops.1⟩, pops.2)

/-- The layer loop: the challenges of the layers, and the coefficients between them. -/
def replayLayers : List CommittedLayerProof → Sponge → List LayerChallenges × List ℕ × Sponge
  | [], s => ([], [], s)
  | lp :: rest, s =>
    let layer := replayLayer lp s
    if rest.isEmpty then ([layer.1], [], layer.2)
    else
      let coeff := challenge solBackend layer.2
      let others := replayLayers rest coeff.2
      (layer.1 :: others.1, coeff.1 :: others.2.1, others.2.2)

/-- `replayTranscriptAndCollectChallenges`: as many output challenges as the first layer has
messages. -/
def replayTranscriptAndCollectChallenges (proof : LayeredProof) (s : Sponge) :
    Checked TranscriptChallenges := do
  let first ← getOr .needAtLeastOneLayerProof proof.gkrProof.layerProofs 0
  let (outputChallenges, s) := challenges solBackend first.sumcheckProof.messages.length s
  let claim ← getOr .noOutputClaims proof.gkrProof.outputClaimCommitments 0
  let (claimAggCoeff, s) := challenge solBackend (absorbPoint solBackend s claim)
  let (layers, interLayerCoeffs, s) := replayLayers proof.gkrProof.layerProofs s
  let mleEvalPoint := (← getIdx layers 0).bindings
  let inputClaimPoint := (← getIdx layers (proof.gkrProof.layerProofs.length - 1)).bindings
  let (inputRlcCoeffs, s) := challenges solBackend 2 s
  let inputProof ← getOr .noInputProofs proof.inputProofs 0
  let (inputPodpChallenge, _) :=
    absorbPodp solBackend inputProof.podp (absorbPoint solBackend s inputProof.comEval)
  pure ⟨outputChallenges, claimAggCoeff, layers, interLayerCoeffs, inputRlcCoeffs,
    inputPodpChallenge, mleEvalPoint, inputClaimPoint⟩

/-! ## Curve equations -/

structure Groth16Outputs where
  rlcBeta : List ℕ
  zDotJStar : List ℕ
  lTensor : List ℕ
  zDotR : ℕ
  mleEval : ℕ
deriving DecidableEq, Repr

/-- The type of the layer with proof index `i`. -/
def layerTypeAt (circuit : CircuitDescription) (i : ℕ) : Checked ℕ := do
  require (decide (i < circuit.numLayers)) .arithmeticOverflow
  getIdx circuit.layerTypes (circuit.numLayers - 1 - i)

/-- `_verifyLayerPODP`. -/
def verifyLayerPODP (lp : CommittedLayerProof) (ch : LayerChallenges) (rlcBeta zDotJStar : ℕ)
    (layerType : ℕ) (gens : PedersenGens) : Checked Unit := do
  let alpha ← multiScalarMul solBackend lp.sumcheckProof.messages ch.gammas
  let oracleEval ← computeOracleEval lp.commitments layerType rlcBeta
  let dotProduct ← computeDotProduct solBackend lp.sumcheckProof.sum oracleEval
    (← getIdx ch.rhos 0) (← getIdx ch.rhos lp.sumcheckProof.messages.length)
  verifyLayerPODPChecks lp.sumcheckProof.podp alpha dotProduct ch.podpChallenge zDotJStar gens

/-- One layer of `verifyECChecks`: all product proofs of the layer at the stored challenge. -/
def verifyLayerEC (lp : CommittedLayerProof) (ch : LayerChallenges) (rlcBeta zDotJStar : ℕ)
    (layerType : ℕ) (gens : PedersenGens) : Checked Unit := do
  verifyLayerPODP lp ch rlcBeta zDotJStar layerType gens
  require (← verifyLayerPoPs lp.commitments gens 0 (lp.pops.map fun pop => (pop, ch.popChallenge)))
    .layerPoPFailed

/-- `_verifyInputHyrax`. -/
def verifyInputHyrax (inputProof : EvalProof) (podpChallenge : ℕ) (lTensor : List ℕ) (zDotR : ℕ)
    (gens : PedersenGens) : Checked Unit := do
  let comX ← multiScalarMul solBackend inputProof.commitmentRows lTensor
  verifyInputPODPChecks inputProof.podp comX inputProof.comEval podpChallenge zDotR gens

/-- Whether layer `i` is an input, committed or public. -/
def isInput (circuit : CircuitDescription) (committed : Bool) (i : ℕ) : Bool :=
  circuit.layerTypes[i]? == some 3 && circuit.isCommitted[i]? == some committed

/-- `_hasNonCommittedInputLayer`. -/
def hasNonCommittedInputLayer (circuit : CircuitDescription) : Bool :=
  (List.range circuit.numLayers).any (isInput circuit false)

/-- The public input part of `verifyECChecks`: the evaluation point is the reversed bindings of the
first layer proof, and the claim is the last layer proof's first commitment. -/
def verifyPublicClaimEC (proof : GKRProof) (challenges : TranscriptChallenges) (mleEval : ℕ)
    (gens : PedersenGens) (pubInputs : List ℕ) : Checked Unit := do
  let onChainMle ← evaluateMLEFromData pubInputs challenges.mleEvalPoint.reverse
  require (mleEval == onChainMle) .mleEvalMismatch
  let lp ← getIdx proof.layerProofs (proof.layerProofs.length - 1)
  let claimCom ← getIdx lp.commitments 0
  let expectedCom ← scalarMul gens.scalarGen mleEval
  require (decide (expectedCom = claimCom)) .publicInputClaimMismatch

/-- The layer loop of `verifyECChecks`. -/
def verifyLayersEC (proof : GKRProof) (challenges : TranscriptChallenges)
    (outputs : Groth16Outputs) (gens : PedersenGens) (circuit : CircuitDescription) : Checked Unit :=
  (List.range proof.layerProofs.length).forM fun i => do
    let layerType ← layerTypeAt circuit i
    verifyLayerEC (← getIdx proof.layerProofs i) (← getIdx challenges.layers i)
      (← getIdx outputs.rlcBeta i) (← getIdx outputs.zDotJStar i) layerType gens

/-- `verifyECChecks`. -/
def verifyECChecks (proof : LayeredProof) (challenges : TranscriptChallenges)
    (outputs : Groth16Outputs) (gens : PedersenGens) (circuit : CircuitDescription)
    (pubInputs : List ℕ) : Checked Unit := do
  verifyLayersEC proof.gkrProof challenges outputs gens circuit
  match proof.inputProofs[0]? with
  | some inputProof =>
    verifyInputHyrax inputProof challenges.inputPodpChallenge outputs.lTensor outputs.zDotR gens
  | none => pure ()
  if hasNonCommittedInputLayer circuit && !pubInputs.isEmpty then
    verifyPublicClaimEC proof.gkrProof challenges outputs.mleEval gens pubInputs
  else pure ()

/-! ## The contract call -/

/-- `_parseGroth16Outputs`. -/
def parseGroth16Outputs (groth16Outputs : List ℕ) (numComputeLayers : ℕ) : Call Groth16Outputs := do
  require (decide (2 * numComputeLayers + 2 ≤ groth16Outputs.length)) .groth16OutputsTooShort
  let numLTensor := groth16Outputs.length - 2 * numComputeLayers - 2
  let zDotR ← entry groth16Outputs (groth16Outputs.length - 2)
  let mleEval ← entry groth16Outputs (groth16Outputs.length - 1)
  pure { rlcBeta := groth16Outputs.take numComputeLayers
         zDotJStar := (groth16Outputs.drop numComputeLayers).take numComputeLayers
         lTensor := (groth16Outputs.drop (2 * numComputeLayers)).take numLTensor
         zDotR := zDotR
         mleEval := mleEval }

/-- `buildGroth16Inputs`: the stored product challenge of a layer is left out when it is zero. -/
def buildGroth16Inputs (circuitHashFr : ℕ × ℕ) (pubInputs : List ℕ)
    (challenges : TranscriptChallenges) (outputs : Groth16Outputs) : List ℕ :=
  [circuitHashFr.1, circuitHashFr.2] ++ pubInputs ++ challenges.outputChallenges ++
    [challenges.claimAggCoeff] ++
    challenges.layers.flatMap (fun ch => ch.bindings ++ ch.rhos ++ ch.gammas ++ [ch.podpChallenge] ++
      if ch.popChallenge = 0 then [] else [ch.popChallenge]) ++
    challenges.inputRlcCoeffs ++ [challenges.inputPodpChallenge] ++ challenges.interLayerCoeffs ++
    challenges.mleEvalPoint ++ challenges.inputClaimPoint ++ outputs.rlcBeta ++ outputs.zDotJStar ++
    outputs.lTensor ++ [outputs.zDotR, outputs.mleEval]

/-- `_validateHybridInputs`. -/
def validateHybridInputs (c : LayeredContract) (circuitHash : ℕ) (innerProof gensData : List UInt8) :
    Call CircuitConfig := do
  let config ← activeLayeredCircuit c circuitHash
  checkProofFormat innerProof
  require (config.gensHash == 0 || gensData.isEmpty || keccak256 gensData == config.gensHash)
    .invalidGenerators
  require (decide (2 ≤ config.description.numLayers)) .hybridNeedTwoLayers
  require ((← entry config.description.layerTypes 0) == 3) .hybridLayerZeroNotInput
  pure config

/-- `verifyWithGroth16`. The verifier contract of the circuit is not part of the repository. -/
def verifyWithGroth16 (c : LayeredContract) (groth16Verifiers : ℕ → Option Groth16Verifier)
    (innerProof : List UInt8) (circuitHash : ℕ) (publicInputs gensData : List UInt8)
    (groth16Proof groth16Outputs : List ℕ) : Call Unit := do
  require (!c.paused) .enforcedPause
  let config ← validateHybridInputs c circuitHash innerProof gensData
  let decoded ← liftDecode (decodeProof (calldataReader (innerProof.drop 4)))
  let pubInputs := decodePublicInputs publicInputs
  let challenges ← liftVerifier (replayTranscriptAndCollectChallenges decoded
    (setupLayeredTranscript circuitHash pubInputs decoded))
  let outputs ← parseGroth16Outputs groth16Outputs decoded.gkrProof.layerProofs.length
  let groth16Inputs := buildGroth16Inputs (hashToFqPair (wordToBeBytes circuitHash)) pubInputs
    challenges outputs
  match groth16Verifiers circuitHash with
  | none => throw .groth16VerifierNotSet
  | some verifier => require (verifier groth16Proof groth16Inputs) .groth16VerificationFailed
  let gens ← liftDecode (decodePedersenGens (calldataReader gensData))
  liftVerifier (verifyECChecks decoded challenges outputs gens config.description pubInputs)

/-! ## The scalar values of a transcript -/

/-- The weight of a layer's claim and the inner product of its dot-product proof, as `GKRVerifier`
computes them on its way through the checks. -/
def layerValue (lp : CommittedLayerProof) (layerType : ℕ) (ch : LayerChallenges)
    (claimPoint : List ℕ) (randomCoeff : ℕ) : Checked (ℕ × ℕ) := do
  let rlcBeta ← computeRlcBeta ch.bindings claimPoint randomCoeff
  let jStar ← computeJStar solBackend ch.rhos ch.gammas ch.bindings (layerDegree layerType)
    lp.sumcheckProof.messages.length
  let zDotJStar ← innerProduct solBackend lp.sumcheckProof.podp.zVector jStar
  pure (rlcBeta, zDotJStar)

/-- The values of the layer with proof index `i`: its claim point is the bindings of the layer above
it, or the output challenges. -/
def layerValues (proof : GKRProof) (circuit : CircuitDescription)
    (challenges : TranscriptChallenges) (i : ℕ) : Checked (ℕ × ℕ) := do
  let lp ← getIdx proof.layerProofs i
  let layerType ← layerTypeAt circuit i
  let ch ← getIdx challenges.layers i
  let claimPoint ←
    getIdx (challenges.outputChallenges :: challenges.layers.map (·.bindings)) i
  let randomCoeff ← getIdx (challenges.claimAggCoeff :: challenges.interLayerCoeffs) i
  layerValue lp layerType ch claimPoint randomCoeff

/-- The input layers of a circuit that are committed, or that are public. -/
def inputLayers (circuit : CircuitDescription) (committed : Bool) : List ℕ :=
  (List.range circuit.numLayers).filter (isInput circuit committed)

/-- The bindings of the layers, from layer 0 upwards. -/
def layerBindings (layers : List LayerChallenges) : List (List ℕ) :=
  [] :: (layers.map (·.bindings)).reverse

/-- The outputs are the values that `GKRVerifier` computes from the transcript. -/
structure TrueOutputs (proof : LayeredProof) (circuit : CircuitDescription) (pubInputs : List ℕ)
    (challenges : TranscriptChallenges) (outputs : Groth16Outputs) : Prop where
  layers : (List.range proof.gkrProof.layerProofs.length).mapM
    (layerValues proof.gkrProof circuit challenges) = .ok (outputs.rlcBeta.zip outputs.zDotJStar)
  input : ∀ i ∈ inputLayers circuit true, ∃ inputProof claimPoints rCoeffs,
    proof.inputProofs[0]? = some inputProof ∧
    inputClaimPoints circuit (layerBindings challenges.layers) i = .ok claimPoints ∧
    multiClaimTensors inputProof.commitmentRows.length claimPoints challenges.inputRlcCoeffs =
      .ok (outputs.lTensor, rCoeffs) ∧
    innerProduct solBackend inputProof.podp.zVector rCoeffs = .ok outputs.zDotR
  evaluation : ∀ i ∈ inputLayers circuit false, ∃ point,
    findReferringBindings i circuit (layerBindings challenges.layers) = .ok point ∧
    evaluateMLEFromData pubInputs point = .ok outputs.mleEval

end WorldZk.LayeredHybrid
