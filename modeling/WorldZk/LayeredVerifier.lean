import WorldZk.GroupChecks
import WorldZk.LayerChecks
import WorldZk.SolidityVerifier

/-!
# The layered verifier

`GKRVerifier` and the part of `RemainderVerifier` that registers layered circuits and verifies
their proofs, behind the adapter of the execution engine. A circuit is a chain of layers: layer
`numLayers - 1` is the output, every compute layer hands one claim to the layer below, and the
input layers are checked last. The sumcheck, the product proofs and the tensors are those of the
DAG verifier.
-/

namespace WorldZk.LayeredVerifier

open CheckedRuns PoseidonSponge ProofTypes VerifierBackend CommittedSumcheck InputLayers
open DagLayers hiding LayerRun computeOracleEval
open FieldArithmetic Bn254Moduli ProofDecoding Transcript Keccak256 SolidityVerifier

/-! ## Circuits and proofs -/

structure CircuitDescription where
  numLayers : ℕ
  layerSizes : List ℕ
  /-- 0 for add and subtract, 1 for multiply, 2 for constants, 3 for inputs. -/
  layerTypes : List ℕ
  isCommitted : List Bool
deriving DecidableEq, Repr

/-- A Hyrax evaluation proof. -/
structure EvalProof where
  commitmentRows : List G1Point
  podp : PODPProof
  comEval : G1Point
deriving DecidableEq, Repr

/-- The layered verifier's `GKRProof`: the fields shared with the DAG verifier, and one evaluation
proof for each committed input. -/
structure LayeredProof where
  gkrProof : GKRProof
  inputProofs : List EvalProof
deriving DecidableEq, Repr

/-! ## Layers -/

/-- `_computeRlcBeta`. -/
def computeRlcBeta (bindings claimPoint : List ℕ) (randomCoeff : ℕ) : Checked ℕ := do
  pure (solBackend.mul (← computeBeta solBackend bindings claimPoint) randomCoeff)

/-- `_computeOracleEval`: a multiply layer takes its last commitment, any other layer the
difference of its first two. -/
def computeOracleEval (commitments : List G1Point) (layerType rlcBeta : ℕ) : Checked G1Point := do
  require (!commitments.isEmpty) .noCommitments
  if layerType = 1 then scalarMul (← getIdx commitments (commitments.length - 1)) rlcBeta
  else
    require (decide (2 ≤ commitments.length)) .subtractNeedsTwoCommitments
    let pos ← scalarMul (← getIdx commitments 0) rlcBeta
    let neg ← scalarMul (← getIdx commitments 1) (← modulusMinus rlcBeta)
    ecAdd pos neg

/-- The values that one call of `_verifyOneLayer` gets and computes. The source returns `bindings`
and `nextClaim`. -/
@[ext] structure LayerRun where
  claim : G1Point
  claimPoint : List ℕ
  randomCoeff : ℕ
  bindings : List ℕ
  rlcBeta : ℕ
  oracleEval : G1Point
  nextClaim : G1Point
deriving DecidableEq, Repr

/-- `_verifyOneLayer`. The claim commitment is recorded and takes no part in a check. -/
def verifyOneLayer (gens : PedersenGens) (lp : CommittedLayerProof) (layerType : ℕ)
    (claim : G1Point) (claimPoint : List ℕ) (randomCoeff : ℕ) (s : Sponge) :
    Checked (LayerRun × Sponge) := do
  let (bindings, s) := absorbMessagesAndDeriveBindings solBackend lp.sumcheckProof.messages s
  let s := absorbPoints solBackend s lp.commitments
  let rlcBeta ← computeRlcBeta bindings claimPoint randomCoeff
  let oracleEval ← computeOracleEval lp.commitments layerType rlcBeta
  let (sumcheckValid, s) ←
    verify solBackend lp.sumcheckProof oracleEval (layerDegree layerType) bindings gens s
  require sumcheckValid .sumcheckFailed
  let (popsValid, s) ← verifyProducts solBackend lp.commitments gens 0 lp.pops s
  require popsValid .popFailed
  let nextClaim ← getOr .noCommitmentsForClaim lp.commitments 0
  pure (⟨claim, claimPoint, randomCoeff, bindings, rlcBeta, oracleEval, nextClaim⟩, s)

/-- What a layer's verification is given: its proof, type, claim, claim point, coefficient and the
sponge. -/
abbrev LayerCheck : Type :=
  CommittedLayerProof → ℕ → G1Point → List ℕ → ℕ → Sponge → Checked (LayerRun × Sponge)

/-- The loop of `_verifyLayers`, over the proof indices. A layer's bindings are the claim point of
the next one, and a coefficient is squeezed between two layers. -/
def layerLoop (check : LayerCheck) (proof : GKRProof) (circuit : CircuitDescription) :
    List ℕ → G1Point → List ℕ → ℕ → Sponge → Checked (List LayerRun × Sponge)
  | [], _, _, _, s => pure ([], s)
  | proofIdx :: rest, claim, claimPoint, randomCoeff, s => do
    let lp ← getIdx proof.layerProofs proofIdx
    let layerType ← getIdx circuit.layerTypes (circuit.numLayers - 1 - proofIdx)
    let (run, s) ← check lp layerType claim claimPoint randomCoeff s
    if rest.isEmpty then pure ([run], s)
    else
      let (coeff, s) := challenge solBackend s
      let (runs, s) ← layerLoop check proof circuit rest run.nextClaim run.bindings coeff s
      pure (run :: runs, s)

/-! ## Input layers -/

/-- The bindings of the layers, from layer 0 upwards. Layer 0 has none. -/
def allBindings (runs : List LayerRun) : List (List ℕ) := [] :: (runs.map (·.bindings)).reverse

/-- `_findReferringBindings`: the first compute layer above the input that has bindings, and the
top layer's bindings when there is none. -/
def findReferringBindings (inputLayerIdx : ℕ) (circuit : CircuitDescription)
    (bindings : List (List ℕ)) : Checked (List ℕ) := do
  let above ← (List.range' (inputLayerIdx + 1) (circuit.numLayers - (inputLayerIdx + 1))).mapM
    fun k => do pure ((← getIdx circuit.layerTypes k), (← getIdx bindings k))
  match above.find? fun tb => tb.1 != 3 && !tb.2.isEmpty with
  | some tb => pure tb.2
  | none => getIdx bindings (circuit.numLayers - 1)

/-- `_deriveInputClaimPoints`: the two halves of the input at the bindings of the layer above. -/
def deriveInputClaimPoints (mulBindings : List ℕ) : List (List ℕ) :=
  [0 :: mulBindings, 1 :: mulBindings]

/-- The weight of data index `w` at a point: coordinate `i` is selected by bit `i`. -/
def eqWeight (w : ℕ) (point : List ℕ) : Checked ℕ :=
  (point.zip (List.range point.length)).foldlM
    (fun eq xi => do
      if solBackend.bitAt w xi.2 = 1 then pure (solBackend.mul eq xi.1)
      else pure (solBackend.mul eq (← solBackend.oneMinus xi.1))) 1

/-- `evaluateMLEFromData`. -/
def evaluateMLEFromData (data point : List ℕ) : Checked ℕ := do
  require (decide (data.length ≤ solBackend.shl1 point.length)) .dataTooLargeForPoint
  (data.zip (List.range data.length)).foldlM
    (fun result dw => do
      if dw.1 = 0 then pure result
      else pure (solBackend.add result (solBackend.mul dw.1 (← eqWeight dw.2 point)))) 0

/-- The halves of `_computeMultiClaimTensors` for claim points of `n` coordinates. -/
def splitPoint (numRows n : ℕ) : Checked (ℕ × ℕ) := do
  let lHalfLen ← log2 (if 0 < numRows then numRows else 1)
  require (decide (lHalfLen ≤ n)) .arithmeticOverflow
  pure (lHalfLen, n - lHalfLen)

/-- The tensors of `_computeMultiClaimTensors` at squeezed coefficients. -/
def multiClaimTensors (numRows : ℕ) (claimPoints : List (List ℕ)) (rlcCoeffs : List ℕ) :
    Checked (List ℕ × List ℕ) := do
  let first ← getIdx claimPoints 0
  let (lHalfLen, rHalfLen) ← splitPoint numRows first.length
  let lCoeffs ← computeRlcTensor solBackend claimPoints lHalfLen rlcCoeffs
  let rVars ← (List.range' lHalfLen rHalfLen).mapM (getIdx first)
  let rCoeffs ← initializeTensor solBackend rVars
  pure (lCoeffs, rCoeffs)

/-- The values that the check of one committed input computes. -/
@[ext] structure InputRun where
  layerIdx : ℕ
  comEval : G1Point
  rlcCoeffs : List ℕ
  lCoeffs : List ℕ
  rCoeffs : List ℕ
  podpChallenge : ℕ
deriving DecidableEq, Repr

/-- `_verifyCommittedInputMultiClaim`, for an opening of the rows to the commitment that `opened`
gives. The contract opens them to the proof's `comEval`. -/
def openCommittedInput (gens : PedersenGens)
    (opened : ℕ → EvalProof → List ℕ → Checked G1Point) (layerIdx : ℕ) (inputProof : EvalProof)
    (claimPoints : List (List ℕ)) (s : Sponge) : Checked (InputRun × Sponge) := do
  let (rlcCoeffs, s) := challenges solBackend claimPoints.length s
  let (lCoeffs, rCoeffs) ←
    multiClaimTensors inputProof.commitmentRows.length claimPoints rlcCoeffs
  let s := absorbPoint solBackend s inputProof.comEval
  let (podpChallenge, s) := absorbPodp solBackend inputProof.podp s
  let comY ← opened layerIdx inputProof rlcCoeffs
  require (← openingHolds solBackend inputProof.commitmentRows inputProof.podp comY lCoeffs rCoeffs
    podpChallenge gens) .committedInputVerificationFailed
  pure (⟨layerIdx, inputProof.comEval, rlcCoeffs, lCoeffs, rCoeffs, podpChallenge⟩, s)

/-- The commitment of the proof, which is what the contract opens. -/
def proofComEval (_ : ℕ) (inputProof : EvalProof) (_ : List ℕ) : Checked G1Point :=
  pure inputProof.comEval

/-- The claim points on a committed input, from the layer directly above it. -/
def inputClaimPoints (circuit : CircuitDescription) (bindings : List (List ℕ)) (i : ℕ) :
    Checked (List (List ℕ)) := do
  require (decide (i + 1 < circuit.numLayers)) .noBindingsForReferencingLayer
  let mulBindings ← getIdx bindings (i + 1)
  require (!mulBindings.isEmpty) .noBindingsForReferencingLayer
  let _ ← getIdx circuit.layerSizes i
  pure (deriveInputClaimPoints mulBindings)

/-- The check of a public input: its evaluation times the scalar generator is the last claim. -/
def verifyPublicInput (circuit : CircuitDescription) (publicInputs : List ℕ) (gens : PedersenGens)
    (bindings : List (List ℕ)) (claim : G1Point) (i : ℕ) : Checked Unit := do
  let pubBindings ← findReferringBindings i circuit bindings
  let mleEval ← evaluateMLEFromData publicInputs pubBindings
  let expectedCom ← scalarMul gens.scalarGen mleEval
  require (decide (expectedCom = claim)) .publicInputCommitmentMismatch

/-- What the input layers are checked against. -/
structure InputContext where
  publicInputs : List ℕ
  gens : PedersenGens
  bindings : List (List ℕ)
  claim : G1Point

/-- The loop of `_verifyInputLayers`, over the layers with the index of the next input proof. -/
def inputLoop (opened : ℕ → EvalProof → List ℕ → Checked G1Point) (proof : LayeredProof)
    (circuit : CircuitDescription) (ctx : InputContext) :
    List ℕ → ℕ → Sponge → Checked (List InputRun)
  | [], _, _ => pure []
  | i :: is, hyraxProofIdx, s => do
    if (← getIdx circuit.layerTypes i) ≠ 3 then
      inputLoop opened proof circuit ctx is hyraxProofIdx s
    else if ← getIdx circuit.isCommitted i then
      let claimPoints ← inputClaimPoints circuit ctx.bindings i
      let inputProof ← getIdx proof.inputProofs hyraxProofIdx
      let (run, s) ← openCommittedInput ctx.gens opened i inputProof claimPoints s
      let runs ← inputLoop opened proof circuit ctx is (hyraxProofIdx + 1) s
      pure (run :: runs)
    else
      verifyPublicInput circuit ctx.publicInputs ctx.gens ctx.bindings ctx.claim i
      inputLoop opened proof circuit ctx is hyraxProofIdx s

/-! ## The verification of a proof -/

/-- The values of an accepted proof. -/
structure LayeredRun where
  outputChallenge : ℕ
  layers : List LayerRun
  inputs : List InputRun
deriving DecidableEq, Repr

/-- `GKRVerifier.verify`, over the check of a layer and the commitment that an input proof opens.
The contract's own choices are `verifyOneLayer` and `proofComEval`. -/
def verifyWith (check : LayerCheck) (opened : ℕ → EvalProof → List ℕ → Checked G1Point)
    (proof : LayeredProof) (circuit : CircuitDescription) (publicInputs : List ℕ)
    (gens : PedersenGens) (s : Sponge) : Checked LayeredRun := do
  require (circuit.numLayers != 0) .arithmeticOverflow
  require (proof.gkrProof.layerProofs.length == circuit.numLayers - 1) .wrongNumberOfLayerProofs
  let (outputChallenge, s) := challenge solBackend s
  let claim ← getOr .noOutputClaimCommitments proof.gkrProof.outputClaimCommitments 0
  let s := absorbPoint solBackend s claim
  let (randomCoeff, s) := challenge solBackend s
  let (layers, s) ← layerLoop check proof.gkrProof circuit (List.range (circuit.numLayers - 1)) claim
    [outputChallenge] randomCoeff s
  let lastClaim := (layers.getLast?.map (·.nextClaim)).getD claim
  let inputs ← inputLoop opened proof circuit
    ⟨publicInputs, gens, allBindings layers, lastClaim⟩ (List.range circuit.numLayers) 0 s
  pure ⟨outputChallenge, layers, inputs⟩

/-- `GKRVerifier.verify`. It returns `true` or reverts. -/
def verifyLayered (proof : LayeredProof) (circuit : CircuitDescription) (publicInputs : List ℕ)
    (gens : PedersenGens) (s : Sponge) : Checked LayeredRun :=
  verifyWith (verifyOneLayer gens) proofComEval proof circuit publicInputs gens s

/-! ## The contract -/

/-- The length checks of `_registerCircuit`. -/
def checkCircuit (circuit : CircuitDescription) : Call Unit := do
  require (circuit.numLayers != 0) .numLayersZero
  require (circuit.layerSizes.length == circuit.numLayers) .layerSizesLengthMismatch
  require (circuit.layerTypes.length == circuit.numLayers) .layerTypesLengthMismatch
  require (circuit.isCommitted.length == circuit.numLayers) .isCommittedLengthMismatch

/-- A registered layered circuit, which passed the checks of the registration. -/
structure CircuitConfig where
  circuitHash : ℕ
  description : CircuitDescription
  active : Bool
  gensHash : ℕ
  hash_ne_zero : circuitHash ≠ 0
  checked : checkCircuit description = .ok ()

/-- The storage that the layered paths read. -/
structure LayeredContract where
  paused : Bool
  circuits : ℕ → Option CircuitConfig

/-- `registerCircuitWithGens`, and `registerCircuit` at the zero hash. -/
def registerCircuitWithGens (c : LayeredContract) (circuitHash : ℕ) (circuit : CircuitDescription)
    (gensHash : ℕ) : Call LayeredContract :=
  if c.paused then .error .enforcedPause
  else if hzero : circuitHash = 0 then .error .circuitHashZero
  else if (c.circuits circuitHash).isSome then .error .circuitAlreadyRegistered
  else
    match hcheck : checkCircuit circuit with
    | .error e => .error e
    | .ok () =>
      let config : CircuitConfig := ⟨circuitHash, circuit, true, gensHash, hzero, hcheck⟩
      .ok { c with circuits := Function.update c.circuits circuitHash (some config) }

def registerCircuit (c : LayeredContract) (circuitHash : ℕ) (circuit : CircuitDescription) :
    Call LayeredContract :=
  registerCircuitWithGens c circuitHash circuit 0

/-- `_decodeInputProof`: the first evaluation proof is kept, the others are skipped, and without
any the fields stay zero. -/
def decodeInputProof (r : Reader) : Parser EvalProof := do
  let rows ← readArray r (readG1 r)
  let numEvals ← r.readUsize
  let (podp, comEval) ← if 0 < numEvals then do
      let podp ← decodePodp r
      let comEval ← readG1 r
      pure (podp, comEval)
    else pure (⟨G1Point.INFINITY, G1Point.INFINITY, [], 0, 0⟩, G1Point.INFINITY)
  let _ ← repeatRead (do
    r.advance 128
    let skipZ ← r.readUsize
    r.advance (skipZ * 32 + 64)
    r.advance 64) (numEvals - 1)
  pure ⟨rows, podp, comEval⟩

/-- `_decodePublicInputs`. -/
def decodePublicInputs (bytes : List UInt8) : List ℕ :=
  (List.range (bytes.length / 32)).map fun i => beValue ((bytes.drop (32 * i)).take 32)

/-- `decodeProof`. -/
def decodeProof (r : Reader) : Except DecodeError LayeredProof := do
  let ((gkrProof, _), offset) ← (decodeProofCommon r).run 0
  let (inputs, _) ← (readArray r (decodeInputProof r)).run offset
  pure ⟨gkrProof, inputs⟩

/-- `_extractInputCommitCoords`. -/
def extractInputCommitCoords (proof : LayeredProof) : List ℕ :=
  proof.inputProofs.flatMap fun p => p.commitmentRows.flatMap fun row => [row.x, row.y]

/-- `_setupTranscript`, with the public inputs of the call. -/
def setupLayeredTranscript (circuitHash : ℕ) (pubInputs : List ℕ) (proof : LayeredProof) :
    Sponge :=
  setupTranscript solOps (wordToBeBytes circuitHash) pubInputs (extractInputCommitCoords proof)

/-- The circuit under a hash, which must be registered and active. -/
def activeLayeredCircuit (c : LayeredContract) (circuitHash : ℕ) : Call CircuitConfig :=
  match c.circuits circuitHash with
  | none => .error .circuitNotRegistered
  | some config => if config.active then .ok config else .error .circuitNotActive

/-- `verifyOrRevert`, with the values of the accepted proof. -/
def verifyOrRevert (c : LayeredContract) (proof : List UInt8) (circuitHash : ℕ)
    (publicInputs gensData : List UInt8) : Call LayeredRun := do
  require (!c.paused) .enforcedPause
  let config ← activeLayeredCircuit c circuitHash
  checkProofFormat proof
  require (config.gensHash == 0 || gensData.isEmpty || keccak256 gensData == config.gensHash)
    .invalidGenerators
  let decoded ← liftDecode (decodeProof (calldataReader (proof.drop 4)))
  let pubInputs := decodePublicInputs publicInputs
  let gens ← liftDecode (decodePedersenGens (calldataReader gensData))
  liftVerifier (verifyLayered decoded config.description pubInputs gens
    (setupLayeredTranscript circuitHash pubInputs decoded))

/-- An accepted call decodes its arguments and accepts what it decoded. -/
theorem verifyOrRevert_eq_ok {c : LayeredContract} {proof publicInputs gensData : List UInt8}
    {circuitHash : ℕ} {run : LayeredRun} :
    verifyOrRevert c proof circuitHash publicInputs gensData = .ok run ↔
      c.paused = false ∧ ∃ config decoded gens,
        activeLayeredCircuit c circuitHash = .ok config ∧ checkProofFormat proof = .ok () ∧
        (config.gensHash == 0 || gensData.isEmpty || keccak256 gensData == config.gensHash) = true ∧
        decodeProof (calldataReader (proof.drop 4)) = .ok decoded ∧
        decodePedersenGens (calldataReader gensData) = .ok gens ∧
        verifyLayered decoded config.description (decodePublicInputs publicInputs) gens
          (setupLayeredTranscript circuitHash (decodePublicInputs publicInputs) decoded) =
            .ok run := by
  simp only [verifyOrRevert, bind_eq_ok, require_eq_ok, liftDecode_eq_ok, liftVerifier_eq_ok,
    Bool.not_eq_true']
  constructor
  · rintro ⟨_, hpaused, config, hconfig, _, hformat, _, hgenerators, decoded, hdecoded, gens, hgens,
      hrun⟩
    exact ⟨hpaused, config, decoded, gens, hconfig, hformat, hgenerators, hdecoded, hgens, hrun⟩
  · rintro ⟨hpaused, config, decoded, gens, hconfig, hformat, hgenerators, hdecoded, hgens, hrun⟩
    exact ⟨(), hpaused, config, hconfig, (), hformat, (), hgenerators, decoded, hdecoded, gens, hgens,
      hrun⟩

/-- `RemainderVerifierAdapter.verify`: the public data is a length, the public inputs of that
length and the generators; data without such a prefix is public inputs only. -/
def adapterVerify (c : LayeredContract) (proofData : List UInt8) (programId : ℕ)
    (publicData : List UInt8) : Call LayeredRun :=
  if publicData.length < 32 then verifyOrRevert c proofData programId publicData []
  else
    let pubInputsLen := beValue (publicData.take 32)
    if WORD ≤ pubInputsLen + 32 then .error .panicArithmeticOverflow
    else if publicData.length < pubInputsLen + 32 then
      verifyOrRevert c proofData programId publicData []
    else
      verifyOrRevert c proofData programId ((publicData.drop 32).take pubInputsLen)
        (publicData.drop (32 + pubInputsLen))

end WorldZk.LayeredVerifier
