import WorldZk.CurveOrder
import WorldZk.InputLayers
import WorldZk.Keccak256
import WorldZk.ProofDecoding

/-!
# The Solidity verifier contract

The Solidity instance of the shared verifier, and the part of `RemainderVerifier` that registers
DAG circuits and verifies a proof in one transaction. Gas is not modelled, so the only ways a call
fails are the reverts and panics of the code.
-/

namespace WorldZk.SolidityVerifier

open CheckedRuns Bn254Moduli FieldArithmetic PoseidonSponge ProofTypes VerifierBackend DagLayers
open InputLayers ProofDecoding Transcript Keccak256

/-! ## The backend -/

/-- The precompile at `0x06`, which fails on a point that is not on the curve. -/
def ecAdd (p1 p2 : G1Point) : Checked G1Point := do
  require (NativeCurve.isOnCurve p1 && NativeCurve.isOnCurve p2) .ecAddFailed
  pure (NativeCurve.ecAdd p1 p2)

/-- The precompile at `0x07`. -/
def scalarMul (p : G1Point) (s : ℕ) : Checked G1Point := do
  require (NativeCurve.isOnCurve p) .ecMulFailed
  pure (NativeCurve.ecMul p s)

/-- `modInverse`, by the exponentiation precompile. -/
def modInverse (a p : ℕ) : Checked ℕ := do
  require (a != 0) .inverseOfZero
  pure (fieldPow a (p - 2) p)

/-- `FR_MODULUS - x`, a checked subtraction. -/
def modulusMinus (x : ℕ) : Checked ℕ := do
  require (decide (x ≤ FR_MOD)) .arithmeticOverflow
  pure (FR_MOD - x)

/-- `addmod`, `mulmod` and checked 256-bit arithmetic. A memory array of 2^64 or more elements
cannot be allocated. -/
def solBackend : Backend where
  ops := solOps
  toFr x := x % FR_MOD
  add a b := (a + b) % FR_MOD
  mul a b := a * b % FR_MOD
  sub a b := do pure ((a + (← modulusMinus b)) % FR_MOD)
  oneMinus x := do pure ((1 + (← modulusMinus x)) % FR_MOD)
  neg := modulusMinus
  inv a := modInverse a FR_MOD
  ecAdd := ecAdd
  ecMul := scalarMul
  shl1 n := if n < 256 then 2 ^ n else 0
  bitAt w n := w / 2 ^ n % 2
  tensorFits n := decide (n < 64)
  fillClaims count points := do
    require (decide (points.length ≤ count)) .indexOutOfBounds
    pure (points ++ List.replicate (count - points.length) [])
  checkEvaluation numRows numLCoeffs numZ numRCoeffs := do
    require (numRows != 0) .emptyCommitment
    require (numLCoeffs == numRows) .lCoeffsLengthMismatch
    require (numZ == numRCoeffs) .zVectorLengthMismatch

/-- The calldata decoders: counts are whole words, and a skip is one checked addition. -/
def calldataReader (data : List UInt8) : Reader where
  isEmpty := data.isEmpty
  readU256 := readU256 data
  readUsize := readU256 data
  advance n := fun offset =>
    if offset + n < WORD then .ok ((), offset + n) else .error .offsetOverflow

/-- The calldata decoder on the encoding of a list of words. -/
def wordsReader (ws : List ℕ) : Reader where
  isEmpty := ws.isEmpty
  readU256 := readWord ws
  readUsize := readWord ws
  advance := (calldataReader []).advance

theorem calldataReader_flatMap_wordToBeBytes {ws : List ℕ} (hws : ws.all (· < WORD) = true) :
    calldataReader (ws.flatMap wordToBeBytes) = wordsReader ws := by
  have hread : readU256 (ws.flatMap wordToBeBytes) = readWord ws :=
    readU256_flatMap_wordToBeBytes fun w hw => of_decide_eq_true (List.all_eq_true.mp hws w hw)
  have hempty : (ws.flatMap wordToBeBytes).isEmpty = ws.isEmpty := by
    cases ws with
    | nil => rfl
    | cons w ws => simp [wordToBeBytes, wordToLeBytes]
  simp only [calldataReader, wordsReader, hread, hempty]

/-! ## Circuits -/

/-- The reverts of `RemainderVerifier`. -/
inductive ContractError
  | enforcedPause
  | circuitNotRegistered
  | circuitNotActive
  | invalidProofLength
  | invalidProofSelector
  | invalidGenerators
  | circuitHashZero
  | dagCircuitAlreadyRegistered
  | noComputeLayers
  | noInputLayers
  | tooManyComputeLayers
  | tooManyInputLayers
  | layerTypesLengthMismatch
  | numSumcheckRoundsLengthMismatch
  | atomOffsetsLengthMismatch
  | inputIsCommittedLengthMismatch
  | oracleProductOffsetsLengthMismatch
  | atomTargetLayersLengthMismatch
  | atomCommitIdxsLengthMismatch
  | ptOffsetsLengthMismatch
  | oracleResultIdxsLengthMismatch
  | oracleExprCoeffsLengthMismatch
  | batchSessionNotFound
  | batchUnauthorized
  | batchAlreadyFinalized
  | batchComputeNotDone
  | batchAllComputeDone
  | batchPublicClaimCommitmentMismatch
  | batchPedersenOpeningInvalid
  | batchPublicInputMLEMismatch
  | dagGroth16OutputsTooShort
  | lTensorOffsetsMismatch
  | dagGroth16VerifierNotSet
  | groth16VerificationFailed
  | stylusVerifierNotConfigured
  | stylusCallFailed
  | circuitAlreadyRegistered
  | numLayersZero
  | layerSizesLengthMismatch
  | isCommittedLengthMismatch
  | proofVerificationFailed
  | groth16OutputsTooShort
  | hybridNeedTwoLayers
  | hybridLayerZeroNotInput
  | groth16VerifierNotSet
  | panicArithmeticOverflow
  | panicIndexOutOfBounds
  | decodeFailed (cause : DecodeError)
  | verifierReverted (cause : VerifyError)
deriving DecidableEq, Repr

abbrev Call (α : Type) : Type := Except ContractError α

def liftDecode {α : Type} : Except DecodeError α → Call α
  | .ok a => .ok a
  | .error e => .error (.decodeFailed e)

def liftVerifier {α : Type} : Checked α → Call α
  | .ok a => .ok a
  | .error e => .error (.verifierReverted e)

@[simp] theorem liftDecode_ok {α : Type} (a : α) : liftDecode (.ok a) = .ok a := rfl

@[simp] theorem liftVerifier_ok {α : Type} (a : α) : liftVerifier (.ok a) = .ok a := rfl

@[simp] theorem liftDecode_eq_ok {α : Type} {x : Except DecodeError α} {a : α} :
    liftDecode x = .ok a ↔ x = .ok a := by
  cases x <;> simp [liftDecode]

@[simp] theorem liftVerifier_eq_ok {α : Type} {x : Checked α} {a : α} :
    liftVerifier x = .ok a ↔ x = .ok a := by
  cases x <;> simp [liftVerifier]

/-- The entry `arr[i]` that a check reads; a missing entry is a panic. -/
def entry (xs : List ℕ) (i : ℕ) : Call ℕ := getOr .panicIndexOutOfBounds xs i

/-- The bounds and array length checks of `registerDAGCircuit`. -/
def checkDescription (desc : DAGCircuitDescription) : Call Unit := do
  require (desc.numComputeLayers != 0) .noComputeLayers
  require (desc.numInputLayers != 0) .noInputLayers
  require (decide (desc.numComputeLayers ≤ 256)) .tooManyComputeLayers
  require (decide (desc.numInputLayers ≤ 64)) .tooManyInputLayers
  require (desc.layerTypes.length == desc.numComputeLayers) .layerTypesLengthMismatch
  require (desc.numSumcheckRounds.length == desc.numComputeLayers) .numSumcheckRoundsLengthMismatch
  require (desc.atomOffsets.length == desc.numComputeLayers + 1) .atomOffsetsLengthMismatch
  require (desc.inputIsCommitted.length == desc.numInputLayers) .inputIsCommittedLengthMismatch
  require (desc.oracleProductOffsets.length == desc.numComputeLayers + 1)
    .oracleProductOffsetsLengthMismatch
  let totalAtoms ← entry desc.atomOffsets desc.numComputeLayers
  require (desc.atomTargetLayers.length == totalAtoms) .atomTargetLayersLengthMismatch
  require (desc.atomCommitIdxs.length == totalAtoms) .atomCommitIdxsLengthMismatch
  require (desc.ptOffsets.length == totalAtoms + 1) .ptOffsetsLengthMismatch
  let totalProducts ← entry desc.oracleProductOffsets desc.numComputeLayers
  require (desc.oracleResultIdxs.length == totalProducts) .oracleResultIdxsLengthMismatch
  require (desc.oracleExprCoeffs.length == totalProducts) .oracleExprCoeffsLengthMismatch

/-- The ranges of the ABI types: `uint8` layer types, and words everywhere else. -/
def fitsAbi (desc : DAGCircuitDescription) : Bool :=
  desc.layerTypes.all (· < 256) &&
    (desc.numSumcheckRounds ++ desc.atomOffsets ++ desc.atomTargetLayers ++ desc.atomCommitIdxs ++
      desc.ptOffsets ++ desc.ptData ++ desc.oracleProductOffsets ++ desc.oracleResultIdxs ++
      desc.oracleExprCoeffs).all (· < WORD)

/-- A registered circuit. Its description passed the checks of the registration, and its hash is
not the zero that marks an empty slot. -/
structure DAGCircuitConfig where
  circuitHash : ℕ
  description : DAGCircuitDescription
  active : Bool
  gensHash : ℕ
  hash_ne_zero : circuitHash ≠ 0
  hash_lt : circuitHash < WORD
  abi : fitsAbi description = true
  checked : checkDescription description = .ok ()

/-- The storage that the DAG paths read. Every circuit is stored under its own hash. -/
structure Contract where
  paused : Bool
  dagCircuits : ℕ → Option DAGCircuitConfig
  keyed : ∀ h config, dagCircuits h = some config → config.circuitHash = h

/-- `registerDAGCircuit`, on the decoded description. -/
def registerDAGCircuit (c : Contract) (circuitHash : {h : ℕ // h < WORD})
    (desc : {d : DAGCircuitDescription // fitsAbi d = true}) (gensHash : ℕ) : Call Contract :=
  if c.paused then .error .enforcedPause
  else if hzero : circuitHash.val = 0 then .error .circuitHashZero
  else if (c.dagCircuits circuitHash).isSome then .error .dagCircuitAlreadyRegistered
  else
    match hcheck : checkDescription desc.val with
    | .error e => .error e
    | .ok () =>
      let config : DAGCircuitConfig :=
        ⟨circuitHash, desc, true, gensHash, hzero, circuitHash.property, desc.property, hcheck⟩
      .ok { c with
        dagCircuits := Function.update c.dagCircuits circuitHash (some config)
        keyed := by
          intro h config' hconfig
          by_cases heq : h = circuitHash.val
          · rw [heq, Function.update_self, Option.some.injEq] at hconfig
            rw [← hconfig, heq]
          · rw [Function.update_of_ne heq] at hconfig
            exact c.keyed h config' hconfig }

/-! ## One-transaction verification -/

/-- The selector `REM1`. -/
def SELECTOR : List UInt8 := [0x52, 0x45, 0x4d, 0x31]

def checkProofFormat (proof : List UInt8) : Call Unit := do
  require (decide (4 ≤ proof.length)) .invalidProofLength
  require (proof.take 4 == SELECTOR) .invalidProofSelector

theorem checkProofFormat_selector (data : List UInt8) :
    checkProofFormat (SELECTOR ++ data) = .ok () := by
  simp [checkProofFormat, SELECTOR]

/-- The circuit under a hash, which must be registered and active. -/
def activeCircuit (c : Contract) (circuitHash : ℕ) : Call DAGCircuitConfig :=
  match c.dagCircuits circuitHash with
  | none => .error .circuitNotRegistered
  | some config => if config.active then .ok config else .error .circuitNotActive

theorem activeCircuit_eq_ok {c : Contract} {circuitHash : ℕ} {config : DAGCircuitConfig} :
    activeCircuit c circuitHash = .ok config ↔
      c.dagCircuits circuitHash = some config ∧ config.active = true := by
  unfold activeCircuit
  cases c.dagCircuits circuitHash with
  | none => simp
  | some stored =>
    by_cases hactive : stored.active = true
    · simp only [hactive, ↓reduceIte, Except.ok.injEq, Option.some.injEq]
      exact ⟨fun h => ⟨h, h ▸ hactive⟩, fun h => h.1⟩
    · simp only [hactive, Bool.false_eq_true, ↓reduceIte, reduceCtorEq, false_iff, not_and,
        Option.some.injEq]
      rintro rfl h
      exact hactive h

theorem circuitHash_ne_zero {c : Contract} {circuitHash : ℕ} {config : DAGCircuitConfig}
    (h : c.dagCircuits circuitHash = some config) : circuitHash ≠ 0 :=
  c.keyed circuitHash config h ▸ config.hash_ne_zero

/-- The generator check, skipped for a zero hash and for empty data. -/
def checkGenerators (config : DAGCircuitConfig) (gensData : List UInt8) : Call Unit :=
  require (config.gensHash == 0 || gensData.isEmpty || keccak256 gensData == config.gensHash)
    .invalidGenerators

/-- `_setupTranscript`, with the registered circuit hash. -/
def setupDagTranscript (circuitHash : ℕ) (proof : DecodedProof) : Sponge :=
  setupTranscript solOps (wordToBeBytes circuitHash) proof.embeddedPubInputs
    (inputCommitCoords proof.dagInputProofs)

/-- What the input phase reads from a decoded proof. -/
def inputData (proof : DecodedProof) : InputData :=
  ⟨proof.embeddedPubInputs, proof.dagInputProofs, proof.publicValueClaims⟩

/-- The two phases of `verifyDAGProof` on decoded data. -/
def verifyPhases (proof : DecodedProof) (desc : DAGCircuitDescription) (gens : PedersenGens)
    (s : Sponge) : Checked (List LayerRun × VerifyContext × InputState) := do
  let (layers, ctx, s) ← verifyComputeLayers solBackend proof.gkrProof desc gens s
  let st ← verifyInputLayers solBackend proof.gkrProof desc gens ctx.allBindings (inputData proof) s
  pure (layers, ctx, st)

/-- `verifyDAGProof`. The public inputs of the call are decoded and not used: the verifier reads
those embedded in the proof. -/
def verifyDAGProof (c : Contract) (proof : List UInt8) (circuitHash : ℕ)
    (_publicInputs gensData : List UInt8) : Call Bool := do
  require (!c.paused) .enforcedPause
  let config ← activeCircuit c circuitHash
  checkProofFormat proof
  checkGenerators config gensData
  let decoded ← liftDecode (decodeProofForDag (calldataReader (proof.drop 4)))
  let gens ← liftDecode (decodePedersenGens (calldataReader gensData))
  let _ ← liftVerifier (verifyPhases decoded config.description gens
    (setupDagTranscript circuitHash decoded))
  pure true

theorem verifyDAGProof_eq_ok {c : Contract} {proof publicInputs gensData : List UInt8}
    {circuitHash : ℕ} {valid : Bool} :
    verifyDAGProof c proof circuitHash publicInputs gensData = .ok valid ↔
      valid = true ∧ c.paused = false ∧ ∃ config decoded gens run,
        activeCircuit c circuitHash = .ok config ∧ checkProofFormat proof = .ok () ∧
        checkGenerators config gensData = .ok () ∧
        decodeProofForDag (calldataReader (proof.drop 4)) = .ok decoded ∧
        decodePedersenGens (calldataReader gensData) = .ok gens ∧
        verifyPhases decoded config.description gens (setupDagTranscript circuitHash decoded) =
          .ok run := by
  simp only [verifyDAGProof, bind_eq_ok, pure_eq_ok, require_eq_ok, liftDecode_eq_ok,
    liftVerifier_eq_ok, Bool.not_eq_true']
  constructor
  · rintro ⟨_, hpaused, config, hconfig, _, hformat, _, hgenerators, decoded, hdecoded, gens, hgens,
      run, hrun, rfl⟩
    exact ⟨rfl, hpaused, config, decoded, gens, run, hconfig, hformat, hgenerators, hdecoded, hgens,
      hrun⟩
  · rintro ⟨rfl, hpaused, config, decoded, gens, run, hconfig, hformat, hgenerators, hdecoded, hgens,
      hrun⟩
    exact ⟨(), hpaused, config, hconfig, (), hformat, (), hgenerators, decoded, hdecoded, gens, hgens,
      run, hrun, rfl⟩

/-- A running contract with one circuit. -/
def Contract.single (config : DAGCircuitConfig) : Contract where
  paused := false
  dagCircuits h := if h = config.circuitHash then some config else none
  keyed h config' hconfig := by
    split at hconfig
    · obtain rfl := Option.some.inj hconfig
      exact Eq.symm ‹_›
    · cases hconfig

theorem activeCircuit_single {config : DAGCircuitConfig} (hactive : config.active = true) :
    activeCircuit (Contract.single config) config.circuitHash = .ok config :=
  activeCircuit_eq_ok.mpr ⟨by simp [Contract.single], hactive⟩

end WorldZk.SolidityVerifier
