import WorldZk.SolidityVerifier
import WorldZk.ZkmlVerifier

/-!
# The Stylus verifier

The `gkr-verifier` crate, which is the Rust verifier compiled to 32-bit WASM with the curve
operations behind precompile calls, and `RemainderVerifier.verifyDAGProofStylus`, which hands it
the stored description in a flat encoding.
-/

namespace WorldZk.StylusVerifier

open CheckedRuns Bn254Moduli FieldArithmetic PoseidonSponge ProofTypes VerifierBackend DagLayers
open InputLayers ProofDecoding Transcript SolidityVerifier

/-! ## The crate -/

/-- `ec_add`: a point at infinity is passed around the precompile. -/
def ecAdd (p1 p2 : G1Point) : Checked G1Point :=
  if p1.isInfinity then pure p2
  else if p2.isInfinity then pure p1
  else SolidityVerifier.ecAdd p1 p2

/-- `ec_mul`: a point at infinity and a zero scalar are passed around the precompile. -/
def ecMul (p : G1Point) (s : ℕ) : Checked G1Point :=
  if p.isInfinity || s == 0 then pure G1Point.INFINITY
  else scalarMul p s

/-- The Rust arithmetic with precompile calls. Shift amounts are taken modulo the width of
`usize`. -/
def stylusBackend : Backend :=
  { ZkmlVerifier.zkmlBackend with
    ecAdd := ecAdd
    ecMul := ecMul
    shl1 := fun n => 2 ^ (n % 32)
    bitAt := fun w n => w / 2 ^ (n % 32) % 2
    tensorFits := fun n => decide (n < 32) }

/-- `read_usize_from`: the three high limbs must vanish, and the lowest is cut to `usize`. -/
def readUsizeFrom (data : List UInt8) : Parser ℕ := do
  let v ← readU256 data
  if v < 2 ^ 64 then pure (v % 2 ^ 32) else throw .valueTooLarge

/-- The panicking decoders: a skip is one addition without a check. -/
def decoderReader (data : List UInt8) : Reader where
  isEmpty := data.isEmpty
  readU256 := readU256 data
  readUsize := readUsizeFrom data
  advance n := fun offset => .ok ((), (offset + n) % 2 ^ 32)

/-- The decoder on the encoding of a list of words. -/
def decoderWordsReader (ws : List ℕ) : Reader where
  isEmpty := ws.isEmpty
  readU256 := readWord ws
  readUsize := do
    let v ← readWord ws
    if v < 2 ^ 64 then pure (v % 2 ^ 32) else throw .valueTooLarge
  advance := (decoderReader []).advance

theorem decoderReader_flatMap_wordToBeBytes {ws : List ℕ} (hws : ws.all (· < WORD) = true) :
    decoderReader (ws.flatMap wordToBeBytes) = decoderWordsReader ws := by
  have hread : readU256 (ws.flatMap wordToBeBytes) = readWord ws :=
    readU256_flatMap_wordToBeBytes fun w hw => of_decide_eq_true (List.all_eq_true.mp hws w hw)
  have hempty : (ws.flatMap wordToBeBytes).isEmpty = ws.isEmpty := by
    cases ws with
    | nil => rfl
    | cons w ws => simp [wordToBeBytes, wordToLeBytes]
  simp only [decoderReader, readUsizeFrom, decoderWordsReader, hread, hempty]

/-- Why the contract traps. -/
inductive Trap
  | proofTooShort
  | invalidSelector
  | bodyTooShort
  | decode (cause : DecodeError)
  | verification (cause : VerifyError)
deriving DecidableEq, Repr

def trapDecode {α : Type} : Except DecodeError α → Except Trap α
  | .ok a => .ok a
  | .error e => .error (.decode e)

def trapVerifier {α : Type} : Checked α → Except Trap α
  | .ok a => .ok a
  | .error e => .error (.verification e)

/-- The two phases after the transcript set-up. -/
def verifyPhases (proof : DecodedProof) (desc : DAGCircuitDescription) (gens : PedersenGens)
    (s : Sponge) : Checked (List LayerRun × VerifyContext × InputState) := do
  let (layers, ctx, s) ← verifyComputeLayers stylusBackend proof.gkrProof desc gens s
  let st ← verifyInputLayers stylusBackend proof.gkrProof desc gens ctx.allBindings
    (inputData proof) s
  pure (layers, ctx, st)

/-- `verify_dag_proof_inner`. The circuit hash is read from the proof, and the public inputs of
the call are not used. -/
def verifyDagProofInner (proofData _publicInputs gensData circuitDescData : List UInt8) :
    Except Trap Bool := do
  require (decide (4 ≤ proofData.length)) .proofTooShort
  require (proofData.take 4 == SELECTOR) .invalidSelector
  let proofBytes := proofData.drop 4
  require (decide (32 ≤ proofBytes.length)) .bodyTooShort
  let circuitHash := proofBytes.take 32
  let proof ← trapDecode (decodeProofForDag (decoderReader proofBytes))
  let gens ← trapDecode (decodePedersenGens (decoderReader gensData))
  let (desc, _) ← trapDecode ((decodeCircuitDescription (decoderReader circuitDescData)
    (readUsizeFrom circuitDescData) (· % 2 ^ 64)).run 0)
  let _ ← trapVerifier (verifyPhases proof desc gens (ZkmlVerifier.proofTranscript circuitHash proof))
  pure true

/-! ## The contract call -/

/-- An array in the flat encoding: its length and its elements, one word each. -/
def encodeFlatArray (arr : List ℕ) : List ℕ := arr.length :: arr

/-- The words of `_encodeFlatCircuitDesc`. -/
def flatDescWords (desc : DAGCircuitDescription) : List ℕ :=
  [desc.numComputeLayers, desc.numInputLayers] ++ encodeFlatArray desc.layerTypes ++
    encodeFlatArray desc.numSumcheckRounds ++ encodeFlatArray desc.atomOffsets ++
    encodeFlatArray desc.atomTargetLayers ++ encodeFlatArray desc.atomCommitIdxs ++
    encodeFlatArray desc.ptOffsets ++ encodeFlatArray desc.ptData ++
    encodeFlatArray (desc.inputIsCommitted.map fun committed => if committed then 1 else 0) ++
    encodeFlatArray desc.oracleProductOffsets ++ encodeFlatArray desc.oracleResultIdxs ++
    encodeFlatArray desc.oracleExprCoeffs

/-- `_encodeFlatCircuitDesc`. -/
def encodeFlatCircuitDesc (desc : DAGCircuitDescription) : List UInt8 :=
  (flatDescWords desc).flatMap wordToBeBytes

/-- A deployed Stylus verifier: the result of its `verifyDagProof`, or `none` when it traps. -/
abbrev StylusContract : Type :=
  List UInt8 → List UInt8 → List UInt8 → List UInt8 → Option Bool

/-- The `gkr-verifier` crate as a deployed contract. -/
def gkrVerifier : StylusContract := fun proofData publicInputs gensData circuitDescData =>
  (verifyDagProofInner proofData publicInputs gensData circuitDescData).toOption

/-- `_callStylusVerifier`. -/
def callStylusVerifier (stylusVerifier : StylusContract)
    (proof publicInputs gensData circuitDescData : List UInt8) : Call Bool :=
  match stylusVerifier proof publicInputs gensData circuitDescData with
  | some valid => .ok valid
  | none => .error .stylusCallFailed

/-- `verifyDAGProofStylus`. -/
def verifyDAGProofStylus (c : Contract) (stylusVerifiers : ℕ → Option StylusContract)
    (proof : List UInt8) (circuitHash : ℕ) (publicInputs gensData : List UInt8) : Call Bool := do
  require (!c.paused) .enforcedPause
  let config ← activeCircuit c circuitHash
  checkProofFormat proof
  checkGenerators config gensData
  match stylusVerifiers circuitHash with
  | none => throw .stylusVerifierNotConfigured
  | some stylusVerifier =>
    callStylusVerifier stylusVerifier proof publicInputs gensData
      (encodeFlatCircuitDesc config.description)

end WorldZk.StylusVerifier
