import WorldZk.InputLayers
import WorldZk.NativeCurve
import WorldZk.ProofDecoding

/-!
# The Rust verifier crate

The `zkml-verifier` instance of the shared verifier: native curve arithmetic, 64-bit indices and
the decoders that return errors. `verifyRaw` is the library's byte-level entry point.
-/

namespace WorldZk.ZkmlVerifier

open CheckedRuns Bn254Moduli FieldArithmetic PoseidonSponge ProofTypes VerifierBackend DagLayers
open InputLayers ProofDecoding Transcript

/-- `Fr` arithmetic of `field.rs` and the native curve operations of `ec.rs`. Shift amounts are
taken modulo the width of `usize`. -/
def zkmlBackend : Backend where
  ops := rustOps
  toFr := frFromFq
  add a b := fieldAdd a b FR_MOD
  mul a b := fieldMul a b FR_MOD
  sub a b := .ok (fieldSub a b FR_MOD)
  oneMinus x := .ok (fieldSub 1 x FR_MOD)
  neg x := .ok (fieldNeg x FR_MOD)
  inv x := .ok (fieldInv x FR_MOD)
  ecAdd p q := .ok (NativeCurve.ecAdd p q)
  ecMul p s := .ok (NativeCurve.ecMul p s)
  shl1 n := 2 ^ (n % 64)
  bitAt w n := w / 2 ^ (n % 64) % 2
  tensorFits n := decide (n < 64)
  fillClaims _ points := .ok points
  checkEvaluation _ _ _ _ := .ok ()

/-- The largest count that `try_read_usize` accepts. -/
def MAX_ARRAY_LEN : ℕ := 100000

/-- A description word, `try_read_usize_from`: the three high limbs must vanish. -/
def tryReadUsizeFrom (data : List UInt8) : Parser ℕ := do
  let v ← readU256 data
  if v < 2 ^ 64 then pure v else throw .valueTooLarge

/-- The decoders that return errors: counts are capped and skips stay inside the data. -/
def tryReader (data : List UInt8) : Reader where
  isEmpty := data.isEmpty
  readU256 := readU256 data
  readUsize := do
    let v ← tryReadUsizeFrom data
    if v ≤ MAX_ARRAY_LEN then pure v else throw .arrayTooLong
  advance n := fun offset =>
    if 2 ^ 64 ≤ offset + n then .error .offsetOverflow
    else if data.length < offset + n then .error .outOfBounds
    else .ok ((), offset + n)

/-- The crate's `VerifyError`. -/
inductive ZkmlError
  | invalidFormat (message : String)
  | decodeError (cause : DecodeError)
  | verificationFailed (cause : VerifyError)
deriving DecidableEq, Repr

def liftDecode {α : Type} : Except DecodeError α → Except ZkmlError α
  | .ok a => .ok a
  | .error e => .error (.decodeError e)

/-- A panic inside the verification is caught and returned. -/
def catchUnwind {α : Type} : Checked α → Except ZkmlError α
  | .ok a => .ok a
  | .error e => .error (.verificationFailed e)

/-- The selector `REM1`. -/
def SELECTOR : List UInt8 := [0x52, 0x45, 0x4d, 0x31]

/-- What one accepting run of the verifier decoded and computed. -/
structure ZkmlRun where
  proof : DecodedProof
  gens : PedersenGens
  desc : DAGCircuitDescription
  sponge : Sponge
  layers : List LayerRun
  ctx : VerifyContext
  computeSponge : Sponge
  inputs : InputState

/-- The two phases of the verification, after the transcript set-up. -/
def runPhases (proof : DecodedProof) (gens : PedersenGens) (desc : DAGCircuitDescription)
    (sponge : Sponge) : Checked ZkmlRun := do
  let (layers, ctx, s) ← verifyComputeLayers zkmlBackend proof.gkrProof desc gens sponge
  let inputs ← verifyInputLayers zkmlBackend proof.gkrProof desc gens ctx.allBindings
    ⟨proof.embeddedPubInputs, proof.dagInputProofs, proof.publicValueClaims⟩ s
  pure ⟨proof, gens, desc, sponge, layers, ctx, s, inputs⟩

/-- The sponge after the transcript set-up of a decoded proof. -/
def proofTranscript (circuitHash : List UInt8) (proof : DecodedProof) : Sponge :=
  setupTranscript rustOps circuitHash proof.embeddedPubInputs
    (inputCommitCoords proof.dagInputProofs)

/-- The verification of decoded data. -/
def runVerifier (circuitHash : List UInt8) (proof : DecodedProof) (gens : PedersenGens)
    (desc : DAGCircuitDescription) : Checked ZkmlRun :=
  runPhases proof gens desc (proofTranscript circuitHash proof)

/-- `try_verify_dag_proof_inner`, with the run in place of the constant `true` it returns. -/
def tryVerifyRun (proofData gensData circuitDescData : List UInt8) :
    Except ZkmlError ZkmlRun := do
  require (decide (4 ≤ proofData.length)) (.invalidFormat "proof data too short for selector")
  require (proofData.take 4 == SELECTOR) (.invalidFormat "invalid selector (expected REM1)")
  let proofBytes := proofData.drop 4
  require (decide (32 ≤ proofBytes.length)) (.invalidFormat "proof body too short for circuit hash")
  let circuitHash := proofBytes.take 32
  let proof ← liftDecode (decodeProofForDag (tryReader proofBytes))
  let gens ← liftDecode (decodePedersenGens (tryReader gensData))
  let (desc, _) ← liftDecode ((decodeCircuitDescription (tryReader circuitDescData)
    (tryReadUsizeFrom circuitDescData) (· % 2 ^ 64)).run 0)
  catchUnwind (runVerifier circuitHash proof gens desc)

/-- The crate's `VerificationResult`. -/
structure VerificationResult where
  circuitHash : List UInt8
  verified : Bool
deriving DecidableEq, Repr

end WorldZk.ZkmlVerifier
