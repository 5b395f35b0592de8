import WorldZk.CheckedRuns
import WorldZk.Transcript

/-!
# Proof decoding

The byte layout of a proof and of the Pedersen generators. The four decoders of the repository
(`try_decode_*` and the panicking `decode_*` of the Rust crate, the Stylus crate's `decode_*`,
and the `_decode*` functions of `RemainderVerifier`) read the same fields in the same order; they
differ in how a count is read and in how bytes are skipped, which is what a `Reader` holds.
-/

namespace WorldZk.ProofDecoding

open CheckedRuns ProofTypes Transcript

/-- Why decoding stops. -/
inductive DecodeError
  | outOfBounds
  | valueTooLarge
  | arrayTooLong
  | offsetOverflow
deriving DecidableEq, Repr

/-- A decoding step on a byte string: from an offset to a value and the next offset. -/
abbrev Parser (α : Type) : Type := StateT ℕ (Except DecodeError) α

/-- The primitive reads of a decoder. The decoders differ in how a count is read and in how bytes
are skipped. -/
structure Reader where
  isEmpty : Bool
  readU256 : Parser ℕ
  readUsize : Parser ℕ
  advance : ℕ → Parser Unit

/-- `read_u256`: 32 big-endian bytes inside the data. -/
def readU256 (data : List UInt8) : Parser ℕ := fun offset =>
  if offset + 32 ≤ data.length then
    .ok (beValue ((data.drop offset).take 32), offset + 32)
  else .error .outOfBounds

/-- Reading from the encoding of a list of words, without a walk through its bytes. -/
def readWord (ws : List ℕ) : Parser ℕ := fun offset =>
  if offset % 32 = 0 then
    match ws[offset / 32]? with
    | some w => .ok (w, offset + 32)
    | none => .error .outOfBounds
  else readU256 (ws.flatMap wordToBeBytes) offset

private theorem drop_flatMap_wordToBeBytes (ws : List ℕ) (i : ℕ) :
    (ws.flatMap wordToBeBytes).drop (32 * i) = (ws.drop i).flatMap wordToBeBytes := by
  induction ws generalizing i with
  | nil => simp
  | cons w ws ih =>
    cases i with
    | zero => rfl
    | succ i =>
      rw [List.flatMap_cons, List.drop_append, List.drop_eq_nil_of_le (by simp), List.nil_append,
        length_wordToBeBytes, Nat.mul_succ, Nat.add_sub_cancel, ih, List.drop_succ_cons]

theorem readU256_flatMap_wordToBeBytes {ws : List ℕ} (hws : ∀ w ∈ ws, w < 2 ^ 256) :
    readU256 (ws.flatMap wordToBeBytes) = readWord ws := by
  funext offset
  unfold readWord
  split
  · obtain ⟨i, rfl⟩ : ∃ i, offset = 32 * i := ⟨offset / 32, by omega⟩
    rw [Nat.mul_div_cancel_left i (by decide), readU256, length_flatMap_wordToBeBytes]
    by_cases hi : i < ws.length
    · have hget : ws[i]? = some ws[i] := List.getElem?_eq_getElem hi
      have hhead : (ws.drop i).flatMap wordToBeBytes =
          wordToBeBytes ws[i] ++ (ws.drop (i + 1)).flatMap wordToBeBytes := by
        rw [List.drop_eq_getElem_cons hi, List.flatMap_cons]
      rw [if_pos (by omega), hget, drop_flatMap_wordToBeBytes, hhead,
        List.take_left' (length_wordToBeBytes _),
        beValue_wordToBeBytes (hws _ (List.getElem_mem hi))]
    · rw [if_neg (by omega), List.getElem?_eq_none (by omega)]
  · rfl

variable (r : Reader)

def readG1 : Parser G1Point := do
  let x ← r.readU256
  let y ← r.readU256
  pure ⟨x, y⟩

/-- Run a parser `n` times. -/
def repeatRead {α : Type} (p : Parser α) : ℕ → Parser (List α)
  | 0 => pure []
  | n + 1 => do
    let a ← p
    let rest ← repeatRead p n
    pure (a :: rest)

/-- A count followed by that many elements. -/
def readArray {α : Type} (p : Parser α) : Parser (List α) := do
  let n ← r.readUsize
  repeatRead p n

/-- A count and a skip of `size` bytes for each element. -/
def skipArray (size : ℕ) : Parser Unit := do
  let n ← r.readUsize
  r.advance (n * size)

def decodePodp : Parser PODPProof := do
  let commitD ← readG1 r
  let commitDDotA ← readG1 r
  let zVector ← readArray r r.readU256
  let zDelta ← r.readU256
  let zBeta ← r.readU256
  pure ⟨commitD, commitDDotA, zVector, zDelta, zBeta⟩

def decodePop : Parser ProofOfProduct := do
  let alpha ← readG1 r
  let beta ← readG1 r
  let delta ← readG1 r
  let z1 ← r.readU256
  let z2 ← r.readU256
  let z3 ← r.readU256
  let z4 ← r.readU256
  let z5 ← r.readU256
  pure ⟨alpha, beta, delta, z1, z2, z3, z4, z5⟩

/-- The claim aggregation of a layer is present when the flag is one, and is skipped. -/
def skipAggregation : Parser Unit := do
  let hasAgg ← r.readUsize
  if hasAgg = 1 then
    skipArray r 64
    skipArray r 128
    skipArray r 96
  else pure ()

def decodeCommittedLayerProof : Parser CommittedLayerProof := do
  let sum ← readG1 r
  let messages ← readArray r (readG1 r)
  let podp ← decodePodp r
  let commitments ← readArray r (readG1 r)
  let pops ← readArray r (decodePop r)
  skipAggregation r
  pure ⟨⟨sum, messages, podp⟩, commitments, pops⟩

def decodeDagInputLayerProof : Parser DAGInputLayerProof := do
  let rows ← readArray r (readG1 r)
  let evals ← readArray r do
    let podp ← decodePodp r
    let comEval ← readG1 r
    pure (podp, comEval)
  pure ⟨rows, evals.map Prod.fst, evals.map Prod.snd⟩

def decodePublicValueClaims : Parser (List PublicValueClaim) :=
  readArray r do
    let value ← r.readU256
    let blinding ← r.readU256
    let commitment ← readG1 r
    skipArray r 32
    pure ⟨value, blinding, commitment⟩

/-- `skip_claim`: value, blinding, commitment and point. -/
def skipClaim : Parser Unit := do
  r.advance 32
  r.advance 32
  r.advance 64
  skipArray r 32

/-- `decode_proof_common`: the output commitments, the layer proofs, and the offset at which the
public value claims start. -/
def decodeProofCommon : Parser (GKRProof × ℕ) := do
  r.advance 32
  let _ ← readArray r (skipArray r 32)
  let outputs ← readArray r (readG1 r)
  let layers ← readArray r (decodeCommittedLayerProof r)
  let _ ← readArray r (skipClaim r)
  let pubClaimsOffset ← get
  let _ ← readArray r (skipClaim r)
  pure (⟨outputs, layers⟩, pubClaimsOffset)

/-- `extract_embedded_public_inputs`: a pass that only skips, then one that reads. -/
def extractEmbeddedPublicInputs : Parser (List ℕ) := do
  r.advance 32
  let numSections ← r.readUsize
  let savedOffset ← get
  let _ ← repeatRead (skipArray r 32) numSections
  set savedOffset
  let sections ← repeatRead (readArray r r.readU256) numSections
  pure sections.flatten

/-- Everything that the DAG verifier takes from the proof bytes. -/
structure DecodedProof where
  gkrProof : GKRProof
  embeddedPubInputs : List ℕ
  dagInputProofs : List DAGInputLayerProof
  publicValueClaims : List PublicValueClaim
deriving DecidableEq, Repr

/-- The proof sections after the public inputs: layer proofs, public value claims, input proofs. -/
def decodeProofSections :
    Except DecodeError (GKRProof × List PublicValueClaim × List DAGInputLayerProof) := do
  let ((gkrProof, pubClaimsOffset), offset) ← (decodeProofCommon r).run 0
  let (claims, _) ← (decodePublicValueClaims r).run pubClaimsOffset
  let (inputs, _) ← (readArray r (decodeDagInputLayerProof r)).run offset
  pure (gkrProof, claims, inputs)

/-- `decode_proof_for_dag`. -/
def decodeProofForDag : Except DecodeError DecodedProof := do
  let (embedded, _) ← (extractEmbeddedPublicInputs r).run 0
  let (gkrProof, claims, inputs) ← decodeProofSections r
  pure ⟨gkrProof, embedded, inputs, claims⟩

/-- `decode_pedersen_gens`: empty data gives no message generators and generators at infinity. -/
def decodePedersenGens : Except DecodeError PedersenGens :=
  if r.isEmpty then pure ⟨[], G1Point.INFINITY, G1Point.INFINITY⟩
  else do
    let (gens, _) ← (do
      let messageGens ← readArray r (readG1 r)
      let scalarGen ← readG1 r
      let blindingGen ← readG1 r
      pure (⟨messageGens, scalarGen, blindingGen⟩ : PedersenGens) : Parser PedersenGens).run 0
    pure gens

/-! ## The flat circuit description -/

/-- The flat encoding of a description: two counts and eleven length-prefixed arrays. `usize`
reads an index word and `low64` keeps the lowest limb of a word. -/
def decodeCircuitDescription (usize : Parser ℕ) (low64 : ℕ → ℕ) :
    Parser DAGCircuitDescription := do
  let array {α : Type} (p : Parser α) : Parser (List α) := do
    let n ← usize
    repeatRead p n
  let numComputeLayers ← usize
  let numInputLayers ← usize
  let layerTypes ← array (do pure (low64 (← r.readU256) % 256))
  let numSumcheckRounds ← array usize
  let atomOffsets ← array usize
  let atomTargetLayers ← array usize
  let atomCommitIdxs ← array usize
  let ptOffsets ← array usize
  let ptData ← array (do pure (low64 (← r.readU256)))
  let inputIsCommitted ← array (do pure ((← r.readU256) != 0))
  let oracleProductOffsets ← array usize
  let oracleResultIdxs ← array usize
  let oracleExprCoeffs ← array r.readU256
  pure ⟨numComputeLayers, numInputLayers, layerTypes, numSumcheckRounds, atomOffsets,
    atomTargetLayers, atomCommitIdxs, ptOffsets, ptData, inputIsCommitted, oracleProductOffsets,
    oracleResultIdxs, oracleExprCoeffs⟩

end WorldZk.ProofDecoding
