import WorldZk.CurveOrder
import WorldZk.FlatDescription
import WorldZk.HexText

/-!
# Writing a proof

`abi_encode.rs` of the prover turns a Hyrax proof into the bytes that the verifiers decode. It
walks over the JSON form of the proof, in which field elements are hex texts of little-endian
bytes and curve points are hex texts of their compressed form, and appends words to a buffer.
-/

namespace WorldZk.ProofEncoding

open CheckedRuns ProofTypes ProofDecoding Transcript Bn254Moduli FieldArithmetic NativeCurve
open OffsetParsers HexText ZkmlVerifier JacobianLaw
open scoped NamedInstances

/-! ## Hyrax proofs -/

/-- A field element, as far as its encoding goes. -/
abbrev Scalar : Type := { n : ℕ // n < 2 ^ 256 }

/-- A curve point in affine coordinates, infinity included. -/
abbrev CurvePoint : Type := { p : G1Point // isOnCurve p = true }

structure ProofOfDotProduct where
  commitD : CurvePoint
  commitDDotA : CurvePoint
  zVector : List Scalar
  zDelta : Scalar
  zBeta : Scalar

structure ProofOfSumcheck where
  sum : CurvePoint
  messages : List CurvePoint
  podp : ProofOfDotProduct

structure HyraxProofOfProduct where
  alpha : CurvePoint
  beta : CurvePoint
  delta : CurvePoint
  z1 : Scalar
  z2 : Scalar
  z3 : Scalar
  z4 : Scalar
  z5 : Scalar

structure ProofOfOpening where
  z1 : Scalar
  z2 : Scalar
  alpha : CurvePoint

structure ProofOfEquality where
  alpha : CurvePoint
  z : Scalar

structure ProofOfClaimAggregation where
  interpolantCoeffs : List CurvePoint
  proofsOfOpening : List ProofOfOpening
  proofsOfEquality : List ProofOfEquality

structure HyraxLayerProof where
  proofOfSumcheck : ProofOfSumcheck
  commitments : List CurvePoint
  proofsOfProduct : List HyraxProofOfProduct
  maybeProofOfClaimAgg : Option ProofOfClaimAggregation

/-- A claim with its committed evaluation. -/
structure HyraxClaim where
  value : Scalar
  blinding : Scalar
  commitment : CurvePoint
  point : List Scalar

structure EvaluationProof where
  podpEvaluationProof : ProofOfDotProduct
  commitmentToEvaluation : CurvePoint

structure HyraxInputProof where
  inputCommitment : List CurvePoint
  evaluationProofs : List EvaluationProof

/-- The evaluations of a public input, stored unpacked in `naive_buf`. -/
structure Mle where
  naiveBuf : List Scalar
  numElements : ℕ
  numElements_le : numElements ≤ naiveBuf.length

structure HyraxProof where
  publicInputs : List (Option Mle)
  outputClaimCommitments : List CurvePoint
  layerProofs : List HyraxLayerProof
  fiatShamirClaims : List HyraxClaim
  claimsOnPublicValues : List HyraxClaim
  hyraxInputProofs : List HyraxInputProof

/-! ## The JSON form of a field element and of a point -/

/-- Field elements serialise as the hex text of their little-endian bytes. -/
def scalarJson (z : Scalar) : List Char := hexEncode (wordToLeBytes z.val)

/-- Points serialise compressed: the `x` coordinate in little-endian bytes, with the parity of `y`
in bit 6 and the infinity flag in bit 7 of the last one. -/
def compressPoint (p : CurvePoint) : List UInt8 :=
  if p.val.isInfinity then wordToLeBytes (2 ^ 255)
  else wordToLeBytes (p.val.x + p.val.y % 2 * 2 ^ 254)

def pointJson (p : CurvePoint) : List Char := hexEncode (compressPoint p)

/-! ## The encoder -/

/-- Why encoding stops. -/
inductive EncodeError
  | invalidPointHex
  | compressedLength (len : ℕ)
  | invalidX
  | noSqrt
  | invalidScalarHex
deriving DecidableEq, Repr

/-- A step of the encoder appends to the buffer. -/
abbrev Encoder : Type := StateT (List UInt8) (Except EncodeError) Unit

/-- `extend_from_slice`. -/
def extendFromSlice (bytes : List UInt8) : Encoder := fun buf => .ok ((), buf ++ bytes)

/-- `encode_u256`. -/
def encodeU256 (val : ℕ) : Encoder := extendFromSlice (wordToBeBytes (val % 2 ^ 64))

/-- `trim_start_matches("0x")`. -/
def trimStartMatches0x : List Char → List Char
  | '0' :: 'x' :: rest => trimStartMatches0x rest
  | text => text

/-- `encode_fr_from_json`. -/
def encodeFrFromJson (json : List Char) : Encoder :=
  match hexDecode (trimStartMatches0x json) with
  | none => throw .invalidScalarHex
  | some bytes => extendFromSlice ((bytes ++ List.replicate 32 0).take 32).reverse

section Points

-- the square root of the base field
variable (sqrt : ZMod FQ_MOD → Option (ZMod FQ_MOD))

/-- `decompress_point`, with the two coordinates as numbers below the modulus. -/
def decompressPoint (compressed : List UInt8) : Except EncodeError (ℕ × ℕ) :=
  if compressed.isEmpty then .ok (0, 0)
  else if compressed.length ≠ 32 then .error (.compressedLength compressed.length)
  else
    let last := (compressed.getD 31 0).toNat
    let isInfinity := last / 2 ^ 7 % 2
    let ySign := last / 2 ^ 6 % 2
    let x := leValue (compressed.take 31 ++ [UInt8.ofNat (last % 2 ^ 6)])
    if isInfinity = 1 then .ok (0, 0)
    else if FQ_MOD ≤ x then .error .invalidX
    else
      let y2 := (x : ZMod FQ_MOD) * x * x + 3
      match sqrt y2 with
      | none => .error .noSqrt
      | some y => .ok (x, if y.val % 2 ≠ ySign then (-y).val else y.val)

/-- `encode_point_from_json`. -/
def encodePointFromJson (json : List Char) : Encoder :=
  match hexDecode (trimStartMatches0x json) with
  | none => throw .invalidPointHex
  | some bytes => do
    let (x, y) ← (decompressPoint sqrt bytes : Except EncodeError (ℕ × ℕ))
    extendFromSlice (wordToBeBytes x ++ wordToBeBytes y)

def encodeScalar (z : Scalar) : Encoder := encodeFrFromJson (scalarJson z)

def encodePoint (p : CurvePoint) : Encoder := encodePointFromJson sqrt (pointJson p)

/-- A count, then the elements in turn. -/
def encodeArray {α : Type} (encodeElem : α → Encoder) (xs : List α) : Encoder := do
  encodeU256 xs.length
  xs.forM encodeElem

/-- `encode_podp_from_json`. -/
def encodePodp (podp : ProofOfDotProduct) : Encoder := do
  encodePoint sqrt podp.commitD
  encodePoint sqrt podp.commitDDotA
  encodeArray encodeScalar podp.zVector
  encodeScalar podp.zDelta
  encodeScalar podp.zBeta

def encodePop (pop : HyraxProofOfProduct) : Encoder := do
  encodePoint sqrt pop.alpha
  encodePoint sqrt pop.beta
  encodePoint sqrt pop.delta
  encodeScalar pop.z1
  encodeScalar pop.z2
  encodeScalar pop.z3
  encodeScalar pop.z4
  encodeScalar pop.z5

def encodeOpening (opening : ProofOfOpening) : Encoder := do
  encodeScalar opening.z1
  encodeScalar opening.z2
  encodePoint sqrt opening.alpha

def encodeEquality (equality : ProofOfEquality) : Encoder := do
  encodePoint sqrt equality.alpha
  encodeScalar equality.z

/-- The claim aggregation of a layer: a flag, and the three lists where the flag is one. -/
def encodeAggregation : Option ProofOfClaimAggregation → Encoder
  | none => encodeU256 0
  | some agg => do
    encodeU256 1
    encodeArray (encodePoint sqrt) agg.interpolantCoeffs
    encodeArray (encodeOpening sqrt) agg.proofsOfOpening
    encodeArray (encodeEquality sqrt) agg.proofsOfEquality

/-- `encode_layer_proof`. -/
def encodeLayerProof (lp : HyraxLayerProof) : Encoder := do
  encodePoint sqrt lp.proofOfSumcheck.sum
  encodeArray (encodePoint sqrt) lp.proofOfSumcheck.messages
  encodePodp sqrt lp.proofOfSumcheck.podp
  encodeArray (encodePoint sqrt) lp.commitments
  encodeArray (encodePop sqrt) lp.proofsOfProduct
  encodeAggregation sqrt lp.maybeProofOfClaimAgg

/-- `encode_hyrax_claim`. -/
def encodeHyraxClaim (claim : HyraxClaim) : Encoder := do
  encodeScalar claim.value
  encodeScalar claim.blinding
  encodePoint sqrt claim.commitment
  encodeArray encodeScalar claim.point

/-- One public input: its evaluations, or the count zero where there are none. -/
def encodePublicInput : Option Mle → Encoder
  | none => encodeU256 0
  | some mle => do
    encodeU256 mle.numElements
    (mle.naiveBuf.take mle.numElements).forM encodeScalar

def encodeEvaluationProof (ep : EvaluationProof) : Encoder := do
  encodePodp sqrt ep.podpEvaluationProof
  encodePoint sqrt ep.commitmentToEvaluation

def encodeInputProof (ip : HyraxInputProof) : Encoder := do
  encodeArray (encodePoint sqrt) ip.inputCommitment
  encodeArray (encodeEvaluationProof sqrt) ip.evaluationProofs

/-- The sections after the circuit hash. -/
def encodeSections (proof : HyraxProof) : Encoder := do
  encodeArray encodePublicInput proof.publicInputs
  encodeArray (encodePoint sqrt) proof.outputClaimCommitments
  encodeArray (encodeLayerProof sqrt) proof.layerProofs
  encodeArray (encodeHyraxClaim sqrt) proof.fiatShamirClaims
  encodeArray (encodeHyraxClaim sqrt) proof.claimsOnPublicValues
  encodeArray (encodeInputProof sqrt) proof.hyraxInputProofs

/-- `encode_hyrax_proof`. -/
def encodeHyraxProof (proof : HyraxProof) (circuitHash : List UInt8) :
    Except EncodeError (List UInt8) := do
  let ((), buf) ← (encodeSections sqrt proof).run (SELECTOR ++ circuitHash)
  pure buf

end Points

/-! ## Decompression -/

/-- What is documented of the square root: a returned value is a root, and every square has one. -/
structure IsSqrt (sqrt : ZMod FQ_MOD → Option (ZMod FQ_MOD)) : Prop where
  root : ∀ a r, sqrt a = some r → r * r = a
  isSome : ∀ y, (sqrt (y * y)).isSome

private theorem leValue_append_singleton (bytes : List UInt8) (last : UInt8) :
    leValue (bytes ++ [last]) = leValue bytes + 256 ^ bytes.length * last.toNat := by
  induction bytes with
  | nil => simp [leValue]
  | cons x bytes ih =>
    unfold leValue at ih ⊢
    rw [List.cons_append, List.foldr_cons, List.foldr_cons, ih, List.length_cons, Nat.pow_succ]
    ring

private theorem split_last (w : ℕ) :
    ((wordToLeBytes w).getD 31 0).toNat = w / 2 ^ 248 % 256 ∧
      leValue ((wordToLeBytes w).take 31 ++
        [UInt8.ofNat (((wordToLeBytes w).getD 31 0).toNat % 2 ^ 6)]) = w % 2 ^ 254 := by
  have hlast : ((wordToLeBytes w).getD 31 0).toNat = w / 2 ^ 248 % 256 := by
    simp [wordToLeBytes, List.getD]
  have hinit : (wordToLeBytes w).take 31 =
      (List.range 31).map fun i => UInt8.ofNat (w / 256 ^ i) := by
    rw [wordToLeBytes, ← List.map_take]
    rfl
  refine ⟨hlast, ?_⟩
  rw [leValue_append_singleton, hinit, leValue_digits, hlast, List.length_map, List.length_range,
    UInt8.toNat_ofNat']
  norm_num only
  omega

private theorem neg_val_parity {y : ZMod FQ_MOD} (hy : y ≠ 0) : (-y).val % 2 ≠ y.val % 2 := by
  have hodd : FQ_MOD % 2 = 1 := by decide
  have hlt := ZMod.val_lt y
  rw [ZMod.neg_val, if_neg hy]
  omega

private theorem root_of_parity {y r : ZMod FQ_MOD} (hr : r * r = y * y) :
    (if r.val % 2 ≠ y.val % 2 then (-r).val else r.val) = y.val := by
  rcases mul_self_eq_mul_self_iff.mp hr with rfl | rfl
  · simp
  · by_cases hy : y = 0
    · subst hy
      simp
    · rw [if_pos (neg_val_parity hy), neg_neg]

theorem decompressPoint_compressPoint {sqrt : ZMod FQ_MOD → Option (ZMod FQ_MOD)}
    (hsqrt : IsSqrt sqrt) (p : CurvePoint) :
    decompressPoint sqrt (compressPoint p) = .ok (p.val.x, p.val.y) := by
  obtain ⟨P, hP⟩ := (isOnCurve_iff p.val).mp p.property
  have hlength : ∀ w, (wordToLeBytes w).length = 32 := by simp [wordToLeBytes]
  have hnonempty : ∀ w, (wordToLeBytes w).isEmpty = false := fun w => by
    rw [List.isEmpty_eq_false_iff_exists_mem]
    exact List.exists_mem_of_length_pos (by rw [hlength]; decide)
  unfold compressPoint
  cases P with
  | zero =>
    obtain ⟨hlast, hx⟩ := split_last (2 ^ 255)
    have hinf : p.val = G1Point.INFINITY := hP.symm
    rw [if_pos (by rw [hinf]; rfl), decompressPoint, hnonempty, if_neg (by decide),
      if_neg (not_not.mpr (hlength _))]
    simp only [hlast, hinf]
    rw [if_pos (by norm_num)]
    rfl
  | some x y hxy =>
    have heq := (equation_iff_short x y).mp hxy.1
    have hx : p.val.x = x.val := by rw [← hP, encode_some]
    have hy : p.val.y = y.val := by rw [← hP, encode_some]
    have hlt : x.val < FQ_MOD := ZMod.val_lt x
    have hFQ : FQ_MOD < 2 ^ 254 := by decide
    have hfinite : p.val.isInfinity = false := by
      rw [Bool.eq_false_iff, ne_eq, G1Point.isInfinity_iff, ← hP, encode_eq_infinity_iff]
      exact fun h => by cases h
    obtain ⟨hlast, hsplit⟩ := split_last (x.val + y.val % 2 * 2 ^ 254)
    have hflag : (x.val + y.val % 2 * 2 ^ 254) / 2 ^ 248 % 256 / 2 ^ 7 % 2 = 0 := by
      norm_num only at *
      omega
    have hsign : (x.val + y.val % 2 * 2 ^ 254) / 2 ^ 248 % 256 / 2 ^ 6 % 2 = y.val % 2 := by
      norm_num only at *
      omega
    have hmod : (x.val + y.val % 2 * 2 ^ 254) % 2 ^ 254 = x.val := by
      rw [Nat.add_mul_mod_self_right, Nat.mod_eq_of_lt (hlt.trans hFQ)]
    have hsquare : x * x * x + 3 = y * y := by linear_combination -heq
    obtain ⟨r, hr⟩ := Option.isSome_iff_exists.mp (hsqrt.isSome y)
    rw [hfinite, hx, hy, if_neg Bool.false_ne_true, decompressPoint, hnonempty,
      if_neg Bool.false_ne_true, if_neg (not_not.mpr (hlength _))]
    rw [hlast] at hsplit
    simp only [hlast, hsplit]
    rw [hflag, hsign, hmod, if_neg Nat.zero_ne_one, if_neg (not_le.mpr hlt),
      ZMod.natCast_rightInverse, hsquare, hr]
    simp only [root_of_parity (hsqrt.root _ _ hr)]

/-! ## The words of a proof -/

section Words

def scalarWords (z : Scalar) : List ℕ := [z.val]

def pointWords (p : CurvePoint) : List ℕ := [p.val.x, p.val.y]

def arrayWords {α : Type} (words : α → List ℕ) (xs : List α) : List ℕ :=
  [xs.length] ++ xs.flatMap words

def podpWords (podp : ProofOfDotProduct) : List ℕ :=
  pointWords podp.commitD ++ (pointWords podp.commitDDotA ++
    (arrayWords scalarWords podp.zVector ++ (scalarWords podp.zDelta ++ scalarWords podp.zBeta)))

def popWords (pop : HyraxProofOfProduct) : List ℕ :=
  pointWords pop.alpha ++ (pointWords pop.beta ++ (pointWords pop.delta ++ (scalarWords pop.z1 ++
    (scalarWords pop.z2 ++ (scalarWords pop.z3 ++ (scalarWords pop.z4 ++ scalarWords pop.z5))))))

def openingWords (opening : ProofOfOpening) : List ℕ :=
  scalarWords opening.z1 ++ (scalarWords opening.z2 ++ pointWords opening.alpha)

def equalityWords (equality : ProofOfEquality) : List ℕ :=
  pointWords equality.alpha ++ scalarWords equality.z

def aggregationWords : Option ProofOfClaimAggregation → List ℕ
  | none => [0]
  | some agg => [1] ++ (arrayWords pointWords agg.interpolantCoeffs ++
      (arrayWords openingWords agg.proofsOfOpening ++
        arrayWords equalityWords agg.proofsOfEquality))

def layerWords (lp : HyraxLayerProof) : List ℕ :=
  pointWords lp.proofOfSumcheck.sum ++ (arrayWords pointWords lp.proofOfSumcheck.messages ++
    (podpWords lp.proofOfSumcheck.podp ++ (arrayWords pointWords lp.commitments ++
      (arrayWords popWords lp.proofsOfProduct ++ aggregationWords lp.maybeProofOfClaimAgg))))

def claimWords (claim : HyraxClaim) : List ℕ :=
  scalarWords claim.value ++ (scalarWords claim.blinding ++ (pointWords claim.commitment ++
    arrayWords scalarWords claim.point))

/-- The evaluations of a public input, none where it is absent. -/
def publicInputValues (input : Option Mle) : List Scalar :=
  input.elim [] fun mle => mle.naiveBuf.take mle.numElements

def evaluationWords (ep : EvaluationProof) : List ℕ :=
  podpWords ep.podpEvaluationProof ++ pointWords ep.commitmentToEvaluation

def inputWords (ip : HyraxInputProof) : List ℕ :=
  arrayWords pointWords ip.inputCommitment ++ arrayWords evaluationWords ip.evaluationProofs

/-- The words up to the claims on public values. -/
def commonWords (proof : HyraxProof) : List ℕ :=
  arrayWords (fun input => arrayWords scalarWords (publicInputValues input)) proof.publicInputs ++
    (arrayWords pointWords proof.outputClaimCommitments ++
      (arrayWords layerWords proof.layerProofs ++ arrayWords claimWords proof.fiatShamirClaims))

/-- The words after the circuit hash. -/
def proofWords (proof : HyraxProof) : List ℕ :=
  commonWords proof ++ (arrayWords claimWords proof.claimsOnPublicValues ++
    arrayWords inputWords proof.hyraxInputProofs)

end Words

/-! ## Counts -/

/-- A list that the decoder's cap on counts admits. -/
def Fits {α : Type} (xs : List α) : Prop := xs.length ≤ MAX_ARRAY_LEN

def podpFits (podp : ProofOfDotProduct) : Prop := Fits podp.zVector

structure AggregationFits (agg : ProofOfClaimAggregation) : Prop where
  coeffs : Fits agg.interpolantCoeffs
  openings : Fits agg.proofsOfOpening
  equalities : Fits agg.proofsOfEquality

structure LayerFits (lp : HyraxLayerProof) : Prop where
  messages : Fits lp.proofOfSumcheck.messages
  podp : podpFits lp.proofOfSumcheck.podp
  commitments : Fits lp.commitments
  pops : Fits lp.proofsOfProduct
  aggregation : ∀ agg ∈ lp.maybeProofOfClaimAgg, AggregationFits agg

structure InputFits (ip : HyraxInputProof) : Prop where
  rows : Fits ip.inputCommitment
  evaluations : Fits ip.evaluationProofs
  podps : ∀ ep ∈ ip.evaluationProofs, podpFits ep.podpEvaluationProof

/-- Every count of the proof is at most `MAX_ARRAY_LEN`. -/
structure CountsFit (proof : HyraxProof) : Prop where
  publicInputs : Fits proof.publicInputs
  evaluations : ∀ input ∈ proof.publicInputs, Fits (publicInputValues input)
  outputs : Fits proof.outputClaimCommitments
  layerProofs : Fits proof.layerProofs
  layers : ∀ lp ∈ proof.layerProofs, LayerFits lp
  fiatShamirClaims : Fits proof.fiatShamirClaims
  publicClaims : Fits proof.claimsOnPublicValues
  points : ∀ claim ∈ proof.fiatShamirClaims ++ proof.claimsOnPublicValues, Fits claim.point
  inputProofs : Fits proof.hyraxInputProofs
  inputs : ∀ ip ∈ proof.hyraxInputProofs, InputFits ip

/-! ## What the encoder writes -/

/-- The step appends the words `ws` to the buffer. -/
structure Writes (e : Encoder) (ws : List ℕ) : Prop where
  run : ∀ buf, e.run buf = .ok ((), buf ++ ws.flatMap wordToBeBytes)
  word_lt : ∀ w ∈ ws, w < 2 ^ 256

theorem Writes.seq {e e' : Encoder} {ws ws' : List ℕ} (he : Writes e ws) (he' : Writes e' ws') :
    Writes (do e; e') (ws ++ ws') where
  run buf := by
    rw [StateT.run_bind, he.run, ok_bind, he'.run, List.flatMap_append, List.append_assoc]
  word_lt w hw := by
    rcases List.mem_append.mp hw with hw | hw
    · exact he.word_lt w hw
    · exact he'.word_lt w hw

theorem writes_forM {α : Type} {encodeElem : α → Encoder} {words : α → List ℕ} {xs : List α}
    (h : ∀ x ∈ xs, Writes (encodeElem x) (words x)) :
    Writes (xs.forM encodeElem) (xs.flatMap words) := by
  induction xs with
  | nil =>
    refine ⟨fun buf => ?_, by simp⟩
    rw [List.flatMap_nil, List.flatMap_nil, List.append_nil]
    rfl
  | cons x xs ih =>
    have hrest := ih fun y hy => h y (List.mem_cons_of_mem _ hy)
    exact (h x List.mem_cons_self).seq hrest

theorem writes_encodeU256 {n : ℕ} (hn : n < 2 ^ 64) : Writes (encodeU256 n) [n] where
  run buf := by
    rw [encodeU256, Nat.mod_eq_of_lt hn, List.flatMap_singleton]
    rfl
  word_lt w hw := by
    rw [List.mem_singleton.mp hw]
    exact hn.trans (by decide)

theorem writes_encodeArray {α : Type} {encodeElem : α → Encoder} {words : α → List ℕ}
    {xs : List α} (hxs : Fits xs) (h : ∀ x ∈ xs, Writes (encodeElem x) (words x)) :
    Writes (encodeArray encodeElem xs) (arrayWords words xs) :=
  (writes_encodeU256 (lt_of_le_of_lt hxs (by decide))).seq (writes_forM h)

private theorem hexDigit_ne_x : ∀ n < 16, hexDigit n ≠ 'x' := by decide

private theorem trimStartMatches0x_hexEncode (bytes : List UInt8) :
    trimStartMatches0x (hexEncode bytes) = hexEncode bytes := by
  cases bytes with
  | nil => rfl
  | cons x bytes =>
    have hx : x.toNat % 16 < 16 := Nat.mod_lt _ (by decide)
    change trimStartMatches0x (hexDigit (x.toNat / 16) :: hexDigit (x.toNat % 16) ::
      hexEncode bytes) = _
    unfold trimStartMatches0x
    split
    · next heq =>
      obtain ⟨-, htail⟩ := List.cons.inj heq
      exact absurd (List.cons.inj htail).1 (hexDigit_ne_x _ hx)
    · rfl

theorem writes_encodeScalar (z : Scalar) : Writes (encodeScalar z) (scalarWords z) where
  run buf := by
    have hlen : (wordToLeBytes z.val).length = 32 := by simp [wordToLeBytes]
    rw [encodeScalar, encodeFrFromJson, scalarJson, trimStartMatches0x_hexEncode,
      hexDecode_hexEncode]
    simp only [List.take_left' hlen]
    rw [scalarWords, List.flatMap_singleton]
    rfl
  word_lt w hw := by
    rw [List.mem_singleton.mp hw]
    exact z.property

theorem coordinates_lt (p : CurvePoint) : p.val.x < FQ_MOD ∧ p.val.y < FQ_MOD := by
  obtain ⟨P, hP⟩ := (isOnCurve_iff p.val).mp p.property
  rw [← hP]
  cases P with
  | zero => exact ⟨by decide, by decide⟩
  | some x y hxy => exact ⟨ZMod.val_lt x, ZMod.val_lt y⟩

section Writers

variable {sqrt : ZMod FQ_MOD → Option (ZMod FQ_MOD)} (hsqrt : IsSqrt sqrt)

include hsqrt

theorem writes_encodePoint (p : CurvePoint) : Writes (encodePoint sqrt p) (pointWords p) where
  run buf := by
    rw [encodePoint, encodePointFromJson, pointJson, trimStartMatches0x_hexEncode,
      hexDecode_hexEncode]
    simp only [decompressPoint_compressPoint hsqrt]
    rw [pointWords, List.flatMap_cons, List.flatMap_singleton]
    rfl
  word_lt w hw := by
    obtain ⟨hx, hy⟩ := coordinates_lt p
    have hFQ := FQ_MOD_lt_word
    simp only [pointWords, List.mem_cons, List.not_mem_nil, or_false] at hw
    omega

theorem writes_encodePodp {podp : ProofOfDotProduct} (h : podpFits podp) :
    Writes (encodePodp sqrt podp) (podpWords podp) :=
  (writes_encodePoint hsqrt podp.commitD).seq <|
    (writes_encodePoint hsqrt podp.commitDDotA).seq <|
    (writes_encodeArray h fun z _ => writes_encodeScalar z).seq <|
    (writes_encodeScalar podp.zDelta).seq (writes_encodeScalar podp.zBeta)

theorem writes_encodePop (pop : HyraxProofOfProduct) :
    Writes (encodePop sqrt pop) (popWords pop) :=
  (writes_encodePoint hsqrt pop.alpha).seq <|
    (writes_encodePoint hsqrt pop.beta).seq <|
    (writes_encodePoint hsqrt pop.delta).seq <|
    (writes_encodeScalar pop.z1).seq <|
    (writes_encodeScalar pop.z2).seq <|
    (writes_encodeScalar pop.z3).seq <|
    (writes_encodeScalar pop.z4).seq (writes_encodeScalar pop.z5)

theorem writes_encodeOpening (opening : ProofOfOpening) :
    Writes (encodeOpening sqrt opening) (openingWords opening) :=
  (writes_encodeScalar opening.z1).seq <|
    (writes_encodeScalar opening.z2).seq (writes_encodePoint hsqrt opening.alpha)

theorem writes_encodeEquality (equality : ProofOfEquality) :
    Writes (encodeEquality sqrt equality) (equalityWords equality) :=
  (writes_encodePoint hsqrt equality.alpha).seq (writes_encodeScalar equality.z)

theorem writes_encodeAggregation {agg : Option ProofOfClaimAggregation}
    (h : ∀ a ∈ agg, AggregationFits a) :
    Writes (encodeAggregation sqrt agg) (aggregationWords agg) := by
  cases agg with
  | none => exact writes_encodeU256 (by decide)
  | some agg =>
    obtain ⟨hcoeffs, hopenings, hequalities⟩ := h agg rfl
    refine (writes_encodeU256 (n := 1) (by decide)).seq ?_
    refine (writes_encodeArray hcoeffs fun p _ => writes_encodePoint hsqrt p).seq ?_
    refine (writes_encodeArray hopenings fun o _ => writes_encodeOpening hsqrt o).seq ?_
    exact writes_encodeArray hequalities fun e _ => writes_encodeEquality hsqrt e

theorem writes_encodeLayerProof {lp : HyraxLayerProof} (h : LayerFits lp) :
    Writes (encodeLayerProof sqrt lp) (layerWords lp) := by
  refine (writes_encodePoint hsqrt _).seq ?_
  refine (writes_encodeArray h.messages fun p _ => writes_encodePoint hsqrt p).seq ?_
  refine (writes_encodePodp hsqrt h.podp).seq ?_
  refine (writes_encodeArray h.commitments fun p _ => writes_encodePoint hsqrt p).seq ?_
  refine (writes_encodeArray h.pops fun pop _ => writes_encodePop hsqrt pop).seq ?_
  exact writes_encodeAggregation hsqrt h.aggregation

theorem writes_encodeHyraxClaim {claim : HyraxClaim} (h : Fits claim.point) :
    Writes (encodeHyraxClaim sqrt claim) (claimWords claim) :=
  (writes_encodeScalar claim.value).seq <|
    (writes_encodeScalar claim.blinding).seq <|
    (writes_encodePoint hsqrt claim.commitment).seq
      (writes_encodeArray h fun z _ => writes_encodeScalar z)

omit hsqrt in
theorem writes_encodePublicInput {input : Option Mle} (h : Fits (publicInputValues input)) :
    Writes (encodePublicInput input) (arrayWords scalarWords (publicInputValues input)) := by
  cases input with
  | none => exact writes_encodeU256 (by decide)
  | some mle =>
    have hlength : (publicInputValues (some mle)).length = mle.numElements := by
      rw [publicInputValues, Option.elim_some, List.length_take, min_eq_left mle.numElements_le]
    have hwrites : Writes (encodeArray encodeScalar (publicInputValues (some mle))) _ :=
      writes_encodeArray h fun z _ => writes_encodeScalar z
    rw [encodeArray, hlength] at hwrites
    exact hwrites

theorem writes_encodeInputProof {ip : HyraxInputProof} (h : InputFits ip) :
    Writes (encodeInputProof sqrt ip) (inputWords ip) := by
  refine (writes_encodeArray h.rows fun p _ => writes_encodePoint hsqrt p).seq ?_
  refine writes_encodeArray h.evaluations fun ep hep => ?_
  exact (writes_encodePodp hsqrt (h.podps ep hep)).seq (writes_encodePoint hsqrt _)

theorem writes_encodeSections {proof : HyraxProof} (h : CountsFit proof) :
    Writes (encodeSections sqrt proof) (proofWords proof) := by
  have hpoint {claim : HyraxClaim} (hclaim : claim ∈ proof.fiatShamirClaims ∨
      claim ∈ proof.claimsOnPublicValues) : Fits claim.point :=
    h.points claim (List.mem_append.mpr hclaim)
  rw [proofWords, commonWords]
  simp only [List.append_assoc]
  refine (writes_encodeArray h.publicInputs fun input hinput =>
    writes_encodePublicInput (h.evaluations input hinput)).seq ?_
  refine (writes_encodeArray h.outputs fun p _ => writes_encodePoint hsqrt p).seq ?_
  refine (writes_encodeArray h.layerProofs fun lp hlp =>
    writes_encodeLayerProof hsqrt (h.layers lp hlp)).seq ?_
  refine (writes_encodeArray h.fiatShamirClaims fun claim hclaim =>
    writes_encodeHyraxClaim hsqrt (hpoint (.inl hclaim))).seq ?_
  refine (writes_encodeArray h.publicClaims fun claim hclaim =>
    writes_encodeHyraxClaim hsqrt (hpoint (.inr hclaim))).seq ?_
  exact writes_encodeArray h.inputProofs fun ip hip =>
    writes_encodeInputProof hsqrt (h.inputs ip hip)

theorem encodeHyraxProof_eq_ok {proof : HyraxProof} (h : CountsFit proof)
    (circuitHash : List UInt8) :
    encodeHyraxProof sqrt proof circuitHash =
      .ok (SELECTOR ++ circuitHash ++ (proofWords proof).flatMap wordToBeBytes) := by
  rw [encodeHyraxProof, (writes_encodeSections hsqrt h).run]
  rfl

end Writers

end WorldZk.ProofEncoding
