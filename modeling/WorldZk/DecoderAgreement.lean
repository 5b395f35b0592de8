import WorldZk.EncodingRoundTrip
import WorldZk.ParserRelations

/-!
# The two sets of proof decoders

Every section decoder of the crate exists twice: `try_decode_*` checks each count and each skip and
returns errors, and the older `decode_*` panics at a read past the end and adds up offsets without
a check. Both are the decoders of `ProofDecoding`, over the two readers.
-/

namespace WorldZk.DecoderAgreement

open CheckedRuns EncodingRoundTrip ParserRelations ProofDecoding ProofTypes Transcript
open ZkmlVerifier

/-! ## The panicking decoders -/

/-- The primitive reads of the panicking decoders, where an error is a panic. A build with overflow
checks panics when an offset leaves `usize`, one without them goes on with what is left of it. -/
def panickingReader (overflowChecks : Bool) (data : List UInt8) : Reader where
  isEmpty := data.isEmpty
  readU256 := readU256 data
  readUsize := tryReadUsizeFrom data
  advance n := fun offset =>
    if overflowChecks = true ∧ 2 ^ 64 ≤ offset + n then .error .offsetOverflow
    else .ok ((), (offset + n) % 2 ^ 64)

/-- The reader that stops at a count above the maximum. -/
def countsCapped (r : Reader) : Reader :=
  { r with
    readUsize := do
      let v ← r.readUsize
      if v ≤ MAX_ARRAY_LEN then pure v else throw .arrayTooLong }

/-- The panicking decoders on data without a count above the maximum. -/
abbrev cappedReader (overflowChecks : Bool) (data : List UInt8) : Reader :=
  countsCapped (panickingReader overflowChecks data)

/-! ## The section decoders -/

inductive ProofSection : Type → Type
  | podp : ProofSection PODPProof
  | pop : ProofSection ProofOfProduct
  | committedLayerProof : ProofSection CommittedLayerProof
  | dagInputLayerProof : ProofSection DAGInputLayerProof
  | publicValueClaims : ProofSection (List PublicValueClaim)
  | skippedClaim : ProofSection Unit
  | proofCommon : ProofSection (GKRProof × ℕ)
  | embeddedPublicInputs : ProofSection (List ℕ)
  | proofForDag : ProofSection DecodedProof
  | pedersenGens : ProofSection PedersenGens

namespace ProofSection

variable {α : Type}

/-- The decoder of a section. The generators are read by a decoder of their own. -/
def decode (r : Reader) : ProofSection α → Parser α
  | podp => decodePodp r
  | pop => decodePop r
  | committedLayerProof => decodeCommittedLayerProof r
  | dagInputLayerProof => decodeDagInputLayerProof r
  | publicValueClaims => decodePublicValueClaims r
  | skippedClaim => skipClaim r
  | proofCommon => decodeProofCommon r
  | embeddedPublicInputs => extractEmbeddedPublicInputs r
  | proofForDag => tryDecodeProofForDag r
  | pedersenGens => fun offset => do
    let gens ← decodePedersenGens r
    pure (gens, offset)

/-- The last move of the decoder may be a skip. -/
def EndsInSkip : ProofSection α → Prop
  | committedLayerProof => True
  | publicValueClaims => True
  | skippedClaim => True
  | proofCommon => True
  | _ => False

/-- The decoder reads no count above the maximum. The flag of a claim aggregation is read as a
count. -/
def CountsWithin (part : ProofSection α) (r : Reader) (offset : ℕ) : Prop :=
  (part.decode (countsCapped r)).run offset ≠ .error .arrayTooLong

end ProofSection

/-! ## Their shape -/

/-- `decode_proof_common` after the circuit hash. -/
def commonSections (r : Reader) : Parser (GKRProof × ℕ) := do
  let _ ← readArray r (skipArray r 32)
  let outputs ← readArray r (readG1 r)
  let layers ← readArray r (decodeCommittedLayerProof r)
  let _ ← readArray r (skipClaim r)
  let pubClaimsOffset ← get
  let _ ← readArray r (skipClaim r)
  pure (⟨outputs, layers⟩, pubClaimsOffset)

/-- What `decode_pedersen_gens` reads when there is data. -/
def pedersenGensSections (r : Reader) : Parser PedersenGens := do
  let messageGens ← readArray r (readG1 r)
  let scalarGen ← readG1 r
  let blindingGen ← readG1 r
  pure ⟨messageGens, scalarGen, blindingGen⟩

/-- The decoders that start elsewhere, as jumps of one decoder. -/
theorem tryDecodeProofForDag_eq (r : Reader) :
    tryDecodeProofForDag r = (do
      let start ← get
      set 0
      let embedded ← extractEmbeddedPublicInputs r
      set start
      let common ← decodeProofCommon r
      let mid ← get
      set common.2
      let claims ← decodePublicValueClaims r
      set mid
      let inputs ← readArray r (decodeDagInputLayerProof r)
      pure ⟨common.1, embedded, inputs, claims⟩) := rfl

theorem decode_pedersenGens_eq (r : Reader) :
    ProofSection.pedersenGens.decode r =
      (if r.isEmpty then pure ⟨[], G1Point.INFINITY, G1Point.INFINITY⟩
      else do
        let start ← get
        set 0
        let gens ← pedersenGensSections r
        set start
        pure gens) := by
  funext offset
  cases hempty : r.isEmpty with
  | true =>
    simp only [ProofSection.decode, decodePedersenGens, hempty]
    rfl
  | false =>
    simp only [ProofSection.decode, decodePedersenGens, hempty]
    rw [if_neg Bool.false_ne_true, if_neg Bool.false_ne_true, bind_assoc]
    rfl

/-! ## Relations between readers -/

/-- The reads of two readers are related, and the moves that the decoders make between reads. -/
structure Related (R : ParserRelation DecodeError) (r r' : Reader) : Prop where
  congruence : Congruence R
  readU256 : R _ r.readU256 r'.readU256
  readUsize : R _ r.readUsize r'.readUsize
  skipArray : ∀ size ≤ 128, R _ (skipArray r size) (skipArray r' size)
  skipClaim : R _ (skipClaim r) (skipClaim r')

namespace Related

variable {R : ParserRelation DecodeError} {r r' : Reader} {α : Type} {p q : Parser α}

theorem readG1 (h : Related R r r') : R _ (readG1 r) (readG1 r') :=
  h.congruence.bind h.readU256 fun _ => h.congruence.bind h.readU256 fun _ => h.congruence.pure _

theorem repeatRead (h : Related R r r') (hp : R _ p q) (n : ℕ) :
    R _ (repeatRead p n) (repeatRead q n) := by
  induction n with
  | zero => exact h.congruence.pure _
  | succ n ih =>
    exact h.congruence.bind hp fun _ => h.congruence.bind ih fun _ => h.congruence.pure _

theorem readArray (h : Related R r r') (hp : R _ p q) :
    R _ (readArray r p) (readArray r' q) :=
  h.congruence.bind h.readUsize fun n => h.repeatRead hp n

theorem decodePodp (h : Related R r r') : R _ (decodePodp r) (decodePodp r') :=
  h.congruence.bind h.readG1 fun _ => h.congruence.bind h.readG1 fun _ =>
    h.congruence.bind (h.readArray h.readU256) fun _ => h.congruence.bind h.readU256 fun _ =>
      h.congruence.bind h.readU256 fun _ => h.congruence.pure _

theorem decodePop (h : Related R r r') : R _ (decodePop r) (decodePop r') :=
  h.congruence.bind h.readG1 fun _ => h.congruence.bind h.readG1 fun _ =>
    h.congruence.bind h.readG1 fun _ => h.congruence.bind h.readU256 fun _ =>
      h.congruence.bind h.readU256 fun _ => h.congruence.bind h.readU256 fun _ =>
        h.congruence.bind h.readU256 fun _ => h.congruence.bind h.readU256 fun _ =>
          h.congruence.pure _

theorem skipAggregation (h : Related R r r') : R _ (skipAggregation r) (skipAggregation r') := by
  refine h.congruence.bind h.readUsize fun hasAgg => ?_
  split
  · exact h.congruence.bind (h.skipArray 64 (by decide)) fun _ =>
      h.congruence.bind (h.skipArray 128 (by decide)) fun _ => h.skipArray 96 (by decide)
  · exact h.congruence.pure _

theorem decodeCommittedLayerProof (h : Related R r r') :
    R _ (decodeCommittedLayerProof r) (decodeCommittedLayerProof r') :=
  h.congruence.bind h.readG1 fun _ => h.congruence.bind (h.readArray h.readG1) fun _ =>
    h.congruence.bind h.decodePodp fun _ => h.congruence.bind (h.readArray h.readG1) fun _ =>
      h.congruence.bind (h.readArray h.decodePop) fun _ =>
        h.congruence.bind h.skipAggregation fun _ => h.congruence.pure _

theorem decodeDagInputLayerProof (h : Related R r r') :
    R _ (decodeDagInputLayerProof r) (decodeDagInputLayerProof r') := by
  refine h.congruence.bind (h.readArray h.readG1) fun _ =>
    h.congruence.bind (h.readArray ?_) fun _ => h.congruence.pure _
  exact h.congruence.bind h.decodePodp fun _ =>
    h.congruence.bind h.readG1 fun _ => h.congruence.pure _

theorem decodePublicValueClaims (h : Related R r r') :
    R _ (decodePublicValueClaims r) (decodePublicValueClaims r') := by
  refine h.readArray ?_
  exact h.congruence.bind h.readU256 fun _ => h.congruence.bind h.readU256 fun _ =>
    h.congruence.bind h.readG1 fun _ => h.congruence.bind (h.skipArray 32 (by decide)) fun _ =>
      h.congruence.pure _

theorem pedersenGens (h : Related R r r') :
    R _ (pedersenGensSections r) (pedersenGensSections r') :=
  h.congruence.bind (h.readArray h.readG1) fun _ => h.congruence.bind h.readG1 fun _ =>
    h.congruence.bind h.readG1 fun _ => h.congruence.pure _

theorem commonSections (h : Related R r r') : R _ (commonSections r) (commonSections r') :=
  h.congruence.bind (h.readArray (h.skipArray 32 (by decide))) fun _ =>
    h.congruence.bind (h.readArray h.readG1) fun _ =>
      h.congruence.bind (h.readArray h.decodeCommittedLayerProof) fun _ =>
        h.congruence.bind (h.readArray h.skipClaim) fun _ =>
          h.congruence.bind h.congruence.get fun _ =>
            h.congruence.bind (h.readArray h.skipClaim) fun _ => h.congruence.pure _

end Related

/-- The relation holds of all that the decoders are made of, the bare skips and the jumps to another
offset included. -/
structure RelatedThroughout (R : ParserRelation DecodeError) (r r' : Reader) : Prop where
  congruence : Congruence R
  jump : ∀ offset : ℕ, R _ (set offset) (set offset)
  isEmpty : r.isEmpty = r'.isEmpty
  readU256 : R _ r.readU256 r'.readU256
  readUsize : R _ r.readUsize r'.readUsize
  advance : ∀ n, R _ (r.advance n) (r'.advance n)

namespace RelatedThroughout

variable {R : ParserRelation DecodeError} {r r' : Reader} {α : Type}

theorem related (h : RelatedThroughout R r r') : Related R r r' := by
  have hskip (size : ℕ) : R _ (skipArray r size) (skipArray r' size) :=
    h.congruence.bind h.readUsize fun n => h.advance (n * size)
  refine ⟨h.congruence, h.readU256, h.readUsize, fun size _ => hskip size, ?_⟩
  exact h.congruence.bind (h.advance 32) fun _ => h.congruence.bind (h.advance 32) fun _ =>
    h.congruence.bind (h.advance 64) fun _ => hskip 32

theorem extractEmbeddedPublicInputs (h : RelatedThroughout R r r') :
    R _ (extractEmbeddedPublicInputs r) (extractEmbeddedPublicInputs r') :=
  h.congruence.bind (h.advance 32) fun _ => h.congruence.bind h.readUsize fun n =>
    h.congruence.bind h.congruence.get fun saved =>
      h.congruence.bind (h.related.repeatRead (h.related.skipArray 32 (by decide)) n) fun _ =>
        h.congruence.bind (h.jump saved) fun _ =>
          h.congruence.bind (h.related.repeatRead (h.related.readArray h.readU256) n) fun _ =>
            h.congruence.pure _

theorem decodeProofCommon (h : RelatedThroughout R r r') :
    R _ (decodeProofCommon r) (decodeProofCommon r') :=
  h.congruence.bind (h.advance 32) fun _ => h.related.commonSections

theorem tryDecodeProofForDag (h : RelatedThroughout R r r') :
    R _ (tryDecodeProofForDag r) (tryDecodeProofForDag r') := by
  rw [tryDecodeProofForDag_eq, tryDecodeProofForDag_eq]
  exact h.congruence.bind h.congruence.get fun start => h.congruence.bind (h.jump 0) fun _ =>
    h.congruence.bind h.extractEmbeddedPublicInputs fun _ =>
      h.congruence.bind (h.jump start) fun _ => h.congruence.bind h.decodeProofCommon fun common =>
        h.congruence.bind h.congruence.get fun mid =>
          h.congruence.bind (h.jump common.2) fun _ =>
            h.congruence.bind h.related.decodePublicValueClaims fun _ =>
              h.congruence.bind (h.jump mid) fun _ =>
                h.congruence.bind (h.related.readArray h.related.decodeDagInputLayerProof) fun _ =>
                  h.congruence.pure _

theorem decode (h : RelatedThroughout R r r') (part : ProofSection α) :
    R _ (part.decode r) (part.decode r') := by
  cases part with
  | podp => exact h.related.decodePodp
  | pop => exact h.related.decodePop
  | committedLayerProof => exact h.related.decodeCommittedLayerProof
  | dagInputLayerProof => exact h.related.decodeDagInputLayerProof
  | publicValueClaims => exact h.related.decodePublicValueClaims
  | skippedClaim => exact h.related.skipClaim
  | proofCommon => exact h.decodeProofCommon
  | embeddedPublicInputs => exact h.extractEmbeddedPublicInputs
  | proofForDag => exact h.tryDecodeProofForDag
  | pedersenGens =>
    rw [decode_pedersenGens_eq, decode_pedersenGens_eq, h.isEmpty]
    split
    · exact h.congruence.pure _
    · exact h.congruence.bind h.congruence.get fun start => h.congruence.bind (h.jump 0) fun _ =>
        h.congruence.bind h.related.pedersenGens fun _ =>
          h.congruence.bind (h.jump start) fun _ => h.congruence.pure _

end RelatedThroughout

/-! ## The readers -/

section Readers

variable {overflowChecks : Bool} {data : List UInt8}

/-- What the checking reads return, the panicking ones return. -/
theorem refines_tryReader :
    RelatedThroughout (fun _ => Refines) (tryReader data)
      (panickingReader overflowChecks data) where
  congruence := refines_congruence
  jump := fun _ => .refl _
  isEmpty := rfl
  readU256 := .refl _
  readUsize := by
    intro offset v offset' h
    obtain ⟨w, mid, hw, hcap⟩ := run_bind_eq_ok.mp h
    split at hcap
    · obtain ⟨rfl, rfl⟩ := run_pure_eq_ok.mp hcap
      exact hw
    · cases hcap
  advance := by
    intro n offset u offset' h
    have hrun : (if 2 ^ 64 ≤ offset + n then .error .offsetOverflow
        else if data.length < offset + n then .error .outOfBounds
        else .ok ((), offset + n) : Except DecodeError (Unit × ℕ)) = .ok (u, offset') := h
    split at hrun
    · cases hrun
    · split at hrun
      · cases hrun
      · rename_i hfits _
        cases hrun
        change (if overflowChecks = true ∧ 2 ^ 64 ≤ offset + n then .error .offsetOverflow
          else .ok ((), (offset + n) % 2 ^ 64) : Except DecodeError (Unit × ℕ)) = _
        rw [if_neg (fun hover => hfits hover.2), Nat.mod_eq_of_lt (not_le.mp hfits)]

/-- Capping the counts changes a run only by stopping it. -/
theorem agreesUnless_countsCapped (r : Reader) :
    RelatedThroughout (fun _ => AgreesUnless DecodeError.arrayTooLong) (countsCapped r) r where
  congruence := agreesUnless_congruence DecodeError.arrayTooLong
  jump := fun _ => .refl _
  isEmpty := rfl
  readU256 := .refl _
  readUsize := by
    intro offset
    have hrun : (countsCapped r).readUsize.run offset = (r.readUsize.run offset >>= fun x =>
        (if x.1 ≤ MAX_ARRAY_LEN then pure x.1 else throw .arrayTooLong : Parser ℕ).run x.2) :=
      StateT.run_bind ..
    rw [hrun]
    cases r.readUsize.run offset with
    | error e => exact .inr rfl
    | ok x =>
      by_cases hx : x.1 ≤ MAX_ARRAY_LEN
      · rw [ok_bind, if_pos hx]
        exact .inr rfl
      · rw [ok_bind, if_neg hx]
        exact .inl rfl
  advance := fun _ => .refl _

theorem readU256_run {offset v offset' : ℕ} (h : (readU256 data).run offset = .ok (v, offset')) :
    offset' = offset + 32 ∧ offset' ≤ data.length := by
  have hrun : (if offset + 32 ≤ data.length then
      .ok (beValue ((data.drop offset).take 32), offset + 32)
      else .error .outOfBounds : Except DecodeError (ℕ × ℕ)) = .ok (v, offset') := h
  split at hrun
  · cases hrun
    exact ⟨rfl, ‹_›⟩
  · cases hrun

theorem readUsize_run {offset v offset' : ℕ}
    (h : (cappedReader overflowChecks data).readUsize.run offset =
      .ok (v, offset')) :
    v ≤ MAX_ARRAY_LEN ∧ offset' = offset + 32 ∧ offset' ≤ data.length := by
  obtain ⟨w, mid, hw, hcap⟩ := run_bind_eq_ok.mp h
  split at hcap
  · obtain ⟨rfl, rfl⟩ := run_pure_eq_ok.mp hcap
    obtain ⟨x, mid, hx, hsmall⟩ := run_bind_eq_ok.mp hw
    split at hsmall
    · obtain ⟨rfl, rfl⟩ := run_pure_eq_ok.mp hsmall
      exact ⟨‹_›, readU256_run hx⟩
    · cases hsmall
  · cases hcap

theorem advance_run (overflowChecks : Bool) (data : List UInt8) {offset n : ℕ}
    (h : offset + n < 2 ^ 64) :
    ((panickingReader overflowChecks data).advance n).run offset = .ok ((), offset + n) := by
  change (if overflowChecks = true ∧ 2 ^ 64 ≤ offset + n then .error .offsetOverflow
    else .ok ((), (offset + n) % 2 ^ 64) : Except DecodeError (Unit × ℕ)) = _
  rw [if_neg fun hover => not_le.mpr h hover.2, Nat.mod_eq_of_lt h]

theorem tryAdvance_run {offset n : ℕ} (hdata : data.length < 2 ^ 63)
    (h : offset + n ≤ data.length) :
    ((tryReader data).advance n).run offset = .ok ((), offset + n) := by
  change (if 2 ^ 64 ≤ offset + n then .error .offsetOverflow
    else if data.length < offset + n then .error .outOfBounds
    else .ok ((), offset + n) : Except DecodeError (Unit × ℕ)) = _
  rw [if_neg (by omega), if_neg (by omega)]

/-- An array that is skipped is at most 128 times the largest count long. -/
def REACH : ℕ := 2 ^ 24

/-- Below this offset the skips of a claim do not leave `usize`. -/
def HORIZON : ℕ := 2 ^ 64 - 129

/-- A skipped array, from where its count is read. -/
theorem skipArray_run {size offset offset' : ℕ} {u : Unit} (hdata : data.length < 2 ^ 63)
    (hsize : size ≤ 128)
    (h : (skipArray (cappedReader overflowChecks data) size).run offset =
      .ok (u, offset')) :
    ∃ n, n ≤ MAX_ARRAY_LEN ∧ offset + 32 ≤ data.length ∧ offset' = offset + 32 + n * size ∧
      (tryReader data).readUsize.run offset = .ok (n, offset + 32) := by
  obtain ⟨n, mid, hn, hskip⟩ := run_bind_eq_ok.mp h
  obtain ⟨hmax, rfl, hmid⟩ := readUsize_run hn
  have hshort : n * size ≤ 100000 * 128 := Nat.mul_le_mul hmax hsize
  have hrun := advance_run overflowChecks data (by omega : offset + 32 + n * size < 2 ^ 64)
  obtain ⟨-, rfl⟩ := Prod.mk.inj (Except.ok.inj (hskip.symm.trans hrun))
  exact ⟨n, hmax, hmid, rfl, hn⟩

theorem follows_skipArray {size : ℕ} (hdata : data.length < 2 ^ 63) (hsize : size ≤ 128) :
    Follows data.length (data.length + REACH) HORIZON
      (skipArray (cappedReader overflowChecks data) size)
      (skipArray (tryReader data) size) where
  inside := by
    intro offset _ u offset' h
    obtain ⟨n, hmax, hmid, rfl, hn⟩ := skipArray_run hdata hsize h
    have hshort : n * size ≤ 100000 * 128 := Nat.mul_le_mul hmax hsize
    refine ⟨?_, fun hend => run_bind_eq_ok.mpr ⟨n, _, hn, tryAdvance_run hdata hend⟩⟩
    rw [REACH]
    omega
  outside := by
    intro offset hlimit _ u offset' h
    obtain ⟨n, -, hmid, -, -⟩ := skipArray_run hdata hsize h
    omega

theorem skipClaim_run {offset : ℕ} (h : offset + 128 < 2 ^ 64) :
    (skipClaim (cappedReader overflowChecks data)).run offset =
      (skipArray (cappedReader overflowChecks data) 32).run (offset + 128) := by
  have hadvance (n offset : ℕ) (h : offset + n < 2 ^ 64) :
      ((cappedReader overflowChecks data).advance n).run offset =
        .ok ((), offset + n) := advance_run overflowChecks data h
  rw [skipClaim, StateT.run_bind, hadvance 32 offset (by omega), ok_bind, StateT.run_bind,
    hadvance 32 _ (by omega), ok_bind, StateT.run_bind, hadvance 64 _ (by omega), ok_bind]

theorem trySkipClaim_run {offset : ℕ} (hdata : data.length < 2 ^ 63)
    (h : offset + 128 ≤ data.length) :
    (skipClaim (tryReader data)).run offset =
      (skipArray (tryReader data) 32).run (offset + 128) := by
  rw [skipClaim, StateT.run_bind, tryAdvance_run hdata (by omega), ok_bind, StateT.run_bind,
    tryAdvance_run hdata (by omega), ok_bind, StateT.run_bind, tryAdvance_run hdata (by omega),
    ok_bind]

theorem follows_skipClaim (hdata : data.length < 2 ^ 63) :
    Follows data.length (data.length + REACH) HORIZON
      (skipClaim (cappedReader overflowChecks data))
      (skipClaim (tryReader data)) where
  inside := by
    intro offset hoffset u offset' h
    rw [skipClaim_run (by omega)] at h
    obtain ⟨n, -, hmid, -, -⟩ := skipArray_run hdata (by decide) h
    rw [trySkipClaim_run hdata (by omega)]
    exact (follows_skipArray hdata (by decide)).inside (offset + 128) (by omega) u offset' h
  outside := by
    intro offset hlimit hoffset u offset' h
    rw [HORIZON] at hoffset
    rw [skipClaim_run (by omega)] at h
    obtain ⟨n, -, hmid, -, -⟩ := skipArray_run hdata (by decide) h
    omega

theorem follows_tryReader (hdata : data.length < 2 ^ 63) :
    Related (fun _ => Follows data.length (data.length + REACH) HORIZON)
      (cappedReader overflowChecks data) (tryReader data) where
  congruence := by
    refine follows_congruence (Nat.le_add_right _ _) ?_
    rw [REACH, HORIZON]
    omega
  readU256 :=
    { inside := by
        intro offset _ v offset' h
        obtain ⟨rfl, hend⟩ := readU256_run h
        exact ⟨le_trans hend (Nat.le_add_right _ _), fun _ => h⟩
      outside := by
        intro offset hlimit _ v offset' h
        obtain ⟨rfl, hend⟩ := readU256_run h
        omega }
  readUsize :=
    { inside := by
        intro offset _ v offset' h
        obtain ⟨-, rfl, hend⟩ := readUsize_run h
        exact ⟨le_trans hend (Nat.le_add_right _ _), fun _ => h⟩
      outside := by
        intro offset hlimit _ v offset' h
        obtain ⟨-, rfl, hend⟩ := readUsize_run h
        omega }
  skipArray := fun _ hsize => follows_skipArray hdata hsize
  skipClaim := follows_skipClaim hdata

/-! ## Where the decoders stop -/

theorem readU256_endsWithin : EndsWithin data.length (readU256 data) :=
  fun _ _ _ h => (readU256_run h).2

theorem readG1_endsWithin :
    EndsWithin data.length (readG1 (cappedReader overflowChecks data)) :=
  .bind fun _ => .map readU256_endsWithin

theorem repeatRead_le {α : Type} {p : Parser α} {limit : ℕ} (hp : EndsWithin limit p) {n : ℕ}
    {offset offset' : ℕ} {xs : List α} (hoffset : offset ≤ limit)
    (h : (repeatRead p n).run offset = .ok (xs, offset')) : offset' ≤ limit := by
  induction n generalizing offset xs with
  | zero =>
    obtain ⟨-, rfl⟩ := run_pure_eq_ok.mp h
    exact hoffset
  | succ n ih =>
    obtain ⟨x, mid, hx, htail⟩ := run_bind_eq_ok.mp h
    obtain ⟨rest, mid', hrest, hpure⟩ := run_bind_eq_ok.mp htail
    obtain ⟨-, rfl⟩ := run_pure_eq_ok.mp hpure
    exact ih (hp offset x mid hx) hrest

theorem readArray_endsWithin {α : Type} {p : Parser α} (hp : EndsWithin data.length p) :
    EndsWithin data.length
      (readArray (cappedReader overflowChecks data) p) := by
  intro offset xs offset' h
  obtain ⟨n, mid, hn, hrest⟩ := run_bind_eq_ok.mp h
  exact repeatRead_le hp (readUsize_run hn).2.2 hrest

theorem readArray_start {α : Type} {p : Parser α} {offset offset' : ℕ} {xs : List α}
    (h : (readArray (cappedReader overflowChecks data) p).run offset =
      .ok (xs, offset')) : offset + 32 ≤ data.length := by
  obtain ⟨n, mid, hn, -⟩ := run_bind_eq_ok.mp h
  obtain ⟨-, rfl, hmid⟩ := readUsize_run hn
  exact hmid

theorem decodePodp_endsWithin :
    EndsWithin data.length (decodePodp (cappedReader overflowChecks data)) :=
  .bind fun _ => .bind fun _ => .bind fun _ => .bind fun _ => .map readU256_endsWithin

theorem decodePop_endsWithin :
    EndsWithin data.length (decodePop (cappedReader overflowChecks data)) :=
  .bind fun _ => .bind fun _ => .bind fun _ => .bind fun _ => .bind fun _ => .bind fun _ =>
    .bind fun _ => .map readU256_endsWithin

theorem decodeDagInputLayerProof_endsWithin :
    EndsWithin data.length
      (decodeDagInputLayerProof (cappedReader overflowChecks data)) :=
  .bind fun _ => .map (readArray_endsWithin (.bind fun _ => .map readG1_endsWithin))

theorem pedersenGensSections_endsWithin :
    EndsWithin data.length
      (pedersenGensSections (cappedReader overflowChecks data)) :=
  .bind fun _ => .bind fun _ => .map readG1_endsWithin

/-! ## Sections that are skipped and read -/

theorem mirrors_repeatRead {α β : Type} {p : Parser α} {q : Parser β} (h : Mirrors p q) (n : ℕ) :
    Mirrors (repeatRead p n) (repeatRead q n) := by
  induction n with
  | zero =>
    intro offset xs offset' hrun
    obtain ⟨-, rfl⟩ := run_pure_eq_ok.mp hrun
    exact ⟨[], rfl⟩
  | succ n ih =>
    intro offset xs offset' hrun
    obtain ⟨x, mid, hx, htail⟩ := run_bind_eq_ok.mp hrun
    obtain ⟨rest, mid', hrest, hpure⟩ := run_bind_eq_ok.mp htail
    obtain ⟨-, rfl⟩ := run_pure_eq_ok.mp hpure
    obtain ⟨y, hy⟩ := h offset x mid hx
    obtain ⟨ys, hys⟩ := ih mid rest mid' hrest
    exact ⟨y :: ys, run_bind_eq_ok.mpr ⟨y, mid, hy, run_bind_eq_ok.mpr ⟨ys, mid', hys, rfl⟩⟩⟩

theorem mirrors_readArray {α β : Type} {r : Reader} {p : Parser α} {q : Parser β}
    (h : Mirrors p q) : Mirrors (readArray r p) (readArray r q) := by
  intro offset xs offset' hrun
  obtain ⟨n, mid, hn, hrest⟩ := run_bind_eq_ok.mp hrun
  obtain ⟨ys, hys⟩ := mirrors_repeatRead h n mid xs offset' hrest
  exact ⟨ys, run_bind_eq_ok.mpr ⟨n, mid, hn, hys⟩⟩

theorem repeatRead_readU256_run {n offset offset' : ℕ} {xs : List ℕ}
    (h : (repeatRead (readU256 data) n).run offset = .ok (xs, offset')) :
    offset' = offset + n * 32 := by
  induction n generalizing offset xs with
  | zero =>
    obtain ⟨-, rfl⟩ := run_pure_eq_ok.mp h
    omega
  | succ n ih =>
    obtain ⟨x, mid, hx, htail⟩ := run_bind_eq_ok.mp h
    obtain ⟨rest, mid', hrest, hpure⟩ := run_bind_eq_ok.mp htail
    obtain ⟨-, rfl⟩ := run_pure_eq_ok.mp hpure
    have hfirst := (readU256_run hx).1
    have hlast := ih hrest
    omega

theorem mirrors_words (hdata : data.length < 2 ^ 63) :
    Mirrors (readArray (cappedReader overflowChecks data) (readU256 data))
      (skipArray (cappedReader overflowChecks data) 32) := by
  intro offset xs offset' h
  have hend := readArray_endsWithin readU256_endsWithin offset xs offset' h
  obtain ⟨n, mid, hn, hrest⟩ := run_bind_eq_ok.mp h
  obtain rfl := repeatRead_readU256_run hrest
  exact ⟨(), run_bind_eq_ok.mpr
    ⟨n, mid, hn, advance_run overflowChecks data (lt_of_le_of_lt hend (by omega))⟩⟩

theorem mirrors_claims (hdata : data.length < 2 ^ 63) :
    Mirrors (decodePublicValueClaims (cappedReader overflowChecks data))
      (readArray (cappedReader overflowChecks data)
        (skipClaim (cappedReader overflowChecks data))) := by
  refine mirrors_readArray ?_
  intro offset claim offset' h
  obtain ⟨value, mid₁, hvalue, h⟩ := run_bind_eq_ok.mp h
  obtain ⟨blinding, mid₂, hblinding, h⟩ := run_bind_eq_ok.mp h
  obtain ⟨commitment, mid₄, hcommitment, h⟩ := run_bind_eq_ok.mp h
  obtain ⟨x, mid₃, hx, hsecond⟩ := run_bind_eq_ok.mp hcommitment
  obtain ⟨y, mid₅, hy, hpoint⟩ := run_bind_eq_ok.mp hsecond
  obtain ⟨-, rfl⟩ := run_pure_eq_ok.mp hpoint
  obtain ⟨u, mid₆, hskip, hpure⟩ := run_bind_eq_ok.mp h
  obtain ⟨-, rfl⟩ := run_pure_eq_ok.mp hpure
  have h₁ := (readU256_run hvalue).1
  have h₂ := (readU256_run hblinding).1
  have h₃ := (readU256_run hx).1
  obtain ⟨h₄, hend⟩ := readU256_run hy
  obtain rfl : mid₅ = offset + 128 := by omega
  refine ⟨u, ?_⟩
  rw [skipClaim_run (by omega)]
  exact hskip

/-! ## What the checking decoders return -/

theorem extractEmbeddedPublicInputs_agrees {offset offset' : ℕ} {values : List ℕ}
    (hdata : data.length < 2 ^ 63) (hoffset : offset ≤ HORIZON)
    (h : (extractEmbeddedPublicInputs (cappedReader overflowChecks data)).run offset =
      .ok (values, offset')) :
    (extractEmbeddedPublicInputs (tryReader data)).run offset = .ok (values, offset') := by
  have hfollows : Related _ (cappedReader overflowChecks data) _ := follows_tryReader hdata
  rw [HORIZON] at hoffset
  obtain ⟨_, start, hstart, h⟩ := run_bind_eq_ok.mp h
  obtain ⟨n, mid, hn, h⟩ := run_bind_eq_ok.mp h
  obtain ⟨saved, _, hsaved, h⟩ := run_bind_eq_ok.mp h
  obtain ⟨rfl, rfl⟩ := run_get_eq_ok.mp hsaved
  obtain ⟨skipped, skipEnd, hskipped, h⟩ := run_bind_eq_ok.mp h
  obtain ⟨_, _, hjump, h⟩ := run_bind_eq_ok.mp h
  obtain rfl := run_set_eq_ok.mp hjump
  obtain ⟨parts, readEnd, hparts, hpure⟩ := run_bind_eq_ok.mp h
  obtain ⟨rfl, rfl⟩ := run_pure_eq_ok.mp hpure
  have hskip : start = offset + 32 :=
    (Prod.mk.inj (Except.ok.inj (hstart.symm.trans
      (advance_run overflowChecks data (by omega : offset + 32 < 2 ^ 64))))).2
  subst hskip
  obtain ⟨-, rfl, hmid⟩ := readUsize_run hn
  -- The pass that skips ends where the pass that reads does, which is inside the data.
  have hend : readEnd ≤ data.length :=
    repeatRead_le (readArray_endsWithin readU256_endsWithin) hmid hparts
  obtain ⟨again, hagain⟩ := mirrors_repeatRead (mirrors_words hdata) n _ parts readEnd hparts
  obtain ⟨rfl, rfl⟩ := Prod.mk.inj (Except.ok.inj (hskipped.symm.trans hagain))
  have hhorizon : offset + 32 + 32 ≤ HORIZON := by
    rw [HORIZON]
    omega
  exact run_bind_eq_ok.mpr ⟨(), _, tryAdvance_run hdata (by omega), run_bind_eq_ok.mpr
    ⟨n, _, hfollows.readUsize.run (by omega) hn hmid, run_bind_eq_ok.mpr ⟨_, _, rfl,
      run_bind_eq_ok.mpr ⟨skipped, skipEnd,
        (hfollows.repeatRead (hfollows.skipArray 32 (by decide)) n).run hhorizon hskipped hend,
        run_bind_eq_ok.mpr ⟨_, _, rfl, run_bind_eq_ok.mpr ⟨parts, skipEnd,
          (hfollows.repeatRead (hfollows.readArray hfollows.readU256) n).run hhorizon hparts hend,
          rfl⟩⟩⟩⟩⟩⟩

theorem decodeProofCommon_agrees {offset offset' : ℕ} {common : GKRProof × ℕ}
    (hdata : data.length < 2 ^ 63) (hoffset : offset ≤ HORIZON)
    (h : (decodeProofCommon (cappedReader overflowChecks data)).run offset = .ok (common, offset'))
    (hend : offset' ≤ data.length) :
    (decodeProofCommon (tryReader data)).run offset = .ok (common, offset') := by
  have hfollows : Related _ (cappedReader overflowChecks data) _ := follows_tryReader hdata
  rw [HORIZON] at hoffset
  obtain ⟨_, start, hstart, hsections⟩ := run_bind_eq_ok.mp h
  have hskip : start = offset + 32 :=
    (Prod.mk.inj (Except.ok.inj (hstart.symm.trans
      (advance_run overflowChecks data (by omega : offset + 32 < 2 ^ 64))))).2
  subst hskip
  obtain ⟨_, mid, hfirst, -⟩ := run_bind_eq_ok.mp hsections
  have hinside := readArray_start hfirst
  have hhorizon : offset + 32 ≤ HORIZON := by
    rw [HORIZON]
    omega
  exact run_bind_eq_ok.mpr ⟨(), _, tryAdvance_run hdata (by omega),
    hfollows.commonSections.run hhorizon hsections hend⟩

/-- The claims on public values end where the common sections do. -/
theorem publicValueClaims_end {offset mid offset' : ℕ} {common : GKRProof × ℕ}
    {claims : List PublicValueClaim} (hdata : data.length < 2 ^ 63)
    (hcommon : (decodeProofCommon (cappedReader overflowChecks data)).run offset =
      .ok (common, mid))
    (hclaims : (decodePublicValueClaims (cappedReader overflowChecks data)).run common.2 =
      .ok (claims, offset')) : offset' = mid := by
  simp only [decodeProofCommon, run_bind_eq_ok, run_get_eq_ok, run_pure_eq_ok] at hcommon
  obtain ⟨_, _, -, _, _, -, _, _, -, _, _, -, _, _, -, saved, _, ⟨rfl, rfl⟩, _, _, hskipped, rfl,
    rfl⟩ := hcommon
  obtain ⟨again, hagain⟩ := mirrors_claims hdata _ claims offset' hclaims
  exact (Prod.mk.inj (Except.ok.inj (hagain.symm.trans hskipped))).2

theorem tryDecodeProofForDag_agrees {offset offset' : ℕ} {proof : DecodedProof}
    (hdata : data.length < 2 ^ 63) (hoffset : offset ≤ HORIZON)
    (h : (tryDecodeProofForDag (cappedReader overflowChecks data)).run offset =
      .ok (proof, offset')) :
    (tryDecodeProofForDag (tryReader data)).run offset = .ok (proof, offset') := by
  have hfollows : Related _ (cappedReader overflowChecks data) _ := follows_tryReader hdata
  rw [tryDecodeProofForDag_eq] at h ⊢
  simp only [run_bind_eq_ok, run_get_eq_ok, run_set_eq_ok, run_pure_eq_ok] at h ⊢
  obtain ⟨_, _, ⟨rfl, rfl⟩, _, _, rfl, embedded, _, hembedded, _, _, rfl, common, mid, hcommon, _,
    _, ⟨rfl, rfl⟩, _, _, rfl, claims, claimsEnd, hclaims, _, _, rfl, inputs, _, hinputs, rfl,
    rfl⟩ := h
  have hmid := readArray_start hinputs
  have hstart := readArray_start hclaims
  have hclaimsEnd := publicValueClaims_end hdata hcommon hclaims
  have hhorizon : data.length ≤ HORIZON := by
    rw [HORIZON]
    omega
  have hinputsEnd := readArray_endsWithin decodeDagInputLayerProof_endsWithin _ _ _ hinputs
  exact ⟨_, _, ⟨rfl, rfl⟩, (), _, rfl, embedded, _,
    extractEmbeddedPublicInputs_agrees hdata (Nat.zero_le _) hembedded, (), _, rfl, common, _,
    decodeProofCommon_agrees hdata hoffset hcommon (by omega), _, _, ⟨rfl, rfl⟩, (), _, rfl,
    claims, claimsEnd, hfollows.decodePublicValueClaims.run (by omega) hclaims (by omega), (), _,
    rfl, inputs, _, (hfollows.readArray hfollows.decodeDagInputLayerProof).run (by omega) hinputs
      hinputsEnd, rfl, rfl⟩

theorem decode_pedersenGens_agrees {offset offset' : ℕ} {gens : PedersenGens}
    (hdata : data.length < 2 ^ 63)
    (h : (ProofSection.pedersenGens.decode (cappedReader overflowChecks data)).run offset =
      .ok (gens, offset')) :
    (ProofSection.pedersenGens.decode (tryReader data)).run offset = .ok (gens, offset') := by
  have hfollows : Related _ (cappedReader overflowChecks data) _ := follows_tryReader hdata
  rw [decode_pedersenGens_eq] at h ⊢
  have hempty : (tryReader data).isEmpty = (cappedReader overflowChecks data).isEmpty := rfl
  rw [hempty]
  split at h
  case isTrue hnone =>
    rw [if_pos hnone]
    exact h
  case isFalse hsome =>
    rw [if_neg hsome]
    simp only [run_bind_eq_ok, run_get_eq_ok, run_set_eq_ok, run_pure_eq_ok] at h ⊢
    obtain ⟨_, _, ⟨rfl, rfl⟩, _, _, rfl, gens, _, hgens, _, _, rfl, rfl, rfl⟩ := h
    have hend := pedersenGensSections_endsWithin _ _ _ hgens
    exact ⟨_, _, ⟨rfl, rfl⟩, (), _, rfl, gens, _,
      hfollows.pedersenGens.run (Nat.zero_le _) hgens hend, (), _, rfl, rfl, rfl⟩

/-- What a panicking decoder returns without a count above the maximum, the checking one returns, if
a decoder that ends in a skip has stopped inside the data. -/
theorem decode_tryReader_of_capped {α : Type} (part : ProofSection α) {offset offset' : ℕ} {a : α}
    (hdata : data.length < 2 ^ 63) (hoffset : offset ≤ HORIZON)
    (h : (part.decode (cappedReader overflowChecks data)).run offset = .ok (a, offset'))
    (hskip : part.EndsInSkip → offset' ≤ data.length) :
    (part.decode (tryReader data)).run offset = .ok (a, offset') := by
  have hfollows : Related _ (cappedReader overflowChecks data) _ := follows_tryReader hdata
  cases part with
  | podp => exact hfollows.decodePodp.run hoffset h (decodePodp_endsWithin _ _ _ h)
  | pop => exact hfollows.decodePop.run hoffset h (decodePop_endsWithin _ _ _ h)
  | committedLayerProof => exact hfollows.decodeCommittedLayerProof.run hoffset h (hskip trivial)
  | dagInputLayerProof =>
    exact hfollows.decodeDagInputLayerProof.run hoffset h
      (decodeDagInputLayerProof_endsWithin _ _ _ h)
  | publicValueClaims => exact hfollows.decodePublicValueClaims.run hoffset h (hskip trivial)
  | skippedClaim => exact hfollows.skipClaim.run hoffset h (hskip trivial)
  | proofCommon => exact decodeProofCommon_agrees hdata hoffset h (hskip trivial)
  | embeddedPublicInputs => exact extractEmbeddedPublicInputs_agrees hdata hoffset h
  | proofForDag => exact tryDecodeProofForDag_agrees hdata hoffset h
  | pedersenGens => exact decode_pedersenGens_agrees hdata h

end Readers

/-- The two sets of decoders agree. What a checking decoder returns, the panicking one returns from
the same offset, and it stops at the same offset. The other way round this holds of data without a
count above the maximum, when a decoder that ends in a skip has stopped inside the data. -/
theorem decoders_agree (overflowChecks : Bool) (data : List UInt8) {α : Type}
    (part : ProofSection α) (offset offset' : ℕ) (a : α) :
    ((part.decode (tryReader data)).run offset = .ok (a, offset') →
      (part.decode (panickingReader overflowChecks data)).run offset = .ok (a, offset')) ∧
    (data.length < 2 ^ 63 → offset ≤ HORIZON →
      (part.decode (panickingReader overflowChecks data)).run offset = .ok (a, offset') →
      part.CountsWithin (panickingReader overflowChecks data) offset →
      (part.EndsInSkip → offset' ≤ data.length) →
        (part.decode (tryReader data)).run offset = .ok (a, offset')) := by
  refine ⟨refines_tryReader.decode part offset a offset', ?_⟩
  intro hdata hoffset hrun hcounts hskip
  have hcapped : (part.decode (cappedReader overflowChecks data)).run offset =
      .ok (a, offset') := by
    rcases (agreesUnless_countsCapped (panickingReader overflowChecks data)).decode part offset
      with htooLong | heq
    · exact absurd htooLong hcounts
    · exact heq.trans hrun
  exact decode_tryReader_of_capped part hdata hoffset hcapped hskip

/-- A proof whose sections are empty. -/
def emptyProof : List UInt8 := [9, 0, 0, 0, 0, 0, 0].flatMap wordToBeBytes

theorem emptyProof_agrees :
    (ProofSection.proofForDag.decode (tryReader emptyProof)).run 0 =
      .ok (⟨⟨[], []⟩, [], [], []⟩, 224) := by
  have hcounts : ProofSection.proofForDag.CountsWithin (panickingReader false emptyProof) 0 := by
    unfold ProofSection.CountsWithin
    decide +kernel
  exact (decoders_agree false emptyProof .proofForDag 0 224 _).2 (by decide +kernel) (by decide)
    (by decide +kernel) hcounts nofun

/-- A claim whose point is announced and missing. -/
def cutClaim : List UInt8 := [1, 5, 6, 7, 8, 1].flatMap wordToBeBytes

/-- A proof with one layer, whose aggregation flag is neither zero nor one. -/
def flaggedProof : List UInt8 :=
  [9, 0, 0, 1, 0, 0, 0, 0, 0, 0, 0, 0, 0, 0, 0, 0, 100001, 0, 0, 0].flatMap wordToBeBytes

/-- The panicking decoder of the claims stops past the end of the data, and that of a layer takes
any flag but one for a missing aggregation. -/
theorem decoders_disagree :
    (∀ overflowChecks,
      (ProofSection.publicValueClaims.decode (panickingReader overflowChecks cutClaim)).run 0 =
        .ok ([⟨5, 6, ⟨7, 8⟩⟩], 224) ∧
      ProofSection.publicValueClaims.CountsWithin (panickingReader overflowChecks cutClaim) 0) ∧
    (ProofSection.publicValueClaims.decode (tryReader cutClaim)).run 0 = .error .outOfBounds ∧
    (∀ overflowChecks, ∃ proof,
      (ProofSection.proofForDag.decode (panickingReader overflowChecks flaggedProof)).run 0 =
        .ok (proof, 640)) ∧
    (ProofSection.proofForDag.decode (tryReader flaggedProof)).run 0 = .error .arrayTooLong := by
  refine ⟨fun overflowChecks => ⟨?_, ?_⟩, by decide +kernel, fun overflowChecks => ?_,
    by decide +kernel⟩
  · cases overflowChecks <;> decide +kernel
  · unfold ProofSection.CountsWithin
    cases overflowChecks <;> decide +kernel
  · refine ⟨⟨⟨[], [⟨⟨⟨0, 0⟩, [], ⟨⟨0, 0⟩, ⟨0, 0⟩, [], 0, 0⟩⟩, [], []⟩]⟩, [], [], []⟩, ?_⟩
    cases overflowChecks <;> decide +kernel

end WorldZk.DecoderAgreement
