import WorldZk.DescriptionShape
import WorldZk.OffsetParsers
import WorldZk.StylusVerifier

/-!
# The flat encoding of a description and its decoders

`_encodeFlatCircuitDesc` writes every number of a stored description as a word. The decoders of
the two Rust crates read indices and counts as `usize` and template entries as `u64`, so the round
trip holds for the descriptions whose numbers fit these types.
-/

namespace WorldZk.FlatDescription

open CheckedRuns ProofTypes ProofDecoding Transcript FieldArithmetic OffsetParsers SolidityVerifier
open DescriptionShape StylusVerifier

/-! ## Arrays -/

section Arrays

variable {α : Type} {data : List ℕ} {p : Parser α}

theorem reads_repeatRead {β : Type} {encode : β → List ℕ} {decode : β → α} {xs : List β}
    (h : ∀ x ∈ xs, Reads 32 data p (encode x) (decode x)) :
    Reads 32 data (repeatRead p xs.length) (xs.flatMap encode) (xs.map decode) := by
  induction xs with
  | nil => exact reads_pure []
  | cons x xs ih =>
    have hrest := ih fun y hy => h y (List.mem_cons_of_mem _ hy)
    exact (h x List.mem_cons_self).bind (hrest.map (f := (decode x :: ·)))

theorem yields_repeatRead {P : α → Prop} (h : Yields p P) (n : ℕ) :
    Yields (repeatRead p n) fun xs => xs.length = n ∧ ∀ x ∈ xs, P x := by
  induction n with
  | zero => exact yields_pure ⟨rfl, by simp⟩
  | succ n ih =>
    refine h.bind fun x hx => ih.bind fun xs hxs => yields_pure ⟨?_, ?_⟩
    · rw [List.length_cons, hxs.1]
    · intro y hy
      rcases List.mem_cons.mp hy with rfl | hy
      · exact hx
      · exact hxs.2 y hy

/-- The array parser of the description decoders. -/
def readFlatArray (usize : Parser ℕ) (p : Parser α) : Parser (List α) := do
  let n ← usize
  repeatRead p n

theorem reads_readFlatArray {usize : Parser ℕ} {encode : α → ℕ} {xs : List α}
    (hlen : Reads 32 data usize [xs.length] xs.length)
    (h : ∀ x ∈ xs, Reads 32 data p [encode x] x) :
    Reads 32 data (readFlatArray usize p) (encodeFlatArray (xs.map encode)) xs := by
  have hall := @reads_repeatRead α data p α (fun x => [encode x]) id xs h
  rw [List.map_id, ← List.map_eq_flatMap] at hall
  rw [encodeFlatArray, List.length_map]
  exact hlen.bind hall

theorem reads_readFlatArray_words {usize p : Parser ℕ} {xs : List ℕ}
    (hlen : Reads 32 data usize [xs.length] xs.length) (h : ∀ x ∈ xs, Reads 32 data p [x] x) :
    Reads 32 data (readFlatArray usize p) (encodeFlatArray xs) xs := by
  have hread := @reads_readFlatArray ℕ data p usize id xs hlen h
  rwa [List.map_id] at hread

theorem yields_readFlatArray {usize : Parser ℕ} {width : ℕ} {P : α → Prop}
    (hlen : Yields usize (· < 2 ^ width)) (h : Yields p P) :
    Yields (readFlatArray usize p) fun xs => xs.length < 2 ^ width ∧ ∀ x ∈ xs, P x := by
  refine hlen.bind fun n hn => ?_
  intro offset xs offset' hread
  obtain ⟨hxs, hall⟩ := yields_repeatRead h n offset xs offset' hread
  exact ⟨hxs ▸ hn, hall⟩

end Arrays

/-! ## Descriptions -/

/-- The description decoder over the array parser. -/
theorem decodeCircuitDescription_eq (r : Reader) (usize : Parser ℕ) (low64 : ℕ → ℕ) :
    decodeCircuitDescription r usize low64 = (do
      let numComputeLayers ← usize
      let numInputLayers ← usize
      let layerTypes ← readFlatArray usize (do pure (low64 (← r.readU256) % 256))
      let numSumcheckRounds ← readFlatArray usize usize
      let atomOffsets ← readFlatArray usize usize
      let atomTargetLayers ← readFlatArray usize usize
      let atomCommitIdxs ← readFlatArray usize usize
      let ptOffsets ← readFlatArray usize usize
      let ptData ← readFlatArray usize (do pure (low64 (← r.readU256)))
      let inputIsCommitted ← readFlatArray usize (do pure ((← r.readU256) != 0))
      let oracleProductOffsets ← readFlatArray usize usize
      let oracleResultIdxs ← readFlatArray usize usize
      let oracleExprCoeffs ← readFlatArray usize r.readU256
      pure ⟨numComputeLayers, numInputLayers, layerTypes, numSumcheckRounds, atomOffsets,
        atomTargetLayers, atomCommitIdxs, ptOffsets, ptData, inputIsCommitted,
        oracleProductOffsets, oracleResultIdxs, oracleExprCoeffs⟩) := rfl

/-- The numbers of the description fit the types that a decoder with `usize` of the given width
reads them as. -/
structure FitsWidth (width : ℕ) (desc : DAGCircuitDescription) : Prop where
  indices : ∀ v ∈ desc.numSumcheckRounds ++ desc.atomOffsets ++ desc.atomTargetLayers ++
    desc.atomCommitIdxs ++ desc.ptOffsets ++ desc.oracleProductOffsets ++ desc.oracleResultIdxs,
    v < 2 ^ width
  ptOffsets_length : desc.ptOffsets.length < 2 ^ width
  ptData_length : desc.ptData.length < 2 ^ width
  ptData : ∀ v ∈ desc.ptData, v < 2 ^ 64

/-- Only numbers that fit are ever decoded. -/
theorem yields_decodeCircuitDescription {r : Reader} {usize : Parser ℕ} {width : ℕ}
    (husize : Yields usize (· < 2 ^ width)) :
    Yields (decodeCircuitDescription r usize (· % 2 ^ 64)) (FitsWidth width) := by
  have hindices := yields_readFlatArray husize husize
  have hentries : Yields (do pure ((← r.readU256) % 2 ^ 64) : Parser ℕ) (· < 2 ^ 64) :=
    (Yields.trivial r.readU256).bind fun v _ => yields_pure (Nat.mod_lt v (by decide))
  rw [decodeCircuitDescription_eq]
  refine husize.bind fun _ _ => husize.bind fun _ _ => ?_
  refine (Yields.trivial _).bind fun layerTypes _ => ?_
  refine hindices.bind fun numSumcheckRounds hrounds => ?_
  refine hindices.bind fun atomOffsets hatoms => ?_
  refine hindices.bind fun atomTargetLayers htargets => ?_
  refine hindices.bind fun atomCommitIdxs hcommits => ?_
  refine hindices.bind fun ptOffsets hpt => ?_
  refine (yields_readFlatArray husize hentries).bind fun ptData hdata => ?_
  refine (Yields.trivial _).bind fun inputIsCommitted _ => ?_
  refine hindices.bind fun oracleProductOffsets hproducts => ?_
  refine hindices.bind fun oracleResultIdxs hresults => ?_
  refine (Yields.trivial _).bind fun oracleExprCoeffs _ => yields_pure ⟨?_, hpt.1, hdata.1, hdata.2⟩
  intro v hv
  simp only [List.mem_append] at hv
  rcases hv with (((((hv | hv) | hv) | hv) | hv) | hv) | hv
  · exact hrounds.2 v hv
  · exact hatoms.2 v hv
  · exact htargets.2 v hv
  · exact hcommits.2 v hv
  · exact hpt.2 v hv
  · exact hproducts.2 v hv
  · exact hresults.2 v hv

private theorem lengths_lt {desc : DAGCircuitDescription} (hlen : LengthsChecked desc) {width : ℕ}
    (hwidth : 9 ≤ width) (h : FitsWidth width desc) :
    desc.numComputeLayers + 1 < 2 ^ width ∧ desc.numInputLayers < 2 ^ width ∧
      desc.atomTargetLayers.length < 2 ^ width ∧ desc.oracleResultIdxs.length < 2 ^ width := by
  have hpow : 2 ^ 9 ≤ 2 ^ width := Nat.pow_le_pow_right (by decide) hwidth
  have hproduct : desc.oracleResultIdxs.length ∈ desc.oracleProductOffsets :=
    List.mem_of_getLast? hlen.productOffsets_last
  have hcompute := hlen.numComputeLayers
  have hinput := hlen.numInputLayers
  have hpt := h.ptOffsets_length
  rw [hlen.ptOffsets] at hpt
  refine ⟨by omega, by omega, by omega, h.indices _ ?_⟩
  simp only [List.mem_append]
  exact .inl (.inr hproduct)

/-- A description that fits is read back from its words. -/
theorem reads_decodeCircuitDescription {desc : DAGCircuitDescription} {data : List ℕ} {r : Reader}
    {usize : Parser ℕ} {width : ℕ} (hlen : LengthsChecked desc)
    (htypes : ∀ v ∈ desc.layerTypes, v < 256) (hwidth : 9 ≤ width) (hfits : FitsWidth width desc)
    (hword : ∀ v, Reads 32 data r.readU256 [v] v)
    (husize : ∀ v < 2 ^ width, Reads 32 data usize [v] v) :
    Reads 32 data (decodeCircuitDescription r usize (· % 2 ^ 64)) (flatDescWords desc) desc := by
  obtain ⟨hcompute, hinput, hatoms, hproducts⟩ := lengths_lt hlen hwidth hfits
  have hindex := hfits.indices
  simp only [List.mem_append] at hindex
  have hindices : ∀ {xs : List ℕ}, xs.length < 2 ^ width → (∀ v ∈ xs, v < 2 ^ width) →
      Reads 32 data (readFlatArray usize usize) (encodeFlatArray xs) xs := fun hxs hall =>
    reads_readFlatArray_words (husize _ hxs) fun v hv => husize v (hall v hv)
  have hwords : flatDescWords desc = [desc.numComputeLayers] ++ ([desc.numInputLayers] ++
      (encodeFlatArray desc.layerTypes ++ (encodeFlatArray desc.numSumcheckRounds ++
      (encodeFlatArray desc.atomOffsets ++ (encodeFlatArray desc.atomTargetLayers ++
      (encodeFlatArray desc.atomCommitIdxs ++ (encodeFlatArray desc.ptOffsets ++
      (encodeFlatArray desc.ptData ++ (encodeFlatArray (desc.inputIsCommitted.map fun committed =>
        if committed then 1 else 0) ++ (encodeFlatArray desc.oracleProductOffsets ++
      (encodeFlatArray desc.oracleResultIdxs ++ (encodeFlatArray desc.oracleExprCoeffs ++
      [])))))))))))) := by
    simp only [flatDescWords, List.append_assoc, List.append_nil, List.cons_append,
      List.nil_append]
  rw [decodeCircuitDescription_eq, hwords]
  refine (husize desc.numComputeLayers (by omega)).bind ?_
  refine (husize desc.numInputLayers hinput).bind ?_
  refine (reads_readFlatArray_words (husize _ (by rw [hlen.layerTypes]; omega)) ?_).bind ?_
  · intro v hv
    have h := (hword v).map (f := fun v => v % 2 ^ 64 % 256)
    rwa [show v % 2 ^ 64 % 256 = v by have := htypes v hv; omega] at h
  refine (hindices (by rw [hlen.numSumcheckRounds]; omega) fun v hv => hindex v (by tauto)).bind ?_
  refine (hindices (by rw [hlen.atomOffsets]; omega) fun v hv => hindex v (by tauto)).bind ?_
  refine (hindices hatoms fun v hv => hindex v (by tauto)).bind ?_
  refine (hindices (by rw [hlen.atomCommitIdxs]; omega) fun v hv => hindex v (by tauto)).bind ?_
  refine (hindices hfits.ptOffsets_length fun v hv => hindex v (by tauto)).bind ?_
  refine (reads_readFlatArray_words (husize _ hfits.ptData_length) ?_).bind ?_
  · intro v hv
    have h := (hword v).map (f := fun v => v % 2 ^ 64)
    rwa [Nat.mod_eq_of_lt (hfits.ptData v hv)] at h
  refine (reads_readFlatArray (husize _ (by rw [hlen.inputIsCommitted]; omega)) ?_).bind ?_
  · intro committed _
    have h := (hword (if committed then 1 else 0)).map (f := fun v => v != 0)
    cases committed <;> exact h
  refine (hindices (by rw [hlen.productOffsets]; omega) fun v hv => hindex v (by tauto)).bind ?_
  refine (hindices hproducts fun v hv => hindex v (by tauto)).bind ?_
  refine (reads_readFlatArray_words (husize _ (by rw [hlen.exprCoeffs]; omega)) ?_).bind ?_
  · exact fun v _ => hword v
  exact reads_pure desc

/-! ## The two decoders -/

theorem reads_readWord (data : List ℕ) (v : ℕ) : Reads 32 data (readWord data) [v] v := by
  intro k hk
  obtain ⟨rest, hrest⟩ := hk
  have hget : data[k]? = some v := by
    rw [← List.head?_drop, ← hrest, List.singleton_append, List.head?_cons]
  change readWord data (32 * k) = _
  rw [readWord, if_pos (Nat.mul_mod_right 32 k), Nat.mul_div_cancel_left k (by decide), hget,
    List.length_singleton, Nat.mul_succ]

private theorem flatDescWords_lt {desc : DAGCircuitDescription} (hlen : LengthsChecked desc)
    (habi : fitsAbi desc = true) {width : ℕ} (hwidth : 9 ≤ width) (hle : width ≤ 256)
    (hfits : FitsWidth width desc) : ∀ w ∈ flatDescWords desc, w < 2 ^ 256 := by
  obtain ⟨hcompute, hinput, hatoms, hproducts⟩ := lengths_lt hlen hwidth hfits
  have hpow : 2 ^ width ≤ 2 ^ 256 := Nat.pow_le_pow_right (by decide) hle
  have hpt := hfits.ptOffsets_length
  have hdata := hfits.ptData_length
  simp only [fitsAbi, Bool.and_eq_true, List.all_eq_true, decide_eq_true_eq,
    List.mem_append] at habi
  obtain ⟨htypes, hwords⟩ := habi
  have habi : ∀ v, _ → v < 2 ^ 256 := hwords
  have harray : ∀ {xs : List ℕ}, xs.length < 2 ^ 256 → (∀ v ∈ xs, v < 2 ^ 256) →
      ∀ w ∈ encodeFlatArray xs, w < 2 ^ 256 := by
    intro xs hxs hall w hw
    rcases List.mem_cons.mp hw with rfl | hw
    · exact hxs
    · exact hall w hw
  intro w hw
  simp only [flatDescWords, List.mem_append] at hw
  rcases hw with (((((((((((hw | hw) | hw) | hw) | hw) | hw) | hw) | hw) | hw) | hw) | hw) | hw)
  · rcases List.mem_cons.mp hw with rfl | hw
    · omega
    · obtain rfl := List.mem_singleton.mp hw
      omega
  · exact harray (by rw [hlen.layerTypes]; omega) (fun v hv => by have := htypes v hv; omega) w hw
  · exact harray (by rw [hlen.numSumcheckRounds]; omega) (fun v hv => habi v (by tauto)) w hw
  · exact harray (by rw [hlen.atomOffsets]; omega) (fun v hv => habi v (by tauto)) w hw
  · exact harray (by omega) (fun v hv => habi v (by tauto)) w hw
  · exact harray (by rw [hlen.atomCommitIdxs]; omega) (fun v hv => habi v (by tauto)) w hw
  · exact harray (by omega) (fun v hv => habi v (by tauto)) w hw
  · exact harray (by omega) (fun v hv => habi v (by tauto)) w hw
  · refine harray (by rw [List.length_map, hlen.inputIsCommitted]; omega) ?_ w hw
    intro v hv
    obtain ⟨committed, -, rfl⟩ := List.mem_map.mp hv
    cases committed <;> decide
  · exact harray (by rw [hlen.productOffsets]; omega) (fun v hv => habi v (by tauto)) w hw
  · exact harray (by omega) (fun v hv => habi v (by tauto)) w hw
  · exact harray (by rw [hlen.exprCoeffs]; omega) (fun v hv => habi v (by tauto)) w hw

/-- A decoder whose `usize` has the given width and keeps what fits it gives back exactly the
descriptions that fit. -/
theorem roundTrip_iff {desc : DAGCircuitDescription} (hlen : LengthsChecked desc)
    (habi : fitsAbi desc = true) {r : Reader} {usize : Parser ℕ} {width : ℕ} (hwidth : 9 ≤ width)
    (hle : width ≤ 256) (hread : r.readU256 = readU256 (encodeFlatCircuitDesc desc))
    (hyields : Yields usize (· < 2 ^ width))
    (husize : ∀ data v, v < 2 ^ width → Reads 32 data r.readU256 [v] v →
      Reads 32 data usize [v] v) :
    (decodeCircuitDescription r usize (· % 2 ^ 64)).run 0 =
      .ok (desc, (encodeFlatCircuitDesc desc).length) ↔ FitsWidth width desc := by
  constructor
  · exact fun h => yields_decodeCircuitDescription hyields _ _ _ h
  · intro hfits
    have hword : r.readU256 = readWord (flatDescWords desc) := by
      rw [hread, encodeFlatCircuitDesc,
        readU256_flatMap_wordToBeBytes (flatDescWords_lt hlen habi hwidth hle hfits)]
    have hreads : ∀ v, Reads 32 (flatDescWords desc) r.readU256 [v] v := by
      intro v
      rw [hword]
      exact reads_readWord _ v
    have htypes : ∀ v ∈ desc.layerTypes, v < 256 := by
      simp only [fitsAbi, Bool.and_eq_true, List.all_eq_true, decide_eq_true_eq] at habi
      exact habi.1
    have hrun := reads_decodeCircuitDescription hlen htypes hwidth hfits hreads
      (fun v hv => husize _ v hv (hreads v)) 0 (by rw [List.drop_zero])
    rw [Nat.mul_zero, Nat.zero_add] at hrun
    rw [hrun, encodeFlatCircuitDesc, length_flatMap_wordToBeBytes]

/-- A read that checks its value: it yields values below the bound, and reads those below it. -/
private theorem yields_checked (p : Parser ℕ) (cut : ℕ → ℕ) {bound : ℕ}
    (hcut : ∀ v, v < 2 ^ 64 → cut v < bound) :
    Yields (do let v ← p; if v < 2 ^ 64 then pure (cut v) else throw .valueTooLarge : Parser ℕ)
      (· < bound) := by
  refine (Yields.trivial p).bind fun v _ => ?_
  by_cases hv : v < 2 ^ 64
  · rw [if_pos hv]
    exact yields_pure (hcut v hv)
  · rw [if_neg hv]
    intro offset a offset' h
    cases h

private theorem reads_checked {p : Parser ℕ} (cut : ℕ → ℕ) {data : List ℕ} {v : ℕ}
    (hv : v < 2 ^ 64) (hcut : cut v = v) (hp : Reads 32 data p [v] v) :
    Reads 32 data (do let v ← p; if v < 2 ^ 64 then pure (cut v) else throw .valueTooLarge :
      Parser ℕ) [v] v := by
  have hpure : Reads 32 data (if v < 2 ^ 64 then pure (cut v) else throw .valueTooLarge :
      Parser ℕ) [] v := by
    rw [if_pos hv, hcut]
    exact reads_pure v
  have h := hp.bind (f := fun v => if v < 2 ^ 64 then pure (cut v) else throw .valueTooLarge) hpure
  rwa [List.append_nil] at h

private theorem yields_tryReadUsizeFrom (bytes : List UInt8) :
    Yields (ZkmlVerifier.tryReadUsizeFrom bytes) (· < 2 ^ 64) :=
  yields_checked (readU256 bytes) id fun _ hv => hv

theorem reads_tryReadUsizeFrom {bytes : List UInt8} {data : List ℕ} {v : ℕ}
    (hv : v < 2 ^ 64) (hp : Reads 32 data (ZkmlVerifier.tryReader bytes).readU256 [v] v) :
    Reads 32 data (ZkmlVerifier.tryReadUsizeFrom bytes) [v] v :=
  reads_checked id hv rfl hp

private theorem yields_readUsizeFrom (bytes : List UInt8) :
    Yields (readUsizeFrom bytes) (· < 2 ^ 32) :=
  yields_checked (readU256 bytes) (· % 2 ^ 32) fun v _ => Nat.mod_lt v (by decide)

private theorem reads_readUsizeFrom {bytes : List UInt8} {data : List ℕ} {v : ℕ}
    (hv : v < 2 ^ 32) (hp : Reads 32 data (decoderReader bytes).readU256 [v] v) :
    Reads 32 data (readUsizeFrom bytes) [v] v :=
  reads_checked (· % 2 ^ 32) (lt_trans hv (by decide)) (Nat.mod_eq_of_lt hv) hp

private theorem readU256_decoderReader (bytes : List UInt8) :
    (decoderReader bytes).readU256 = readU256 bytes := rfl

private theorem readU256_tryReader (bytes : List UInt8) :
    (ZkmlVerifier.tryReader bytes).readU256 = readU256 bytes := rfl

/-- The Stylus decoder gives back the descriptions that fit 32-bit indices. -/
theorem decode_decoderReader_iff {desc : DAGCircuitDescription} (hlen : LengthsChecked desc)
    (habi : fitsAbi desc = true) :
    (decodeCircuitDescription (decoderReader (encodeFlatCircuitDesc desc))
        (readUsizeFrom (encodeFlatCircuitDesc desc)) (· % 2 ^ 64)).run 0 =
      .ok (desc, (encodeFlatCircuitDesc desc).length) ↔ FitsWidth 32 desc := by
  refine roundTrip_iff hlen habi (by decide) (by decide) ?_
    (yields_readUsizeFrom (encodeFlatCircuitDesc desc)) ?_
  · exact readU256_decoderReader _
  · exact fun data v hv hp => reads_readUsizeFrom hv hp

/-- The decoders of the native crate and of the Stylus crate give a registered description back
from its flat encoding, without trailing bytes, exactly when its numbers fit `usize` and `u64`. -/
theorem decode_encodeFlatCircuitDesc_iff {c c' : Contract} {circuitHash : {h : ℕ // h < WORD}}
    {desc : {d : DAGCircuitDescription // fitsAbi d = true}} {gensHash : ℕ}
    (h : registerDAGCircuit c circuitHash desc gensHash = .ok c') :
    ((decodeCircuitDescription (ZkmlVerifier.tryReader (encodeFlatCircuitDesc desc.val))
        (ZkmlVerifier.tryReadUsizeFrom (encodeFlatCircuitDesc desc.val)) (· % 2 ^ 64)).run 0 =
      .ok (desc.val, (encodeFlatCircuitDesc desc.val).length) ↔ FitsWidth 64 desc.val) ∧
    ((decodeCircuitDescription (decoderReader (encodeFlatCircuitDesc desc.val))
        (readUsizeFrom (encodeFlatCircuitDesc desc.val)) (· % 2 ^ 64)).run 0 =
      .ok (desc.val, (encodeFlatCircuitDesc desc.val).length) ↔ FitsWidth 32 desc.val) := by
  have hlen := lengthsChecked_of_register h
  constructor
  · refine roundTrip_iff hlen desc.property (by decide) (by decide) ?_
      (yields_tryReadUsizeFrom (encodeFlatCircuitDesc desc.val)) ?_
    · exact readU256_tryReader _
    · exact fun data v hv hp => reads_tryReadUsizeFrom hv hp
  · exact decode_decoderReader_iff hlen desc.property

/-- One layer with one atom on the committed input, whose template has the given entry. -/
def oneEntryDesc (entry : {w : ℕ // w < WORD}) :
    {d : DAGCircuitDescription // fitsAbi d = true} :=
  ⟨⟨1, 1, [0], [0], [0, 1], [1], [0], [0, 1], [entry], [true], [0, 0], [], []⟩, by
    simp only [fitsAbi, List.all_cons, List.all_nil, List.cons_append, List.nil_append,
      entry.property, decide_true]
    decide⟩

private theorem register_oneEntryDesc (entry : {w : ℕ // w < WORD}) :
    ∃ c', registerDAGCircuit emptyContract ⟨1, by decide⟩ (oneEntryDesc entry) 0 = .ok c' := by
  have hcheck : checkDescription (oneEntryDesc entry).val = .ok () := rfl
  unfold registerDAGCircuit
  rw [if_neg (by decide), dif_neg (by decide), if_neg (by decide)]
  split
  · rename_i e he
    rw [hcheck] at he
    cases he
  · exact ⟨_, rfl⟩

/-- A template entry for the fixed value 5 comes back. -/
theorem oneEntry_roundTrip :
    (decodeCircuitDescription (decoderReader (encodeFlatCircuitDesc
        (oneEntryDesc ⟨20005, by decide⟩).val))
      (readUsizeFrom (encodeFlatCircuitDesc (oneEntryDesc ⟨20005, by decide⟩).val))
      (· % 2 ^ 64)).run 0 =
      .ok ((oneEntryDesc ⟨20005, by decide⟩).val,
        (encodeFlatCircuitDesc (oneEntryDesc ⟨20005, by decide⟩).val).length) := by
  obtain ⟨c', hregister⟩ := register_oneEntryDesc ⟨20005, by decide⟩
  refine (decode_encodeFlatCircuitDesc_iff hregister).2.mpr ⟨?_, ?_, ?_, ?_⟩
  · decide
  · decide
  · decide
  · decide

/-- A template entry of more than 64 bits comes back cut, from either decoder. -/
theorem oneEntry_cut :
    (∃ c', registerDAGCircuit emptyContract ⟨1, by decide⟩
      (oneEntryDesc ⟨2 ^ 64 + 20005, by decide⟩) 0 = .ok c') ∧
    let desc := (oneEntryDesc ⟨2 ^ 64 + 20005, by decide⟩).val
    let data := encodeFlatCircuitDesc desc
    (decodeCircuitDescription (ZkmlVerifier.tryReader data) (ZkmlVerifier.tryReadUsizeFrom data)
      (· % 2 ^ 64)).run 0 ≠ .ok (desc, data.length) ∧
    (decodeCircuitDescription (decoderReader data) (readUsizeFrom data) (· % 2 ^ 64)).run 0 ≠
      .ok (desc, data.length) := by
  refine ⟨register_oneEntryDesc _, ?_, ?_⟩
  · decide +kernel
  · decide +kernel

end WorldZk.FlatDescription
