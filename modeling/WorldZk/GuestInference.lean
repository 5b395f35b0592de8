import WorldZk.InputDecomposition

/-!
# The guest program of XGBoost inference

What the guest reads, computes and commits. It reads words by hand, where the prover uses serde, and
takes the low byte of a word as a byte. What it does with floating-point numbers is left open.
-/

namespace WorldZk.GuestInference

open InputDecomposition WordSerde XGBoostGuest

/-- The operations on `f64` that the guest uses. -/
structure F64Arithmetic where
  add : F64 → F64 → F64
  lt : F64 → F64 → Bool
  ge : F64 → F64 → Bool

/-! ## Reading -/

/-- `read_word() as u8`. -/
def guestByteFormat : Format UInt8 where
  write := Format.byte.write
  read := fun
    | [] => none
    | w :: rest => some (UInt8.ofNat w.toNat, rest)
  Fits := fun _ => True
  read_write := by
    intro b rest _
    have hb : b.toNat < 2 ^ 32 := lt_trans b.toNat_lt (by decide)
    simp only [Format.byte, List.cons_append, List.nil_append, UInt32.toNat_ofNat_of_lt' hb,
      UInt8.ofNat_toNat]

def guestSampleFormat : Format Sample :=
  ((guestByteFormat.vector 32).pair Format.double.list).comap Sample.fields

/-- `read_input`: the model, the samples and the threshold. -/
def guestInputFormat : Format XGBoostInput :=
  ((Format.word.pair (Format.word.pair (Format.double.pair treeFormat.list))).pair
    (guestSampleFormat.list.pair Format.double)).comap XGBoostInput.fields

/-! ## Prediction -/

section Guest

variable (a : F64Arithmetic)

/-- The walk of `traverse_tree`, with the rounds that are left. -/
def traverseFrom (tree : Tree) (features : List F64) : ℕ → UInt32 → F64
  | 0, _ => 0
  | rounds + 1, nodeIdx =>
    match tree.nodes[nodeIdx.toNat]? with
    | none => 0
    | some node =>
      if node.isLeaf = 1 then node.value
      else if a.lt (features.getD node.featureIdx.toNat 0) node.threshold then
        traverseFrom tree features rounds node.leftChild
      else traverseFrom tree features rounds node.rightChild

def traverseTree (tree : Tree) (features : List F64) : F64 :=
  traverseFrom a tree features tree.nodes.length 0

def predictSample (model : XGBoostModel) (sample : Sample) : F64 :=
  model.trees.foldl (fun score tree => a.add score (traverseTree a tree sample.features))
    model.baseScore

/-- The accumulators of the loop over the samples. -/
structure MainState where
  predictions : List Prediction
  flaggedCount : UInt32
  flaggedIds : List (Vector UInt8 32)

def mainStep (model : XGBoostModel) (threshold : F64) (s : MainState) (sample : Sample) :
    MainState :=
  let score := predictSample a model sample
  let flagged : UInt32 := if a.ge score threshold then 1 else 0
  { predictions := s.predictions ++ [⟨sample.id, score, flagged⟩]
    flaggedCount := if flagged = 1 then s.flaggedCount + 1 else s.flaggedCount
    flaggedIds := if flagged = 1 then s.flaggedIds ++ [sample.id] else s.flaggedIds }

/-- The hash of the input, as an array. -/
def inputHash (input : XGBoostInput) : Vector UInt8 32 :=
  ⟨⟨computeInputHash input⟩, length_computeInputHash input⟩

/-- `main`, from the input that is read to the output that is committed. -/
def main (input : XGBoostInput) : XGBoostOutput :=
  let s := input.samples.foldl (mainStep a input.model input.threshold) ⟨[], 0, []⟩
  { totalSamples := UInt32.ofNat input.samples.length
    predictions := s.predictions
    flaggedCount := s.flaggedCount
    flaggedIds := s.flaggedIds
    inputHash := inputHash input }

/-! ## Committing -/

def pushF64 (words : List UInt32) (val : F64) : List UInt32 :=
  words ++ [UInt32.ofNat val.toNat, UInt32.ofNat (val.toNat / 2 ^ 32)]

def pushByteArray32 (words : List UInt32) (arr : Vector UInt8 32) : List UInt32 :=
  words ++ arr.toList.map fun byte => UInt32.ofNat byte.toNat

def pushPrediction (words : List UInt32) (pred : Prediction) : List UInt32 :=
  pushF64 (pushByteArray32 words pred.id) pred.score ++ [pred.flagged]

/-- `commit_output`. -/
def commitOutput (output : XGBoostOutput) : List UInt32 :=
  let words := [output.totalSamples, UInt32.ofNat output.predictions.length]
  let words := output.predictions.foldl pushPrediction words
  let words := words ++ [output.flaggedCount, UInt32.ofNat output.flaggedIds.length]
  let words := output.flaggedIds.foldl pushByteArray32 words
  pushByteArray32 words output.inputHash

/-- The journal of the guest program, if it can read its input. -/
def guest (bytes : List UInt8) : Option (List UInt8) :=
  (guestInputFormat.read (ofBytes bytes)).map fun p => toBytes (commitOutput (main a p.1))

end Guest

/-! ## What is committed -/

theorem pushByteArray32_eq (words : List UInt32) (arr : Vector UInt8 32) :
    pushByteArray32 words arr = words ++ idFormat.write arr := by
  have hbytes : arr.toList.map (fun byte => UInt32.ofNat byte.toNat) =
      arr.toList.flatMap Format.byte.write := by
    rw [List.map_eq_flatMap]
    rfl
  rw [pushByteArray32, hbytes]
  rfl

theorem pushPrediction_eq (words : List UInt32) (pred : Prediction) :
    pushPrediction words pred = words ++ predictionFormat.write pred := by
  rw [pushPrediction, pushF64, pushByteArray32_eq, List.append_assoc, List.append_assoc]
  rfl

theorem commitOutput_eq (output : XGBoostOutput) :
    commitOutput output = outputFormat.write output := by
  have hpredictions : ∀ (predictions : List Prediction) (words : List UInt32),
      predictions.foldl pushPrediction words =
        words ++ predictions.flatMap predictionFormat.write := by
    intro predictions
    induction predictions with
    | nil => exact fun words => (List.append_nil words).symm
    | cons pred predictions ih =>
      intro words
      rw [List.foldl_cons, ih, pushPrediction_eq, List.flatMap_cons, List.append_assoc]
  have hids : ∀ (ids : List (Vector UInt8 32)) (words : List UInt32),
      ids.foldl pushByteArray32 words = words ++ ids.flatMap idFormat.write := by
    intro ids
    induction ids with
    | nil => exact fun words => (List.append_nil words).symm
    | cons id ids ih =>
      intro words
      rw [List.foldl_cons, ih, pushByteArray32_eq, List.flatMap_cons, List.append_assoc]
  simp only [commitOutput]
  rw [pushByteArray32_eq, hids, hpredictions]
  simp only [List.append_assoc]
  rfl

section Output

variable (a : F64Arithmetic)

def flags (model : XGBoostModel) (threshold : F64) (sample : Sample) : Bool :=
  a.ge (predictSample a model sample) threshold

def prediction (model : XGBoostModel) (threshold : F64) (sample : Sample) : Prediction :=
  ⟨sample.id, predictSample a model sample, if flags a model threshold sample then 1 else 0⟩

/-- The loop over the samples. -/
theorem foldl_mainStep (model : XGBoostModel) (threshold : F64) (samples : List Sample)
    (s : MainState) :
    samples.foldl (mainStep a model threshold) s =
      ⟨s.predictions ++ samples.map (prediction a model threshold),
        s.flaggedCount + UInt32.ofNat (samples.filter (flags a model threshold)).length,
        s.flaggedIds ++ (samples.filter (flags a model threshold)).map Sample.id⟩ := by
  induction samples generalizing s with
  | nil => simp
  | cons sample samples ih =>
    rw [List.foldl_cons, ih, List.map_cons]
    cases h : flags a model threshold sample with
    | false =>
      rw [List.filter_cons_of_neg (by rw [h]; decide)]
      have hge : a.ge (predictSample a model sample) threshold = false := h
      simp [mainStep, prediction, hge, h]
    | true =>
      rw [List.filter_cons_of_pos h]
      have hge : a.ge (predictSample a model sample) threshold = true := h
      have hcount : ∀ n : ℕ, UInt32.ofNat (n + 1) = 1 + UInt32.ofNat n := by
        intro n
        rw [Nat.add_comm, UInt32.ofNat_add]
        rfl
      simp [mainStep, prediction, hge, h, hcount, UInt32.add_assoc]

theorem main_eq (input : XGBoostInput) :
    main a input =
      { totalSamples := UInt32.ofNat input.samples.length
        predictions := input.samples.map (prediction a input.model input.threshold)
        flaggedCount :=
          UInt32.ofNat (input.samples.filter (flags a input.model input.threshold)).length
        flaggedIds := (input.samples.filter (flags a input.model input.threshold)).map Sample.id
        inputHash := inputHash input } := by
  rw [main, foldl_mainStep]
  simp

/-! ## What the guest makes of an input that the prover can parse -/

theorem readsFit_inputFormat : inputFormat.ReadsFit := by
  have hword : Format.word.ReadsFit := fun _ _ _ _ => trivial
  have hdouble : Format.double.ReadsFit := fun _ _ _ _ => trivial
  have hbyte : Format.byte.ReadsFit := fun _ _ _ _ => trivial
  have hnode : nodeFormat.ReadsFit :=
    (hword.pair (hword.pair (hdouble.pair (hword.pair (hword.pair hdouble))))).comap _
  have htree : treeFormat.ReadsFit := hnode.list.comap _
  have hsample : sampleFormat.ReadsFit := ((hbyte.vector 32).pair hdouble.list).comap _
  exact ((hword.pair (hword.pair (hdouble.pair htree.list))).pair
    (hsample.list.pair hdouble)).comap _

theorem guestInputFormat_extends : guestInputFormat.Extends inputFormat := by
  have hbyte : guestByteFormat.Extends Format.byte := by
    intro words r h
    cases words with
    | nil => cases h
    | cons w rest =>
      simp only [Format.byte, Option.ite_none_right_eq_some] at h
      exact h.2
  have hsample : guestSampleFormat.Extends sampleFormat :=
    ((hbyte.vector 32).pair (Format.Extends.refl _)).comap _
  exact ((Format.Extends.refl _).pair (hsample.list.pair (Format.Extends.refl _))).comap _

theorem guest_eq {bytes : List UInt8} {input : XGBoostInput}
    (h : inputFormat.deserialize bytes = some input) :
    guest a bytes = some (outputFormat.serialize (main a input)) := by
  rw [Format.deserialize] at h
  split at h
  · obtain ⟨p, hp, rfl⟩ := Option.map_eq_some_iff.mp h
    rw [guest, guestInputFormat_extends _ _ hp, Option.map_some, commitOutput_eq]
    rfl
  · cases h

theorem fits_output {output : XGBoostOutput} (hpredictions : output.predictions.length < 2 ^ 32)
    (hids : output.flaggedIds.length < 2 ^ 32) : outputFormat.Fits output :=
  ⟨trivial, ⟨hpredictions, fun _ _ => ⟨fun _ _ => trivial, trivial, trivial⟩⟩, trivial,
    ⟨hids, fun _ _ _ _ => trivial⟩, fun _ _ => trivial⟩

theorem fits_main {input : XGBoostInput} (h : inputFormat.Fits input) :
    outputFormat.Fits (main a input) := by
  have hsamples : input.samples.length < 2 ^ 32 := h.2.1.1
  rw [main_eq]
  refine fits_output ?_ ?_
  · simpa only [List.length_map] using hsamples
  · simp only [List.length_map]
    exact (List.length_filter_le _ _).trans_lt hsamples

end Output

end WorldZk.GuestInference
