import Mathlib.Data.UInt
import WorldZk.GuestInference

/-!
# Inference in parts

Splitting the samples of an input, running the guest program on each part and merging its journals
gives the journal of the whole input, but for the input hash: each part has a hash of its own, and
the merge keeps one of them.
-/

namespace WorldZk.SplitInference

open CheckedRuns GuestInference InputDecomposition WordSerde XGBoostGuest

/-! ## Chunks -/

section Chunks

variable {α : Type} (items : List α)

theorem flatten_chunksFrom (offset : ℕ) (sizes : List ℕ) :
    (chunksFrom items offset sizes).flatten = (items.drop offset).take sizes.sum := by
  induction sizes generalizing offset with
  | nil => rw [List.sum_nil, List.take_zero]; rfl
  | cons size sizes ih =>
    rw [chunksFrom, List.flatten_cons, ih, List.sum_cons, List.take_add, List.drop_drop]

theorem map_length_chunksFrom {offset : ℕ} {sizes : List ℕ}
    (h : offset + sizes.sum ≤ items.length) :
    (chunksFrom items offset sizes).map List.length = sizes := by
  induction sizes generalizing offset with
  | nil => rfl
  | cons size sizes ih =>
    rw [List.sum_cons] at h
    rw [chunksFrom, List.map_cons, ih (by omega), List.length_take, List.length_drop,
      Nat.min_eq_left (by omega)]

private theorem sum_sizes (q r k : ℕ) :
    ((List.range k).map fun i => q + if i < r then 1 else 0).sum = q * k + min r k := by
  induction k with
  | zero => simp
  | succ k ih =>
    rw [List.range_succ, List.map_append, List.sum_append, ih, List.map_singleton,
      List.sum_singleton, Nat.mul_succ]
    split <;> omega

theorem sum_chunkSizes {total chunkCount : ℕ} (h : 0 < chunkCount) :
    (chunkSizes total chunkCount).sum = total := by
  have hlt := Nat.mod_lt total h
  rw [chunkSizes, sum_sizes, Nat.min_eq_left hlt.le, Nat.mul_comm, Nat.div_add_mod]

theorem chunkSizes_le {total chunkCount size size' : ℕ} (h : size ∈ chunkSizes total chunkCount)
    (h' : size' ∈ chunkSizes total chunkCount) : size ≤ size' + 1 := by
  obtain ⟨i, -, rfl⟩ := List.mem_map.mp h
  obtain ⟨j, -, rfl⟩ := List.mem_map.mp h'
  split <;> split <;> omega

end Chunks

def partInput (input : XGBoostInput) (samples : List Sample) : XGBoostInput :=
  { input with samples := samples }

/-- The inputs of the parts: the samples in consecutive chunks whose sizes differ by one at most. -/
def ConsecutiveParts (input : XGBoostInput) (n : ℕ) (parts : List (List UInt8)) : Prop :=
  ∃ chunks : List (List Sample),
    parts = chunks.map (fun samples => inputFormat.serialize (partInput input samples)) ∧
      chunks.length = n ∧ chunks.flatten = input.samples ∧
      ∀ chunk ∈ chunks, ∀ chunk' ∈ chunks, chunk.length ≤ chunk'.length + 1

/-! ## Merging -/

section Merge

/-- The hash that the merge keeps: the first one that is not zero. -/
def keptHash (outputs : List XGBoostOutput) (hash : Vector UInt8 32) : Vector UInt8 32 :=
  outputs.foldl (fun hash output => if hash = .replicate 32 0 then output.inputHash else hash) hash

theorem foldlM_mergeStep {outputs : List XGBoostOutput}
    (hfits : ∀ output ∈ outputs, outputFormat.Fits output) (s : MergeState) :
    (outputs.map outputFormat.serialize).foldlM mergeStep s = .ok
      { predictions := s.predictions ++ outputs.flatMap XGBoostOutput.predictions
        flaggedIds := s.flaggedIds ++ outputs.flatMap XGBoostOutput.flaggedIds
        totalSamples := s.totalSamples + (outputs.map XGBoostOutput.totalSamples).sum
        inputHash := keptHash outputs s.inputHash } := by
  induction outputs generalizing s with
  | nil => simp [keptHash, pure, Except.pure]
  | cons output outputs ih =>
    obtain ⟨houtput, hrest⟩ := List.forall_mem_cons.mp hfits
    have hstep : mergeStep s (outputFormat.serialize output) = .ok
        { predictions := s.predictions ++ output.predictions
          flaggedIds := s.flaggedIds ++ output.flaggedIds
          totalSamples := s.totalSamples + output.totalSamples
          inputHash :=
            if s.inputHash = .replicate 32 0 then output.inputHash else s.inputHash } := by
      rw [mergeStep, Format.deserialize_serialize _ houtput]
      rfl
    rw [List.map_cons, List.foldlM_cons, hstep]
    refine (ih hrest _).trans ?_
    simp only [List.flatMap_cons, List.append_assoc, List.map_cons, List.sum_cons, keptHash,
      List.foldl_cons, UInt32.add_assoc]

variable (a : F64Arithmetic) {input : XGBoostInput} {chunks : List (List Sample)}

/-- The outputs for the parts of an input. -/
def partOutputs (input : XGBoostInput) (chunks : List (List Sample)) : List XGBoostOutput :=
  chunks.map fun samples => main a (partInput input samples)

theorem flatMap_predictions (h : chunks.flatten = input.samples) :
    (partOutputs a input chunks).flatMap XGBoostOutput.predictions =
      (main a input).predictions := by
  rw [main_eq]
  change _ = input.samples.map (prediction a input.model input.threshold)
  rw [← h, List.map_flatten, partOutputs, List.flatMap_map, ← List.flatMap_def]
  refine List.flatMap_congr ?_
  intro samples _
  rw [main_eq]
  rfl

theorem flatMap_flaggedIds (h : chunks.flatten = input.samples) :
    (partOutputs a input chunks).flatMap XGBoostOutput.flaggedIds = (main a input).flaggedIds := by
  rw [main_eq]
  change _ = (input.samples.filter (flags a input.model input.threshold)).map Sample.id
  rw [← h, List.filter_flatten, List.map_flatten, List.map_map, partOutputs, List.flatMap_map,
    ← List.flatMap_def]
  refine List.flatMap_congr ?_
  intro samples _
  rw [main_eq]
  rfl

theorem sum_totalSamples (h : chunks.flatten = input.samples) :
    ((partOutputs a input chunks).map XGBoostOutput.totalSamples).sum =
      (main a input).totalSamples := by
  have hsum : ∀ chunks : List (List Sample),
      ((partOutputs a input chunks).map XGBoostOutput.totalSamples).sum =
        UInt32.ofNat chunks.flatten.length := by
    intro chunks
    induction chunks with
    | nil => rfl
    | cons samples chunks ih =>
      rw [List.flatten_cons, List.length_append, UInt32.ofNat_add, ← ih]
      rfl
  rw [hsum, h]
  rfl

theorem fits_part (hfits : inputFormat.Fits input) (h : chunks.flatten = input.samples)
    {samples : List Sample} (hsamples : samples ∈ chunks) :
    inputFormat.Fits (partInput input samples) := by
  have hsub : samples.Sublist input.samples := h ▸ List.sublist_flatten_of_mem hsamples
  exact ⟨hfits.1, ⟨hsub.length_le.trans_lt hfits.2.1.1,
    fun sample hsample => hfits.2.1.2 sample (hsub.subset hsample)⟩, hfits.2.2⟩

theorem flaggedCount_eq (input : XGBoostInput) :
    UInt32.ofNat (main a input).flaggedIds.length = (main a input).flaggedCount := by
  rw [main_eq]
  simp only [List.length_map]

/-- Merging the journals of the parts gives all fields of the whole output but the hash. -/
theorem mergeJournals_parts (hfits : inputFormat.Fits input)
    (h : chunks.flatten = input.samples) :
    mergeJournals ((partOutputs a input chunks).map outputFormat.serialize) =
      .ok (outputFormat.serialize { main a input with
        inputHash := keptHash (partOutputs a input chunks) (.replicate 32 0) }) := by
  have hparts : ∀ output ∈ partOutputs a input chunks, outputFormat.Fits output := by
    intro output houtput
    obtain ⟨samples, hsamples, rfl⟩ := List.mem_map.mp houtput
    exact fits_main a (fits_part hfits h hsamples)
  rw [mergeJournals, foldlM_mergeStep hparts, ok_bind]
  simp only [MergeState.start, List.nil_append, UInt32.zero_add]
  rw [flatMap_predictions a h, flatMap_flaggedIds a h, sum_totalSamples a h, flaggedCount_eq]
  rfl

end Merge

/-! ## Parts and the whole -/

section Parts

variable (a : F64Arithmetic) {config : DecomposerConfig} {bytes : List UInt8}
  {input : XGBoostInput} {n : ℕ}

theorem planSplit_bounds (hparse : tryParse bytes = .ok input) (hsamples : input.samples ≠ [])
    (hplan : planSplit config xgboostStrategy bytes = .ok n) :
    0 < n ∧ n ≤ input.samples.length := by
  have hpos := List.length_pos_of_ne_nil hsamples
  have hcount : xgboostStrategy.itemCount bytes = .ok input.samples.length := by
    change (tryParse bytes >>= fun parsed => pure parsed.samples.length) = _
    rw [hparse]
    rfl
  simp only [planSplit, hcount, ok_bind, pure_eq_ok] at hplan
  omega

/-- The parts of a split into no more parts than samples. -/
theorem exists_split (hparse : tryParse bytes = .ok input) (hn : 0 < n)
    (hle : n ≤ input.samples.length) : ∃ chunks : List (List Sample),
      split bytes n =
        .ok (chunks.map fun samples => inputFormat.serialize (partInput input samples)) ∧
      chunks.length = n ∧ chunks.flatten = input.samples ∧
      ∀ chunk ∈ chunks, ∀ chunk' ∈ chunks, chunk.length ≤ chunk'.length + 1 := by
  have hsum : (chunkSizes input.samples.length n).sum = input.samples.length := sum_chunkSizes hn
  have hlengths : (chunksFrom input.samples 0 (chunkSizes input.samples.length n)).map
      List.length = chunkSizes input.samples.length n :=
    map_length_chunksFrom _ (by omega)
  refine ⟨chunksFrom input.samples 0 (chunkSizes input.samples.length n), ?_, ?_, ?_, ?_⟩
  · have hsome : (input.samples.length != 0) = true := by
      rw [bne_iff_ne]
      omega
    rw [split, hparse, ok_bind]
    simp only [hsome, require_true, ok_bind, Nat.min_eq_left hle]
    rfl
  · have hlength := congrArg List.length hlengths
    rwa [List.length_map, chunkSizes, List.length_map, List.length_range] at hlength
  · rw [flatten_chunksFrom, hsum, List.drop_zero, List.take_length]
  · intro chunk hchunk chunk' hchunk'
    refine @chunkSizes_le input.samples.length n _ _ ?_ ?_
    · rw [← hlengths]
      exact List.mem_map_of_mem hchunk
    · rw [← hlengths]
      exact List.mem_map_of_mem hchunk'

theorem mapM_guest_parts (hfits : inputFormat.Fits input) {chunks : List (List Sample)}
    (h : chunks.flatten = input.samples) :
    (chunks.map fun samples => inputFormat.serialize (partInput input samples)).mapM (guest a) =
      some ((partOutputs a input chunks).map outputFormat.serialize) := by
  rw [mapM_eq_some, partOutputs, List.map_map, List.forall₂_map_left_iff,
    List.forall₂_map_right_iff, List.forall₂_same]
  intro samples hsamples
  exact guest_eq a (Format.deserialize_serialize _ (fits_part hfits h hsamples))

theorem keptHash_single (output : XGBoostOutput) :
    keptHash [output] (.replicate 32 0) = output.inputHash := by
  rw [keptHash, List.foldl_cons, if_pos rfl]
  rfl

/-- Splitting, proving and merging gives the journal of the whole input in all fields but the input
hash, which a single part keeps. -/
theorem split_then_merge (config : DecomposerConfig) (hparse : tryParse bytes = .ok input)
    (hsamples : input.samples ≠ []) (hplan : planSplit config xgboostStrategy bytes = .ok n) :
    ∃ parts journals hash, split bytes n = .ok parts ∧ ConsecutiveParts input n parts ∧
      parts.mapM (guest a) = some journals ∧
      guest a bytes = some (outputFormat.serialize (main a input)) ∧
      mergeJournals journals =
        .ok (outputFormat.serialize { main a input with inputHash := hash }) ∧
      (n = 1 → hash = (main a input).inputHash) := by
  obtain ⟨hn, hle⟩ := planSplit_bounds hparse hsamples hplan
  obtain ⟨chunks, hsplit, hlength, hflatten, hsizes⟩ := exists_split hparse hn hle
  have hread : inputFormat.deserialize bytes = some input := okOr_eq_ok.mp hparse
  have hfits := readsFit_inputFormat.of_deserialize hread
  refine ⟨_, _, _, hsplit, ⟨chunks, rfl, hlength, hflatten, hsizes⟩,
    mapM_guest_parts a hfits hflatten, guest_eq a hread, mergeJournals_parts a hfits hflatten, ?_⟩
  intro hone
  obtain ⟨samples, rfl⟩ := List.length_eq_one_iff.mp (hlength.trans hone)
  rw [List.flatten_singleton] at hflatten
  subst hflatten
  exact keptHash_single _

/-- The parts are consecutive, and their merged journal is that of the whole input. -/
def SplitEqualsWhole (config : DecomposerConfig) (bytes : List UInt8) : Prop :=
  ∀ n, planSplit config xgboostStrategy bytes = .ok n →
    ∃ input parts journals journal, tryParse bytes = .ok input ∧ split bytes n = .ok parts ∧
      ConsecutiveParts input n parts ∧ parts.mapM (guest a) = some journals ∧
      guest a bytes = some journal ∧ mergeJournals journals = .ok journal

theorem keptHash_two {first second : Sample}
    (hzero : inputHash (partInput input [first]) ≠ .replicate 32 0) :
    keptHash (partOutputs a input [[first], [second]]) (.replicate 32 0) =
      inputHash (partInput input [first]) := by
  rw [partOutputs, keptHash]
  simp only [List.map_cons, List.map_nil, List.foldl_cons, List.foldl_nil, if_true]
  exact if_neg hzero

/-- Two parts of one sample do not have the journal of the whole input, unless the first part has
the same hash. -/
theorem not_splitEqualsWhole {first second : Sample} (hfits : inputFormat.Fits input)
    (hinput : input.samples = [first, second])
    (hplan : planSplit config xgboostStrategy (inputFormat.serialize input) = .ok 2)
    (hzero : inputHash (partInput input [first]) ≠ .replicate 32 0)
    (hhash : inputHash (partInput input [first]) ≠ inputHash input) :
    ¬ SplitEqualsWhole a config (inputFormat.serialize input) := by
  intro h
  obtain ⟨input', parts, journals, journal, hparse, hsplit, hparts, hjournals, hjournal, hmerge⟩ :=
    h 2 hplan
  have hread := Format.deserialize_serialize _ hfits
  obtain rfl : input = input' := by
    rw [tryParse, hread] at hparse
    exact Except.ok.inj hparse
  obtain ⟨chunks, rfl, hlength, hflatten, hsizes⟩ := hparts
  -- each of the two chunks has one sample
  obtain rfl : chunks = [[first], [second]] := by
    obtain ⟨c, d, rfl⟩ := List.length_eq_two.mp hlength
    have hcd := hsizes c (by simp) d (by simp)
    have hdc := hsizes d (by simp) c (by simp)
    rw [hinput, List.flatten_cons, List.flatten_singleton] at hflatten
    have htotal := congrArg List.length hflatten
    rw [List.length_append, List.length_cons, List.length_singleton] at htotal
    obtain ⟨x, rfl⟩ := List.length_eq_one_iff.mp (show c.length = 1 by omega)
    obtain ⟨y, rfl⟩ := List.length_eq_one_iff.mp (show d.length = 1 by omega)
    obtain ⟨rfl, rfl⟩ : x = first ∧ y = second := by simpa using hflatten
    rfl
  rw [mapM_guest_parts a hfits hflatten] at hjournals
  rw [← Option.some.inj hjournals, mergeJournals_parts a hfits hflatten, keptHash_two a hzero]
    at hmerge
  rw [guest_eq a hread] at hjournal
  -- equal journals are journals of equal outputs
  have hequal := congrArg outputFormat.deserialize
    ((Except.ok.inj hmerge).trans (Option.some.inj hjournal).symm)
  have hmain := fits_main a hfits
  have hmerged : outputFormat.Fits
      { main a input with inputHash := inputHash (partInput input [first]) } :=
    fits_output hmain.2.1.1 hmain.2.2.2.1.1
  rw [Format.deserialize_serialize _ hmain, Format.deserialize_serialize _ hmerged] at hequal
  exact hhash (congrArg XGBoostOutput.inputHash (Option.some.inj hequal))

end Parts

/-! ## Samples of a model without trees -/

/-- The order of numbers that are not negative is that of their bits. -/
def storedArithmetic : F64Arithmetic where
  add x y := if y = 0 then x else y
  lt x y := decide (x < y)
  ge x y := decide (y ≤ x)

/-- Samples for a model whose score is zero, with the threshold one. -/
def batch (samples : List Sample) : XGBoostInput :=
  ⟨⟨1, 1, 0, []⟩, samples, 0x3FF0000000000000⟩

def sample (id : UInt8) : Sample := ⟨.replicate 32 id, []⟩

/-- Two jobs for a small input. -/
def twoJobs : DecomposerConfig := ⟨0, 16, 2500000⟩

theorem fits_batch {ids : List UInt8} (h : ids.length < 2 ^ 32) :
    inputFormat.Fits (batch (ids.map sample)) := by
  refine ⟨⟨trivial, trivial, trivial, ⟨Nat.two_pow_pos 32, ?_⟩⟩, ⟨?_, ?_⟩, trivial⟩
  · exact fun _ htree => absurd htree List.not_mem_nil
  · rwa [← List.length_map sample] at h
  · intro s hs
    obtain ⟨id, -, rfl⟩ := List.mem_map.mp hs
    exact ⟨fun _ _ => trivial, Nat.two_pow_pos 32, fun _ _ => trivial⟩

/-- Three samples in two parts. -/
theorem three_samples_merged : ∃ parts journals hash,
    split (inputFormat.serialize (batch ([1, 2, 3].map sample))) 2 = .ok parts ∧
      ConsecutiveParts (batch ([1, 2, 3].map sample)) 2 parts ∧
      parts.mapM (guest storedArithmetic) = some journals ∧
      guest storedArithmetic (inputFormat.serialize (batch ([1, 2, 3].map sample))) =
        some (outputFormat.serialize (main storedArithmetic (batch ([1, 2, 3].map sample)))) ∧
      mergeJournals journals = .ok (outputFormat.serialize
        { main storedArithmetic (batch ([1, 2, 3].map sample)) with inputHash := hash }) ∧
      (2 = 1 → hash = (main storedArithmetic (batch ([1, 2, 3].map sample))).inputHash) := by
  refine split_then_merge storedArithmetic twoJobs ?_ (List.cons_ne_nil _ _) (by decide +kernel)
  rw [tryParse, Format.deserialize_serialize _ (fits_batch (by decide))]
  rfl

/-- There are no parts of no samples, and two parts have another hash than the whole input. -/
theorem no_samples_and_two_samples :
    ¬ SplitEqualsWhole storedArithmetic twoJobs (inputFormat.serialize (batch [])) ∧
      ¬ SplitEqualsWhole storedArithmetic twoJobs
        (inputFormat.serialize (batch ([1, 2].map sample))) := by
  constructor
  · intro h
    obtain ⟨input, parts, -, -, -, hsplit, -⟩ := h 1 (by decide +kernel)
    have hnone : split (inputFormat.serialize (batch [])) 1 = .error .noSamples := by
      decide +kernel
    rw [hnone] at hsplit
    cases hsplit
  · exact not_splitEqualsWhole storedArithmetic (fits_batch (by decide)) rfl (by decide +kernel)
      (by decide +kernel) (by decide +kernel)

end WorldZk.SplitInference
