import WorldZk.InferenceWitness
import Mathlib.Data.Rat.Floor

/-!
# Completeness of the inference circuit

The inputs that `prepare_circuit_inputs` builds for an inference make all outputs zero exactly when
the comparisons of the quantized numbers agree with those of the exact numbers along the walks, and
the sum of the quantized leaves fits an `i64`.
-/

namespace WorldZk.CircuitCompleteness

open Bn254Moduli CheckedRuns CircuitPreparation DecisionTrees GateWirings InferenceCircuit
open InferenceWitness TreeEnsemble

/-! ## Rounding keeps the order -/

section Rounding

variable {K : Type} [Field K] [LinearOrder K] [FloorRing K] [IsStrictOrderedRing K]

private theorem roundHalfAway_mono {a b : K} (h : a ≤ b) : roundHalfAway a ≤ roundHalfAway b := by
  have hhalf : (0 : K) < 1 / 2 := by positivity
  rw [roundHalfAway, roundHalfAway]
  split
  · next ha =>
    rw [if_pos (ha.trans h)]
    exact Int.floor_le_floor (by linarith)
  · next ha =>
    have hfloor : 0 ≤ ⌊-a + 1 / 2⌋ := Int.floor_nonneg.mpr (by linarith)
    split
    · next hb =>
      have : 0 ≤ ⌊b + 1 / 2⌋ := Int.floor_nonneg.mpr (by linarith)
      omega
    · have : ⌊-b + 1 / 2⌋ ≤ ⌊-a + 1 / 2⌋ := Int.floor_le_floor (by linarith)
      omega

theorem quantize_mono {a b : K} (h : a ≤ b) : quantize a ≤ quantize b := by
  have hscale : (0 : K) ≤ (FIXED_POINT_SCALE : ℕ) := Nat.cast_nonneg _
  have := roundHalfAway_mono (mul_le_mul_of_nonneg_right h hscale)
  rw [quantize, quantize, saturateI64, saturateI64]
  omega

/-- The comparison of the quantized numbers goes wrong in one case only. -/
theorem compare_quantize {x threshold : K} :
    (threshold ≤ x ↔ quantize threshold ≤ quantize x) ↔
      ¬ (x < threshold ∧ quantize x = quantize threshold) := by
  constructor
  · rintro h ⟨hlt, heq⟩
    exact absurd (h.mpr heq.ge) (not_le.mpr hlt)
  · intro h
    refine ⟨quantize_mono, fun hle => ?_⟩
    by_contra hlt
    rw [not_le] at hlt
    exact h ⟨hlt, le_antisymm (quantize_mono hlt.le) hle⟩

end Rounding

/-! ## The inputs of an inference -/

section Honest

variable {F : Type} [CommRing F]

def boolValues (bits : List Bool) (i : ℕ) : F := bitValue (bits.getD i false)

/-- The inputs that are set on the prover's circuit. -/
def inputValues (inputs : CircuitInputs) : CircuitValues F where
  pathBits := boolValues inputs.flatPathBits
  features := tableValues inputs.featuresQuantized
  decompBits := boolValues inputs.decompBitsPadded
  leafValues := tableValues inputs.leafValuesPadded
  expectedSum := (inputs.expectedSum : F)
  thresholds := tableValues inputs.thresholdsPadded
  isReal := tableValues inputs.isRealPadded

variable {K : Type} [Field K] [LinearOrder K] [FloorRing K] {inputs : CircuitInputs}
  {ts : List (ThresholdTree K)} {x : ℕ → K} {n : ℕ}

/-- A shifted difference that the digits hold. -/
def InDecompRange (x threshold : K) : Prop :=
  0 ≤ quantize x - quantize threshold + 2 ^ (DEFAULT_DECOMP_K - 1) ∧
    quantize x - quantize threshold + 2 ^ (DEFAULT_DECOMP_K - 1) < 2 ^ DEFAULT_DECOMP_K

omit [Field K] [FloorRing K] in
theorem feature_lt_of_visits {t : ThresholdTree K} {feature : ℕ} {threshold : K}
    (h : Visits x t feature threshold) (hbelow : FeaturesBelow n t) : feature < n := by
  induction h with
  | here => exact hbelow.1
  | left _ _ ih => exact ih hbelow.2.1
  | right _ _ ih => exact ih hbelow.2.2

section Walks

variable (hdescribes : DescribesTrees inputs ts) (hwalks : DescribesWalks inputs ts x n)
  {path : ℕ → Bool} (hpath : ∀ i < (shape inputs).pbCount, path i = inputs.flatPathBits.getD i false)
  {i k : ℕ} {t : ThresholdTree K} (ht : ts[i]? = some t)

include hdescribes ht

private theorem index_lt : i < inputs.numTreesPadded := by
  rw [hdescribes.trees]
  exact (List.getElem?_eq_some_iff.mp ht).1.trans_le (le_nextPowerOfTwo _)

include hwalks hpath

private theorem treeBits_eq (hk : k < inputs.maxDepth) :
    (turns x inputs.maxDepth t)[k]? = some ((shape inputs).treeBits path i k) := by
  have hi := index_lt hdescribes ht
  have hplace : i * inputs.maxDepth + k < (shape inputs).pbCount := rowPlace_lt hi hk
  have hget := List.getElem?_eq_getElem
    (show k < (turns x inputs.maxDepth t).length by rwa [length_turns])
  have hbit := hwalks.pathBit i k t ht hk
  change _ = some (path (i * inputs.maxDepth + k))
  rw [hpath _ hplace, List.getD_eq_getElem?_getD, hbit, hget, Option.getD_some]

private theorem map_treeBits (hk : k ≤ inputs.maxDepth) :
    (List.range k).map ((shape inputs).treeBits path i) = (turns x inputs.maxDepth t).take k := by
  refine List.ext_getElem? ?_
  intro m
  rcases Nat.lt_or_ge m k with hm | hm
  · rw [List.getElem?_map, List.getElem?_range hm, Option.map_some, List.getElem?_take_of_lt hm,
      treeBits_eq hdescribes hwalks hpath ht (by omega)]
  · rw [List.getElem?_eq_none (by rwa [List.length_map, List.length_range]),
      List.getElem?_eq_none (by rw [List.length_take]; omega)]

/-- The entry that the bits select among those of a virtual tree tells about the node that the walk
has come to. -/
private theorem selected_node (hk : k < inputs.maxDepth) :
    inputs.thresholdsPadded.getD ((shape inputs).selectedPlace path
        (k * inputs.numTreesPadded + i)
        ((k * inputs.numTreesPadded + i) % (shape inputs).numTreesPadded)) 0 =
      ((t.descend ((turns x inputs.maxDepth t).take k)).rootSplit.map
        fun p => quantize p.2).getD 0 ∧
    inputs.fiPadded.getD ((shape inputs).selectedPlace path (k * inputs.numTreesPadded + i)
        ((k * inputs.numTreesPadded + i) % (shape inputs).numTreesPadded)) 0 =
      ((t.descend ((turns x inputs.maxDepth t).take k)).rootSplit.map Prod.fst).getD 0 ∧
    inputs.isRealPadded.getD ((shape inputs).selectedPlace path (k * inputs.numTreesPadded + i)
        ((k * inputs.numTreesPadded + i) % (shape inputs).numTreesPadded)) 0 =
      ((t.descend ((turns x inputs.maxDepth t).take k)).rootSplit.map fun _ => 1).getD 0 := by
  rw [selectedPlace_virtual (index_lt hdescribes ht) path,
    ← map_treeBits hdescribes hwalks hpath ht hk.le]
  exact hdescribes.split k i t ((shape inputs).treeBits path i) hk ht

private theorem path_signPlace (hk : k < inputs.maxDepth) {feature : ℕ} {threshold : K}
    {left right : ThresholdTree K}
    (hsplit : t.descend ((turns x inputs.maxDepth t).take k) = .split feature threshold left right) :
    path (signPlace (shape inputs) (k * inputs.numTreesPadded + i)) =
      decide (threshold ≤ x feature) := by
  have hbit := treeBits_eq hdescribes hwalks hpath ht hk
  rw [getElem?_turns hk hsplit, Option.some.injEq] at hbit
  rw [signPlace_virtual hk (index_lt hdescribes ht), hbit]
  rfl

end Walks

private theorem suffixValue_digits {digits : ℕ → Bool} {k : ℕ} {d : ℤ}
    (hdigits : ∀ j < k, digits j = d.testBit j) (hd : 0 ≤ d) (hlt : d < 2 ^ k) :
    (suffixValue digits k : ℤ) = d := by
  obtain ⟨n, rfl⟩ := Int.eq_ofNat_of_zero_le hd
  have hn : n < 2 ^ k := by exact_mod_cast hlt
  have hcongr : suffixValue digits k = suffixValue n.testBit k := by
    refine Finset.sum_congr rfl ?_
    intro j hj
    rw [hdigits j (Finset.mem_range.mp hj)]
    rfl
  rw [hcongr, suffixValue_testBit hn]

/-- Along the walks the quantized numbers compare as the exact ones. -/
def Agrees (ts : List (ThresholdTree K)) (x : ℕ → K) : Prop :=
  ∀ t ∈ ts, ∀ feature threshold, Visits x t feature threshold →
    (threshold ≤ x feature ↔ quantize threshold ≤ quantize (x feature))

section Checks

variable (hdescribes : DescribesTrees inputs ts) (hwalks : DescribesWalks inputs ts x n)
  (hbelow : ∀ t ∈ ts, FeaturesBelow n t)
  (hrange : ∀ t ∈ ts, ∀ feature threshold, Visits x t feature threshold →
    InDecompRange (x feature) threshold)
  {path : ℕ → Bool} {digits : ℕ → ℕ → Bool}
  (hpath : ∀ i < (shape inputs).pbCount, path i = inputs.flatPathBits.getD i false)
  (hdigits : ∀ v < (shape inputs).vtPadded, ∀ j < (shape inputs).decompK,
    digits v j = inputs.decompBitsPadded.getD (v * (shape inputs).decompK + j) false)
  {i k : ℕ} {t : ThresholdTree K} (ht : ts[i]? = some t) (hk : k < inputs.maxDepth)
  {feature : ℕ} {threshold : K} {left right : ThresholdTree K}
  (hsplit : t.descend ((turns x inputs.maxDepth t).take k) = .split feature threshold left right)

include hdescribes hwalks hrange hdigits ht hk hsplit in
private theorem suffixValue_node :
    (suffixValue (digits (k * inputs.numTreesPadded + i)) DEFAULT_DECOMP_K : ℤ) =
      quantize (x feature) - quantize threshold + 2 ^ (DEFAULT_DECOMP_K - 1) := by
  have hmem := List.mem_of_getElem? ht
  have hvisits := (visits_iff (hdescribes.depth t hmem)).mpr ⟨k, hk, left, right, hsplit⟩
  obtain ⟨hnonneg, hlt⟩ := hrange t hmem feature threshold hvisits
  refine suffixValue_digits ?_ hnonneg hlt
  intro j hj
  have hv := virtual_lt hk (index_lt hdescribes ht)
  rw [hdigits _ hv j (by change j < inputs.decompK; rwa [hdescribes.decompK]),
    ← hwalks.digit i k t ht hk feature threshold left right hsplit j hj]
  change inputs.decompBitsPadded.getD (_ * inputs.decompK + j) false = _
  rw [hdescribes.decompK]

include hdescribes hwalks hrange hdigits ht hk hsplit in
private theorem top_digit :
    digits (k * inputs.numTreesPadded + i) (DEFAULT_DECOMP_K - 1) =
      decide (quantize threshold ≤ quantize (x feature)) := by
  have hvalue := suffixValue_node hdescribes hwalks hrange hdigits ht hk hsplit
  have htop : digits (k * inputs.numTreesPadded + i) (DEFAULT_DECOMP_K - 1) = true ↔
      2 ^ (DEFAULT_DECOMP_K - 1) ≤ suffixValue (digits (k * inputs.numTreesPadded + i))
        DEFAULT_DECOMP_K := suffixValue_top _ (DEFAULT_DECOMP_K - 1)
  rw [DEFAULT_DECOMP_K] at hvalue htop ⊢
  rw [Bool.eq_iff_iff, decide_eq_true_iff, htop]
  omega

/-! ### Checks at the virtual trees -/

include hdescribes hwalks hbelow hrange hpath hdigits ht hk hsplit in
/-- The digits spell the shifted difference that the circuit finds. -/
private theorem recon_node :
    ((suffixValue (digits (k * inputs.numTreesPadded + i)) (shape inputs).decompK : F) -
      ((inputValues inputs : CircuitValues F).features
          ((shape inputs).featureIndicesPadded.getD ((shape inputs).selectedPlace path
            (k * inputs.numTreesPadded + i)
            ((k * inputs.numTreesPadded + i) % (shape inputs).numTreesPadded)) 0) -
        (inputValues inputs).thresholds ((shape inputs).selectedPlace path
            (k * inputs.numTreesPadded + i)
            ((k * inputs.numTreesPadded + i) % (shape inputs).numTreesPadded)) +
          ((2 ^ ((shape inputs).decompK - 1) : ℕ) : F))) = 0 := by
  have hmem := List.mem_of_getElem? ht
  have hvisits := (visits_iff (hdescribes.depth t hmem)).mpr ⟨k, hk, left, right, hsplit⟩
  have hvalue := suffixValue_node hdescribes hwalks hrange hdigits ht hk hsplit
  obtain ⟨hthreshold, hindex, -⟩ := selected_node hdescribes hwalks hpath ht hk
  rw [hsplit] at hthreshold hindex
  have hfeature := hwalks.feature feature (feature_lt_of_visits hvisits (hbelow t hmem))
  change (_ : F) - (((inputs.featuresQuantized.getD (inputs.fiPadded.getD _ 0) 0 : ℤ) : F) -
    ((inputs.thresholdsPadded.getD _ 0 : ℤ) : F) + ((2 ^ (inputs.decompK - 1) : ℕ) : F)) = 0
  rw [hthreshold, hindex]
  change (_ : F) - (((inputs.featuresQuantized.getD feature 0 : ℤ) : F) -
    ((quantize threshold : ℤ) : F) + _) = 0
  rw [hfeature, hdescribes.decompK, sub_eq_zero]
  change (suffixValue _ inputs.decompK : F) = _
  rw [hdescribes.decompK, ← Int.cast_natCast, hvalue]
  push_cast
  rfl

include hdescribes hwalks hrange hpath hdigits in
/-- The checks of prepared inputs pass exactly when the comparisons agree along the walks and the
public sum is that of the leaves. -/
private theorem passes_iff [Nontrivial F] (hbelow : ∀ t ∈ ts, FeaturesBelow n t) {value : ℕ → K}
    (hvalue : ∀ (i : ℕ) (t : ThresholdTree K), ts[i]? = some t →
      t.descend (turns x inputs.maxDepth t) = .leaf (value i)) :
    Passes (shape inputs) (inputValues inputs : CircuitValues F) path digits ↔
      Agrees ts x ∧
        ((∑ i ∈ Finset.range ts.length, quantize (value i) : ℤ) : F) = (inputs.expectedSum : F) := by
  have hends : ∀ (i : ℕ) (t : ThresholdTree K), ts[i]? = some t →
      t.descend ((List.range inputs.maxDepth).map ((shape inputs).treeBits path i)) =
        .leaf (value i) := by
    intro i t ht
    rw [map_treeBits hdescribes hwalks hpath ht le_rfl, List.take_of_length_le length_turns.le]
    exact hvalue i t ht
  have hsum : ∑ t ∈ Finset.range inputs.numTreesPadded,
      (tableValues inputs.leafValuesPadded ((shape inputs).selectedPlace path t t) : F) =
        ((∑ i ∈ Finset.range ts.length, quantize (value i) : ℤ) : F) := by
    rw [sum_leafValues hdescribes hends, Int.cast_sum]
  have hK : (shape inputs).decompK - 1 = DEFAULT_DECOMP_K - 1 := by
    change inputs.decompK - 1 = _
    rw [hdescribes.decompK]
  constructor
  · intro h
    refine ⟨?_, hsum.symm.trans h.sum⟩
    intro t hmem feature threshold hvisits
    obtain ⟨i, ht⟩ := List.mem_iff_getElem?.mp hmem
    obtain ⟨k, hk, left, right, hsplit⟩ := (visits_iff (hdescribes.depth t hmem)).mp hvisits
    have hsign := h.sign _ (virtual_lt hk (index_lt hdescribes ht))
    have hreal := (selected_node hdescribes hwalks hpath ht hk).2.2
    rw [hsplit] at hreal
    change _ * ((inputs.isRealPadded.getD _ 0 : ℤ) : F) = 0 at hsign
    rw [hreal] at hsign
    change _ * ((1 : ℤ) : F) = 0 at hsign
    rw [Int.cast_one, mul_one, sub_eq_zero, hK,
      top_digit hdescribes hwalks hrange hdigits ht hk hsplit,
      path_signPlace hdescribes hwalks hpath ht hk hsplit] at hsign
    exact (decide_eq_decide.mp (bitValue_inj hsign)).symm
  · rintro ⟨hagrees, hexpected⟩
    -- a virtual tree is one of a comparison, or its entries are masked
    have hmasked : ∀ v < (shape inputs).vtPadded, ∀ c : F,
        (∀ k i t feature threshold left right, v = k * inputs.numTreesPadded + i →
          k < inputs.maxDepth → ts[i]? = some t →
          t.descend ((turns x inputs.maxDepth t).take k) =
            .split feature threshold left right → c = 0) →
        c * (inputValues inputs).isReal ((shape inputs).selectedPlace path v
          (v % (shape inputs).numTreesPadded)) = 0 := by
      intro v _ c hc
      change c * ((inputs.isRealPadded.getD _ 0 : ℤ) : F) = 0
      by_cases hnode : ∃ k < inputs.maxDepth, ∃ i < ts.length, k * inputs.numTreesPadded + i = v
      · obtain ⟨k, hk, i, hi, rfl⟩ := hnode
        obtain ⟨t, ht⟩ : ∃ t, ts[i]? = some t := ⟨_, List.getElem?_eq_getElem hi⟩
        cases hend : t.descend ((turns x inputs.maxDepth t).take k) with
        | leaf leafValue =>
          have hreal := (selected_node hdescribes hwalks hpath ht hk).2.2
          rw [hend] at hreal
          rw [hreal]
          change c * ((0 : ℤ) : F) = 0
          rw [Int.cast_zero, mul_zero]
        | split feature threshold left right =>
          rw [hc k i _ feature threshold left right rfl hk ht hend, zero_mul]
      · have hpadding : inputs.isRealPadded.getD ((shape inputs).selectedPlace path v
            (v % (shape inputs).numTreesPadded)) 0 = 0 :=
          hdescribes.padding v _ (prefixValue_lt _ _)
            fun k hk i hi heq => hnode ⟨k, hk, i, hi, heq⟩
        rw [hpadding, Int.cast_zero, mul_zero]
    refine ⟨?_, ?_, hsum.trans hexpected, ?_, ?_⟩
    · intro j hj
      rw [hpath j hj]
      rfl
    · intro v hv j hj
      rw [hdigits v hv j hj]
      rfl
    · intro v hv
      refine hmasked v hv _ ?_
      rintro k i t feature threshold left right rfl hk ht hsplit
      exact recon_node hdescribes hwalks hbelow hrange hpath hdigits ht hk hsplit
    · intro v hv
      refine hmasked v hv _ ?_
      rintro k i t feature threshold left right rfl hk ht hsplit
      have hmem := List.mem_of_getElem? ht
      have hvisits := (visits_iff (hdescribes.depth t hmem)).mpr ⟨k, hk, left, right, hsplit⟩
      rw [hK, top_digit hdescribes hwalks hrange hdigits ht hk hsplit,
        path_signPlace hdescribes hwalks hpath ht hk hsplit,
        decide_eq_decide.mpr (hagrees t hmem feature threshold hvisits).symm, sub_self]

end Checks

end Honest

/-! ## Proving an inference -/

section Inference

variable {K : Type} [Field K] [LinearOrder K] [FloorRing K] {model : XgboostModel K}
  {features : List K} {inputs : CircuitInputs}

def FitsI64 (d : ℤ) : Prop := -2 ^ 63 ≤ d ∧ d < 2 ^ 63

private theorem fitsI64_quantize (a : K) : FitsI64 (quantize a) := by
  rw [FitsI64, quantize, saturateI64]
  omega

theorem wrapI64_of_fitsI64 {d : ℤ} (h : FitsI64 d) : wrapI64 d = d := by
  obtain ⟨hlow, hhigh⟩ := h
  rw [wrapI64]
  omega

/-- A sum of quantized values has the residue of its wrapped value only if it is that value. -/
private theorem wrapI64_eq_iff {d : ℤ} (hd : |d| ≤ 2 ^ 32 * 2 ^ 63) :
    ((d : ℤ) : Fr) = (wrapI64 d : Fr) ↔ FitsI64 d := by
  rw [abs_le] at hd
  constructor
  · intro h
    have hsmall : d = wrapI64 d := by
      refine small_eq ?_ h
      rw [abs_lt, FR_MOD, wrapI64]
      omega
    rw [FitsI64, hsmall, wrapI64]
    omega
  · intro h
    rw [wrapI64_of_fitsI64 h]

private theorem abs_sum_le {value : ℕ → K} {count : ℕ} (hcount : count ≤ 2 ^ 32) :
    |∑ i ∈ Finset.range count, quantize (value i)| ≤ 2 ^ 32 * 2 ^ 63 :=
  calc |∑ i ∈ Finset.range count, quantize (value i)|
      ≤ ∑ i ∈ Finset.range count, |quantize (value i)| := Finset.abs_sum_le_sum_abs _ _
    _ ≤ ∑ _i ∈ Finset.range count, 2 ^ 63 := by
        refine Finset.sum_le_sum ?_
        intro i _
        obtain ⟨hlow, hhigh⟩ := fitsI64_quantize (value i)
        rw [abs_le]
        omega
    _ = count * 2 ^ 63 := by rw [Finset.sum_const, Finset.card_range, nsmul_eq_mul]
    _ ≤ 2 ^ 32 * 2 ^ 63 := by
        have : (count : ℤ) ≤ 2 ^ 32 := by exact_mod_cast hcount
        omega

/-- The outputs of prepared inputs are zero exactly when the comparisons agree along the walks and
the sum of the quantized leaves fits. -/
theorem allZero_iff_agrees {ts : List (ThresholdTree K)} {values : List K} (hmodel : InRange model)
    (hlength : features.length = model.numFeatures)
    (hts : List.Forall₂ (fun (tree : DecisionTree K) t => tree.Holds t) model.trees ts)
    (hinputs : prepareCircuitInputs model features = some inputs) (hdepth : 0 < inputs.maxDepth)
    (hfits : FitsU32 inputs)
    (hrange : ∀ t ∈ ts, ∀ feature threshold,
      Visits (fun f => features.getD f 0) t feature threshold →
      InDecompRange (features.getD feature 0) threshold)
    (hvalues : model.trees.mapM (fun tree => traverseTree tree features) = some values) :
    AllZero (shape inputs) (inputValues inputs : CircuitValues Fr) ↔
      Agrees ts (fun f => features.getD f 0) ∧ FitsI64 (values.map quantize).sum := by
  have hgates := fitsGates hinputs hmodel hdepth hfits
  have hdescribes := describesTrees_of_prepare hts hinputs
  obtain ⟨value, hvalue⟩ := exists_ends hdescribes.depth
    (fun _ t => turns (fun f => features.getD f 0) inputs.maxDepth t) (fun _ _ => length_turns)
  have hsum : (values.map quantize).sum = ∑ i ∈ Finset.range ts.length, quantize (value i) := by
    rw [Option.some.inj (hvalues.symm.trans
      (mapM_traverseTree hmodel hlength hts hdescribes.depth hvalue)), List.map_map]
    rfl
  obtain ⟨inputs', hinputs', hwalks⟩ := exists_prepare hmodel hlength hts
  obtain rfl : inputs = inputs' := Option.some.inj (hinputs.symm.trans hinputs')
  have hbelow : ∀ t ∈ ts, FeaturesBelow model.numFeatures t := by
    intro t ht
    obtain ⟨i, hi, rfl⟩ := List.getElem_of_mem ht
    rw [List.forall₂_iff_get] at hts
    exact featuresBelow (hts.2 i (by rw [hts.1]; exact hi) hi)
      (hmodel.features _ (List.get_mem _ _))
  have hcount : ts.length ≤ 2 ^ 32 :=
    calc ts.length ≤ inputs.numTreesPadded := by
          rw [hdescribes.trees]
          exact le_nextPowerOfTwo _
      _ ≤ (shape inputs).pbCount := Nat.le_mul_of_pos_right _ hdepth
      _ ≤ (shape inputs).totalChecks := by
          rw [CircuitShape.totalChecks]
          omega
      _ ≤ 2 ^ 32 := hfits.checks
  rw [hsum, ← wrapI64_eq_iff (abs_sum_le hcount), ← hwalks.expectedSum value hvalue,
    allZero_iff_passes hgates]
  constructor
  · rintro ⟨path, digits, hpasses⟩
    exact (passes_iff hdescribes hwalks hrange
      (fun i hi => (bitValue_inj (hpasses.pathBit i hi)).symm)
      (fun v hv j hj => (bitValue_inj (hpasses.decompBit v hv j hj)).symm) hbelow hvalue).mp hpasses
  · intro h
    exact ⟨_, _, (passes_iff hdescribes hwalks hrange (fun i _ => rfl) (fun v _ j _ => rfl) hbelow
      hvalue).mpr h⟩

/-- A comparison that the inference makes. -/
def Visited (model : XgboostModel K) (features : List K) (feature : ℕ) (threshold : K) : Prop :=
  ∃ tree ∈ model.trees, ∃ t, tree.Holds t ∧
    Visits (fun f => features.getD f 0) t feature threshold

omit [FloorRing K] in
private theorem visited_iff {ts : List (ThresholdTree K)}
    (hts : List.Forall₂ (fun (tree : DecisionTree K) t => tree.Holds t) model.trees ts)
    {feature : ℕ} {threshold : K} :
    Visited model features feature threshold ↔
      ∃ t ∈ ts, Visits (fun f => features.getD f 0) t feature threshold := by
  rw [List.forall₂_iff_get] at hts
  obtain ⟨hcount, hholds⟩ := hts
  constructor
  · rintro ⟨tree, htree, t, ht, hvisits⟩
    obtain ⟨i, hi, rfl⟩ := List.getElem_of_mem htree
    have hi' : i < ts.length := by rw [← hcount]; exact hi
    obtain rfl := ht.unique (hholds i hi hi')
    exact ⟨_, List.get_mem _ _, hvisits⟩
  · rintro ⟨t, ht, hvisits⟩
    obtain ⟨i, hi, rfl⟩ := List.getElem_of_mem ht
    have hi' : i < model.trees.length := by rw [hcount]; exact hi
    exact ⟨_, List.get_mem _ _, _, hholds i hi' hi, hvisits⟩

/-- Inputs are prepared for every inference whose shifted differences are in range. If the tables
fit the gates, all outputs are zero exactly when no visited threshold is equal to its feature after
quantization but greater before, and the sum of the quantized leaves fits. -/
theorem allZero_prepared_iff [IsStrictOrderedRing K] (model : XgboostModel K) (features : List K)
    (hmodel : InRange model) (hlength : features.length = model.numFeatures)
    (hrange : ∀ feature threshold, Visited model features feature threshold →
      InDecompRange (features.getD feature 0) threshold) :
    ∃ inputs, prepareCircuitInputs model features = some inputs ∧
      (0 < inputs.maxDepth → FitsU32 inputs →
        (AllZero (shape inputs) (inputValues inputs : CircuitValues Fr) ↔
          (∀ feature threshold, Visited model features feature threshold →
            ¬ (features.getD feature 0 < threshold ∧
              quantize (features.getD feature 0) = quantize threshold)) ∧
          ∃ values, model.trees.mapM (fun tree => traverseTree tree features) = some values ∧
            FitsI64 (values.map quantize).sum)) := by
  obtain ⟨ts, hts⟩ := hmodel.exists_trees
  obtain ⟨inputs, hinputs, -⟩ := exists_prepare hmodel hlength hts
  obtain ⟨values, hvalues⟩ := exists_leaves hmodel hlength
  refine ⟨inputs, hinputs, ?_⟩
  intro hdepth hfits
  rw [allZero_iff_agrees hmodel hlength hts hinputs hdepth hfits
    (fun t ht feature threshold hvisits =>
      hrange feature threshold ((visited_iff hts).mpr ⟨t, ht, hvisits⟩)) hvalues]
  refine and_congr ?_ ?_
  · constructor
    · intro hagrees feature threshold hvisited
      obtain ⟨t, ht, hvisits⟩ := (visited_iff hts).mp hvisited
      exact compare_quantize.mp (hagrees t ht feature threshold hvisits)
    · intro h t ht feature threshold hvisits
      exact compare_quantize.mpr (h feature threshold ((visited_iff hts).mpr ⟨t, ht, hvisits⟩))
  · constructor
    · intro hfit
      exact ⟨_, hvalues, hfit⟩
    · rintro ⟨values, hvalues', hfit⟩
      rwa [Option.some.inj (hvalues.symm.trans hvalues')]

end Inference

/-! ## One comparison -/

section Stump

/-- One tree with one split, and leaves 0 and 1. -/
def stumpModel (threshold : ℚ) : XgboostModel ℚ where
  numFeatures := 1
  numClasses := 2
  maxDepth := 1
  trees := [⟨[⟨0, threshold, 1, 2, 0, false, zero_range⟩, ⟨-1, 0, 0, 0, 0, true, leaf_range⟩,
    ⟨-1, 0, 0, 0, 1, true, leaf_range⟩]⟩]
  baseScore := 0

def stump (threshold : ℚ) : ThresholdTree ℚ := .split 0 threshold (.leaf 0) (.leaf 1)

variable {threshold : ℚ}

theorem stumpModel_trees : List.Forall₂ (fun (tree : DecisionTree ℚ) t => tree.Holds t)
    (stumpModel threshold).trees [stump threshold] :=
  .cons (.split rfl (.leaf rfl) (.leaf rfl)) .nil

theorem stumpModel_inRange : InRange (stumpModel threshold) where
  holds := by
    intro tree htree
    obtain rfl := List.mem_singleton.mp htree
    exact ⟨stump threshold, .split rfl (.leaf rfl) (.leaf rfl)⟩
  features := by
    intro tree htree node hnode hleaf
    obtain rfl := List.mem_singleton.mp htree
    simp only [List.mem_cons, List.not_mem_nil, or_false] at hnode
    rcases hnode with rfl | rfl | rfl
    · exact ⟨le_rfl, Int.one_pos⟩
    · cases hleaf
    · cases hleaf

private theorem visits_stump {x : ℕ → ℚ} {feature : ℕ} {threshold' : ℚ}
    (h : Visits x (stump threshold) feature threshold') : feature = 0 ∧ threshold' = threshold := by
  cases h with
  | here => exact ⟨rfl, rfl⟩
  | left _ hvisits => cases hvisits
  | right _ hvisits => cases hvisits

theorem visited_stumpModel {features : List ℚ} {feature : ℕ} {threshold' : ℚ} :
    Visited (stumpModel threshold) features feature threshold' ↔
      feature = 0 ∧ threshold' = threshold := by
  rw [visited_iff stumpModel_trees]
  constructor
  · rintro ⟨t, ht, hvisits⟩
    obtain rfl := List.mem_singleton.mp ht
    exact visits_stump hvisits
  · rintro ⟨rfl, rfl⟩
    exact ⟨_, List.mem_singleton_self _, .here⟩

theorem stumpModel_sizes {features : List ℚ} {inputs : CircuitInputs}
    (hinputs : prepareCircuitInputs (stumpModel threshold) features = some inputs) :
    0 < inputs.maxDepth ∧ FitsU32 inputs := by
  have hdescribes := describesTrees_of_prepare stumpModel_trees hinputs
  have hdepth : inputs.maxDepth = 1 := by
    have h := maxTreeDepth_of_prepare hinputs
    rw [maxTreeDepth_eq stumpModel_trees, Option.some.injEq] at h
    exact h.symm
  have htrees : inputs.numTreesPadded = 1 := hdescribes.trees.trans (nextPowerOfTwo_two_pow 0)
  have hvt : (shape inputs).vtPadded = 1 := by
    change nextPowerOfTwo (inputs.maxDepth * inputs.numTreesPadded) = 1
    rw [hdepth, htrees]
    exact nextPowerOfTwo_two_pow 0
  refine ⟨by rw [hdepth]; decide, ?_, ?_⟩
  · rw [hvt, hdepth]
    decide
  · change 1 + inputs.numTreesPadded * inputs.maxDepth + (shape inputs).vtPadded * inputs.decompK +
      (shape inputs).vtPadded + (shape inputs).vtPadded ≤ 2 ^ 32
    rw [hvt, htrees, hdepth, hdescribes.decompK]
    decide

theorem exists_stumpInputs (threshold feature : ℚ) :
    ∃ inputs, prepareCircuitInputs (stumpModel threshold) [feature] = some inputs := by
  obtain ⟨inputs, hinputs, -⟩ := @exists_prepare ℚ _ _ _ (stumpModel threshold) _ [feature]
    stumpModel_inRange rfl stumpModel_trees
  exact ⟨inputs, hinputs⟩

theorem stump_allZero_iff {feature : ℚ} {inputs : CircuitInputs}
    (hinputs : prepareCircuitInputs (stumpModel threshold) [feature] = some inputs)
    (hrange : InDecompRange feature threshold) :
    AllZero (shape inputs) (inputValues inputs : CircuitValues Fr) ↔
      (threshold ≤ feature ↔ quantize threshold ≤ quantize feature) := by
  obtain ⟨hdepth, hfits⟩ := stumpModel_sizes hinputs
  obtain ⟨values, hvalues⟩ := @exists_leaves ℚ _ _ (stumpModel threshold) [feature]
    stumpModel_inRange rfl
  obtain ⟨value, rfl⟩ := List.length_eq_one_iff.mp (mapM_eq_some.mp hvalues).length_eq.symm
  rw [allZero_iff_agrees stumpModel_inRange rfl stumpModel_trees hinputs hdepth hfits (by
    intro t ht feature' threshold' hvisits
    obtain rfl := List.mem_singleton.mp ht
    obtain ⟨rfl, rfl⟩ := visits_stump hvisits
    exact hrange) hvalues]
  constructor
  · rintro ⟨hagrees, -⟩
    exact hagrees _ (List.mem_singleton_self _) 0 _ .here
  · intro h
    refine ⟨?_, ?_⟩
    · intro t ht feature' threshold' hvisits
      obtain rfl := List.mem_singleton.mp ht
      obtain ⟨rfl, rfl⟩ := visits_stump hvisits
      exact h
    · rw [List.map_singleton, List.sum_singleton]
      exact fitsI64_quantize value

/-- A feature beyond the threshold, and a proof of the inference. -/
theorem allZero_stumpModel : ∃ inputs, prepareCircuitInputs (stumpModel 1) [2] = some inputs ∧
    AllZero (shape inputs) (inputValues inputs : CircuitValues Fr) := by
  obtain ⟨inputs, hinputs, hiff⟩ := allZero_prepared_iff (stumpModel 1) [2] stumpModel_inRange rfl
    (by
      intro feature threshold hvisited
      obtain ⟨rfl, rfl⟩ := visited_stumpModel.mp hvisited
      exact ⟨by decide +kernel, by decide +kernel⟩)
  obtain ⟨hdepth, hfits⟩ := stumpModel_sizes hinputs
  refine ⟨inputs, hinputs, (hiff hdepth hfits).mpr ⟨?_, [1], by decide +kernel, ?_⟩⟩
  · intro feature threshold hvisited
    obtain ⟨rfl, rfl⟩ := visited_stumpModel.mp hvisited
    decide +kernel
  · exact ⟨by decide +kernel, by decide +kernel⟩

/-- A threshold that quantization makes zero: the inputs are prepared, and some output is not
zero. -/
theorem not_allZero_stumpModel :
    InRange (stumpModel (1 / 2 ^ 20)) ∧
    (∀ feature threshold, Visited (stumpModel (1 / 2 ^ 20)) [0] feature threshold →
      InDecompRange (([0] : List ℚ).getD feature 0) threshold) ∧
    ∃ inputs, prepareCircuitInputs (stumpModel (1 / 2 ^ 20)) [0] = some inputs ∧
      0 < inputs.maxDepth ∧ ¬ AllZero (shape inputs) (inputValues inputs : CircuitValues Fr) := by
  have hinRange : InDecompRange (0 : ℚ) (1 / 2 ^ 20) := ⟨by decide +kernel, by decide +kernel⟩
  refine ⟨stumpModel_inRange, ?_, ?_⟩
  · intro feature threshold hvisited
    obtain ⟨rfl, rfl⟩ := visited_stumpModel.mp hvisited
    exact hinRange
  · obtain ⟨inputs, hinputs⟩ := exists_stumpInputs (1 / 2 ^ 20) 0
    refine ⟨inputs, hinputs, (stumpModel_sizes hinputs).1, ?_⟩
    rw [stump_allZero_iff hinputs hinRange]
    decide +kernel

end Stump

end WorldZk.CircuitCompleteness
