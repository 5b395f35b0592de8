import WorldZk.CircuitCompleteness
import Mathlib.Tactic.LinearCombination

/-!
# Soundness of the inference circuit

With the public tables of a model, inputs that make all outputs zero describe an inference: for each
tree a path on which the committed features compare with the thresholds as the path turns, and a
public sum of the leaves at the ends of these paths. Indices of gates are `u32`, and for tables
beyond that size the outputs do not see all comparisons.
-/

namespace WorldZk.CircuitSoundness

open Bn254Moduli CheckedRuns CircuitCompleteness CircuitPreparation DecisionTrees GateWirings
open InferenceCircuit InferenceWitness TreeEnsemble

/-! ## Committed inputs -/

section Inputs

variable {F : Type} [CommRing F]

/-- The inputs that the prover commits to. -/
structure Committed (F : Type) where
  pathBits : ℕ → F
  features : ℕ → F
  decompBits : ℕ → F

/-- Committed inputs beside the public tables of a model. -/
def withTables (inputs : CircuitInputs) (committed : Committed F) (expectedSum : F) :
    CircuitValues F where
  pathBits := committed.pathBits
  features := committed.features
  decompBits := committed.decompBits
  leafValues := tableValues inputs.leafValuesPadded
  expectedSum := expectedSum
  thresholds := tableValues inputs.thresholdsPadded
  isReal := tableValues inputs.isRealPadded

end Inputs

section Soundness

variable {K : Type} [Field K] [LinearOrder K] [FloorRing K] {model : XgboostModel K}

variable {F : Type} [CommRing F]

/-- A turn at a node: the committed feature is the quantized threshold plus a small difference, and
the turn is to the right exactly when the difference is not negative. -/
def Follows (features : ℕ → F) (feature : ℕ) (threshold : K) (right : Bool) : Prop :=
  ∃ d : ℤ, -2 ^ (DEFAULT_DECOMP_K - 1) ≤ d ∧ d < 2 ^ (DEFAULT_DECOMP_K - 1) ∧
    features feature = ((quantize threshold : ℤ) : F) + (d : F) ∧ (right = true ↔ 0 ≤ d)

/-- The features lead to leaves whose quantized values have the given sum. -/
def InfersSum (model : XgboostModel K) (features : ℕ → F) (expectedSum : F) : Prop :=
  ∃ leaves : List K,
    List.Forall₂ (fun (tree : DecisionTree K) leaf =>
      ∃ t, tree.Holds t ∧ t.Reaches (Follows features) leaf) model.trees leaves ∧
    expectedSum = (leaves.map fun leaf => ((quantize leaf : ℤ) : F)).sum

/-- Passing checks make the comparison at every node that the path bits lead to. -/
private theorem follows_of_passes [Nontrivial F] {inputs : CircuitInputs}
    {ts : List (ThresholdTree K)} (hdescribes : DescribesTrees inputs ts)
    {committed : Committed F} {expectedSum : F} {path : ℕ → Bool} {digits : ℕ → ℕ → Bool}
    (hpasses : Passes (shape inputs) (withTables inputs committed expectedSum) path digits)
    {k i : ℕ} {t : ThresholdTree K} (hk : k < inputs.maxDepth) (hi : ts[i]? = some t) {feature : ℕ}
    {threshold : K} {left right : ThresholdTree K}
    (hsplit : t.descend ((List.range k).map ((shape inputs).treeBits path i)) =
      .split feature threshold left right) :
    Follows committed.features feature threshold ((shape inputs).treeBits path i k) := by
  have hlt : i < inputs.numTreesPadded := by
    rw [hdescribes.trees]
    exact (List.getElem?_eq_some_iff.mp hi).1.trans_le (le_nextPowerOfTwo _)
  have hv := virtual_lt hk hlt
  obtain ⟨hthreshold, hfeature, hreal⟩ := hdescribes.split k i t ((shape inputs).treeBits path i) hk hi
  rw [hsplit] at hthreshold hfeature hreal
  have hplace := selectedPlace_virtual (k := k) hlt path
  have hsignPlace := signPlace_virtual hk hlt
  have hK : (shape inputs).decompK = 17 + 1 := hdescribes.decompK
  have hreal : (withTables inputs committed expectedSum).isReal
      ((k * inputs.numTreesPadded + i) * 2 ^ inputs.maxDepth +
        prefixValue ((shape inputs).treeBits path i) inputs.maxDepth) = 1 := by
    change ((inputs.isRealPadded.getD _ 0 : ℤ) : F) = 1
    rw [hreal]
    exact Int.cast_one
  have hthreshold : (withTables inputs committed expectedSum).thresholds
      ((k * inputs.numTreesPadded + i) * 2 ^ inputs.maxDepth +
        prefixValue ((shape inputs).treeBits path i) inputs.maxDepth) =
      ((quantize threshold : ℤ) : F) := by
    change ((inputs.thresholdsPadded.getD _ 0 : ℤ) : F) = _
    rw [hthreshold]
    rfl
  have hrecon := hpasses.recon _ hv
  rw [hplace, hreal, hthreshold, mul_one, hK,
    show (shape inputs).featureIndicesPadded.getD _ 0 = feature from hfeature] at hrecon
  have hsign := hpasses.sign _ hv
  rw [hplace, hreal, mul_one, hK, hsignPlace] at hsign
  -- the digits spell the shifted difference, and the top one is the path bit
  have htop : digits (k * inputs.numTreesPadded + i) 17 = (shape inputs).treeBits path i k := by
    exact bitValue_inj (sub_eq_zero.mp hsign)
  have hrange := suffixValue_lt (digits (k * inputs.numTreesPadded + i)) (17 + 1)
  have hhalf := suffixValue_top (digits (k * inputs.numTreesPadded + i)) 17
  rw [htop] at hhalf
  refine ⟨(suffixValue (digits (k * inputs.numTreesPadded + i)) (17 + 1) : ℤ) - 2 ^ 17, ?_, ?_, ?_, ?_⟩
  · rw [DEFAULT_DECOMP_K]
    omega
  · rw [DEFAULT_DECOMP_K]
    omega
  · change (_ : F) - (committed.features feature - _ + _) = 0 at hrecon
    push_cast at hrecon ⊢
    linear_combination -hrecon
  · rw [hhalf]
    omega

/-- If all outputs are zero, the committed features lead to leaves with the expected sum, provided
that the tables fit the indices of the gates. -/
theorem infersSum_of_allZero {features₀ : List K} {inputs : CircuitInputs} (hmodel : InRange model)
    (hinputs : prepareCircuitInputs model features₀ = some inputs) (hdepth : 0 < inputs.maxDepth)
    (hfits : FitsU32 inputs) (committed : Committed Fr) (expectedSum : Fr)
    (hzero : AllZero (shape inputs) (withTables inputs committed expectedSum)) :
    InfersSum model committed.features expectedSum := by
  have hgates := fitsGates hinputs hmodel hdepth hfits
  obtain ⟨ts, hts⟩ := hmodel.exists_trees
  have hdescribes := describesTrees_of_prepare hts hinputs
  obtain ⟨path, digits, hpasses⟩ := (allZero_iff_passes hgates).mp hzero
  obtain ⟨value, hvalue⟩ := exists_ends hdescribes.depth
    (fun i _ => (List.range inputs.maxDepth).map ((shape inputs).treeBits path i))
    (fun _ _ => by rw [List.length_map, List.length_range])
  refine ⟨(List.range ts.length).map value, ?_, ?_⟩
  · rw [List.forall₂_iff_get] at hts ⊢
    refine ⟨by rw [hts.1, List.length_map, List.length_range], ?_⟩
    intro i hi hi'
    have hi'' : i < ts.length := by rw [← hts.1]; exact hi
    have hget := List.getElem?_eq_getElem hi''
    have hend := hvalue i _ hget
    have hleaf : ((List.range ts.length).map value).get ⟨i, hi'⟩ = value i := by
      rw [List.get_eq_getElem, List.getElem_map, List.getElem_range]
    refine ⟨_, hts.2 i hi hi'', ?_⟩
    rw [hleaf]
    refine ThresholdTree.reaches_of_descend hend ?_
    intro k feature threshold left right bit hbit hsplit
    have hk : k < inputs.maxDepth := by
      have := (List.getElem?_eq_some_iff.mp hbit).1
      rwa [List.length_map, List.length_range] at this
    rw [List.getElem?_map, List.getElem?_range hk, Option.map_some, Option.some.injEq] at hbit
    rw [← List.map_take, List.take_range, min_eq_left hk.le] at hsplit
    rw [← hbit]
    exact follows_of_passes hdescribes hpasses hk hget hsplit
  · have hlist : (((List.range ts.length).map value).map fun leaf => ((quantize leaf : ℤ) : Fr)).sum =
        ∑ i ∈ Finset.range ts.length, ((quantize (value i) : ℤ) : Fr) := by
      rw [List.map_map]
      rfl
    rw [hlist, ← sum_leafValues hdescribes hvalue]
    exact hpasses.sum.symm

end Soundness

/-- The features of an inference with one comparison lead to its right leaf. -/
theorem infersSum_stumpModel : ∃ inputs, prepareCircuitInputs (stumpModel 1) [2] = some inputs ∧
    InfersSum (stumpModel 1) (tableValues inputs.featuresQuantized) (inputs.expectedSum : Fr) := by
  obtain ⟨inputs, hinputs⟩ := exists_stumpInputs 1 2
  obtain ⟨hdepth, hfits⟩ := stumpModel_sizes hinputs
  have hzero := (stump_allZero_iff hinputs ⟨by decide +kernel, by decide +kernel⟩).mpr
    (by decide +kernel)
  exact ⟨inputs, hinputs, infersSum_of_allZero stumpModel_inRange hinputs hdepth hfits
    ⟨boolValues inputs.flatPathBits, tableValues inputs.featuresQuantized,
      boolValues inputs.decompBitsPadded⟩ inputs.expectedSum hzero⟩

/-! ## A tree of depth 32

Its tables have `32 * 2 ^ 32` entries for the virtual trees, and the gates read the first `2 ^ 32`
of them, those of the root. The second node is never compared.
-/

section Comb

/-- A node whose left child is a leaf; at the second one both the threshold and that leaf are 1. -/
def combNode (i : ℕ) : TreeNode ℚ :=
  ⟨0, if i = 1 then 1 else 0, if i = 1 then 33 else 32, i + 1, 0, false, zero_range⟩

def combLeaf (value : ℚ) : TreeNode ℚ := ⟨-1, 0, 0, 0, value, true, leaf_range⟩

def combTable : DecisionTree ℚ := ⟨(List.range 32).map combNode ++ [combLeaf 0, combLeaf 1]⟩

def combModel : XgboostModel ℚ where
  numFeatures := 1
  numClasses := 2
  maxDepth := 32
  trees := [combTable]
  baseScore := 0

/-- The tree in the table, from a level on. -/
def comb : ℕ → ℕ → ThresholdTree ℚ
  | 0, _ => .leaf 0
  | r + 1, i =>
    .split 0 (if i = 1 then 1 else 0) (.leaf (if i = 1 then 1 else 0)) (comb r (i + 1))

private theorem combTable_view {i : ℕ} (hi : i < 32) : combTable.view i =
    some (.split 0 (if i = 1 then 1 else 0) (if i = 1 then 33 else 32) (i + 1)) := by
  have hnode : combTable.nodes[i]? = some (combNode i) := by
    rw [combTable, List.getElem?_append_left (by rwa [List.length_map, List.length_range]),
      List.getElem?_map, List.getElem?_range hi, Option.map_some]
  rw [DecisionTree.view, hnode]
  rfl

private theorem combTable_unfolds {r i : ℕ} (h : i + r = 32) :
    Unfolds combTable.view i (comb r i) := by
  induction r generalizing i with
  | zero =>
    obtain rfl : i = 32 := by omega
    exact .leaf rfl
  | succ r ih =>
    refine .split (combTable_view (by omega)) ?_ (ih (by omega))
    split
    · exact .leaf rfl
    · exact .leaf rfl

private theorem depth_comb (r i : ℕ) : (comb r i).depth = r := by
  induction r generalizing i with
  | zero => rfl
  | succ r ih =>
    rw [comb, ThresholdTree.depth, ThresholdTree.depth, ih]
    omega

private theorem descend_comb (r i : ℕ) :
    (comb r i).descend ((List.range r).map fun _ => true) = .leaf 0 := by
  induction r generalizing i with
  | zero => rfl
  | succ r ih =>
    rw [List.range_succ_eq_map, List.map_cons, List.map_map]
    exact ih (i + 1)

theorem combModel_inRange : InRange combModel where
  holds := by
    intro tree htree
    obtain rfl := List.mem_singleton.mp htree
    exact ⟨comb 32 0, combTable_unfolds rfl⟩
  features := by
    intro tree htree node hnode hleaf
    obtain rfl := List.mem_singleton.mp htree
    rcases List.mem_append.mp hnode with hnode | hnode
    · obtain ⟨i, -, rfl⟩ := List.mem_map.mp hnode
      exact ⟨le_rfl, Int.one_pos⟩
    · simp only [List.mem_cons, List.not_mem_nil, or_false] at hnode
      rcases hnode with rfl | rfl <;> cases hleaf

private theorem combModel_trees :
    List.Forall₂ (fun (tree : DecisionTree ℚ) t => tree.Holds t) combModel.trees [comb 32 0] :=
  .cons (combTable_unfolds rfl) .nil

/-- All turns to the right, a feature of zero, and a difference of zero everywhere. -/
def combCommitted : Committed Fr where
  pathBits := fun _ => 1
  features := fun _ => 0
  decompBits := fun i => if i % 18 = 17 then 1 else 0

/-- The shape that the model's inputs have. -/
private structure CombInputs (inputs : CircuitInputs) : Prop where
  describes : DescribesTrees inputs [comb 32 0]
  maxDepth : inputs.maxDepth = 32
  trees : inputs.numTreesPadded = 1
  vtPadded : (shape inputs).vtPadded = 32
  decompK : inputs.decompK = 18

private theorem exists_combInputs :
    ∃ inputs, prepareCircuitInputs combModel [0] = some inputs ∧ CombInputs inputs := by
  obtain ⟨inputs, hinputs, -⟩ := @InferenceWitness.exists_prepare ℚ _ _ _ combModel _ [0]
    combModel_inRange rfl combModel_trees
  have hdescribes := describesTrees_of_prepare combModel_trees hinputs
  have hdepth : inputs.maxDepth = 32 := by
    have h := maxTreeDepth_of_prepare hinputs
    rw [maxTreeDepth_eq combModel_trees, Option.some.injEq, List.map_singleton, depth_comb] at h
    exact h.symm
  have htrees : inputs.numTreesPadded = 1 := hdescribes.trees.trans (nextPowerOfTwo_two_pow 0)
  refine ⟨inputs, hinputs, hdescribes, hdepth, htrees, ?_, hdescribes.decompK⟩
  change nextPowerOfTwo (inputs.maxDepth * inputs.numTreesPadded) = 2 ^ 5
  rw [hdepth, htrees]
  exact nextPowerOfTwo_two_pow 5

section CombValues

variable {inputs : CircuitInputs} (h : CombInputs inputs)

include h

private theorem comb_sumResidual :
    sumResidual (shape inputs) (withTables inputs combCommitted 0) 0 = 0 := by
  have hlog : trailingZeros (shape inputs).numTreesPadded = 0 := by
    change trailingZeros inputs.numTreesPadded = 0
    rw [h.trees, trailingZeros, Nat.log_one_right]
  have hleaf := h.describes.leaf 0 (comb 32 0) (fun _ => true) 0 rfl (by
    rw [h.maxDepth]
    exact descend_comb 32 0)
  have hselected : leafSelected (shape inputs) (withTables inputs combCommitted 0) 0 = 0 := by
    rw [leafSelected]
    change foldTableWithBits _ _ inputs.numTreesPadded inputs.maxDepth _ 0 = 0
    rw [h.trees, ← Nat.pow_zero 2, foldTableWithBits_eq (b := fun _ _ => true)
      (by rw [h.maxDepth]; decide) (fun _ _ _ _ => rfl) Nat.one_pos]
    refine (congrArg (Int.cast : ℤ → Fr) hleaf).trans ?_
    rw [show quantize (0 : ℚ) = 0 by decide +kernel, Int.cast_zero]
  rw [sumResidual, hlog, aggregateSum_eq (by decide), Nat.pow_zero, Finset.sum_range_one, hselected]
  exact sub_zero 0

private theorem comb_thresholds : ∀ i < 2 ^ 32,
    (withTables inputs combCommitted 0).thresholds i = 0 := by
  intro i hi
  obtain ⟨hthreshold, -⟩ := h.describes.split 0 0 (comb 32 0)
    (fun b => i.testBit (inputs.maxDepth - 1 - b)) (by rw [h.maxDepth]; decide) rfl
  rw [Nat.zero_mul, Nat.zero_add, Nat.zero_mul, Nat.zero_add,
    prefixValue_testBit (by rwa [h.maxDepth])] at hthreshold
  refine (congrArg (Int.cast : ℤ → Fr) hthreshold).trans ?_
  change ((quantize (0 : ℚ) : ℤ) : Fr) = 0
  rw [show quantize (0 : ℚ) = 0 by decide +kernel, Int.cast_zero]

private theorem comb_bitRouted {i v : ℕ} (hi : i < 18) (hv : v < 32) :
    bitRouted (shape inputs) (withTables inputs combCommitted 0) i v = if i = 17 then 1 else 0 := by
  have hnv : (shape inputs).vtPadded ≤ 2 ^ (shape inputs).vtNv :=
    (two_pow_trailingZeros _).ge
  rw [bitRouted, routed_eq (by rw [h.vtPadded]; decide) hnv _ (by rwa [h.vtPadded])]
  change (if asU32 (v * inputs.decompK + i) % 18 = 17 then (1 : Fr) else 0) = _
  rw [h.decompK, asU32_of_lt (by omega)]
  congr 1
  rw [eq_iff_iff]
  omega

private theorem comb_maskedRecon {v : ℕ} (hv : v < 32) :
    maskedRecon (shape inputs) (withTables inputs combCommitted 0) v = 0 := by
  have hdepth : 0 < (shape inputs).maxDepth := by
    change 0 < inputs.maxDepth
    rw [h.maxDepth]
    decide
  have hweighted : weightedSum (shape inputs) (withTables inputs combCommitted 0) v =
      ((2 ^ 17 : ℕ) : Fr) := by
    rw [weightedSum]
    change (List.range inputs.decompK).foldl _ 0 = _
    rw [h.decompK, show 18 = 17 + 1 from rfl, List.range_succ, List.foldl_append, List.foldl_cons,
      List.foldl_nil, comb_bitRouted h (by decide) hv]
    have hlower : ∀ n ≤ 17, (List.range n).foldl (fun acc i => acc +
        bitRouted (shape inputs) (withTables inputs combCommitted 0) i v * ((2 ^ i : ℕ) : Fr)) 0 =
          0 := by
      intro n
      induction n with
      | zero => exact fun _ => rfl
      | succ n ih =>
        intro hn
        rw [List.range_succ, List.foldl_append, ih (by omega), List.foldl_cons, List.foldl_nil,
          comb_bitRouted h (by omega) hv, if_neg (by omega), zero_mul, add_zero]
    rw [hlower 17 le_rfl, zero_add, if_pos rfl, one_mul]
  have hfeature : selected (shape inputs) (withTables inputs combCommitted 0)
      (featureTable (shape inputs) (withTables inputs combCommitted 0)) v = 0 :=
    foldTableWithBits_eq_zero (fun i _ => identityGate_of_forall_eq_zero fun _ _ => rfl) hdepth v
  have hthreshold : selected (shape inputs) (withTables inputs combCommitted 0)
      (withTables inputs combCommitted 0).thresholds v = 0 :=
    foldTableWithBits_eq_zero (comb_thresholds h) hdepth v
  have hK : (shape inputs).decompK = 18 := h.decompK
  rw [maskedRecon, shiftedDiff, hweighted, hfeature, hthreshold, hK, sub_zero, zero_add]
  change (((2 ^ 17 : ℕ) : Fr) - ((2 ^ 17 : ℕ) : Fr)) * _ = 0
  rw [sub_self, zero_mul]

private theorem comb_maskedSign {v : ℕ} (hv : v < 32) :
    maskedSign (shape inputs) (withTables inputs combCommitted 0) v = 0 := by
  have hnv : (shape inputs).vtPadded ≤ 2 ^ (shape inputs).vtNv :=
    (two_pow_trailingZeros _).ge
  have hK : (shape inputs).decompK - 1 = 17 := by
    rw [show (shape inputs).decompK = 18 from h.decompK]
  have hsign : signPathBits (shape inputs) (withTables inputs combCommitted 0) v = 1 := by
    rw [signPathBits, routed_eq (by rw [h.vtPadded]; decide) hnv _ (by rwa [h.vtPadded])]
    rfl
  rw [maskedSign, hK, comb_bitRouted h (by decide) hv, if_pos rfl, hsign, sub_self, zero_mul]

private theorem comb_allZero :
    AllZero (shape inputs) (withTables inputs combCommitted 0) := by
  have hroute : ∀ (offset count : ℕ) (checks : ℕ → Fr) (z : ℕ),
      (∀ i < count, checks (asU32 i) = 0) → outputRoute (shape inputs) offset count checks z = 0 := by
    intro offset count checks z hchecks
    refine identityGate_of_forall_eq_zero ?_
    intro g hg
    obtain ⟨i, hi, rfl⟩ := List.mem_map.mp hg
    exact hchecks i (List.mem_range.mp hi)
  intro z _
  rw [combined, hroute, hroute, hroute, hroute, hroute]
  · simp
  · intro i hi
    rw [h.vtPadded] at hi
    rw [asU32_of_lt (by omega)]
    exact comb_maskedSign h hi
  · intro i hi
    rw [h.vtPadded] at hi
    rw [asU32_of_lt (by omega)]
    exact comb_maskedRecon h hi
  · intro i _
    change (if asU32 i % 18 = 17 then (1 : Fr) else 0) * (if asU32 i % 18 = 17 then 1 else 0) -
      (if asU32 i % 18 = 17 then 1 else 0) = 0
    split <;> simp
  · intro i _
    exact sub_self 1
  · intro i hi
    obtain rfl : i = 0 := by omega
    exact comb_sumResidual h

end CombValues

/-- Where the feature is zero, only one turn is possible at a threshold. -/
private theorem follows_zero {threshold : ℚ} {right : Bool} {q : ℤ} (hq : quantize threshold = q)
    (hrange : -2 ^ 17 < q ∧ q ≤ 2 ^ 17) (h : Follows combCommitted.features 0 threshold right) :
    right = true ↔ q ≤ 0 := by
  obtain ⟨d, hlow, hhigh, hd, hturn⟩ := h
  rw [DEFAULT_DECOMP_K] at hlow hhigh
  have hsmall : d = -q := by
    refine small_eq ?_ ?_
    · rw [abs_lt, FR_MOD]
      constructor <;> push_cast <;> omega
    · rw [hq] at hd
      change (0 : Fr) = (q : Fr) + (d : Fr) at hd
      push_cast
      linear_combination -hd
  rw [hturn, hsmall]
  omega

private theorem not_infersSum_comb : ¬ InfersSum combModel combCommitted.features (0 : Fr) := by
  rintro ⟨leaves, hforall, hsum⟩
  cases hforall with
  | cons hfirst hrest =>
    cases hrest
    obtain ⟨t, ht, hreaches⟩ := hfirst
    obtain rfl := ht.unique (combTable_unfolds (r := 32) (i := 0) rfl)
    have hzero : quantize (0 : ℚ) = 0 := by decide +kernel
    have hone : quantize (1 : ℚ) = 2 ^ 16 := by decide +kernel
    -- right at the root, left at the second node
    cases hreaches with
    | left hfollows =>
      have := (follows_zero hzero (by decide) hfollows).mpr le_rfl
      cases this
    | right _ hreaches =>
      cases hreaches with
      | right hfollows =>
        have := (follows_zero hone (by decide) hfollows).mp rfl
        exact absurd this (by decide)
      | left _ hreaches =>
        cases hreaches
        rw [List.map_singleton, List.sum_singleton, show quantize (if 0 + 1 = 1 then (1 : ℚ) else 0) =
          2 ^ 16 from hone, ← Int.cast_zero] at hsum
        have := small_eq (by rw [FR_MOD]; decide) hsum
        exact absurd this (by decide)

/-- All outputs are zero although the committed feature leads to another leaf. -/
theorem not_infersSum_of_allZero :
    InRange combModel ∧ ∃ inputs, prepareCircuitInputs combModel [0] = some inputs ∧
      inputs.maxDepth = 32 ∧ AllZero (shape inputs) (withTables inputs combCommitted 0) ∧
      ¬ InfersSum combModel combCommitted.features (0 : Fr) := by
  obtain ⟨inputs, hinputs, h⟩ := exists_combInputs
  exact ⟨combModel_inRange, inputs, hinputs, h.maxDepth, comb_allZero h, not_infersSum_comb⟩

end Comb

end WorldZk.CircuitSoundness
