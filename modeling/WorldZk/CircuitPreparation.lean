import WorldZk.CheckedRuns
import WorldZk.InferenceCircuit
import WorldZk.TreeEnsemble
import Mathlib.Data.Int.Bitwise

/-!
# Inputs of the inference circuit

`prepare_circuit_inputs` and the functions of `model.rs` behind it. The public tables describe the
trees: the leaves that paths lead to and the comparisons on the way. The committed inputs describe
one inference: its path bits, its features and the digits of its comparisons.
-/

namespace WorldZk.CircuitPreparation

open CheckedRuns DecisionTrees GateWirings InferenceCircuit TreeEnsemble

/-- The arithmetic of `i64` without overflow checks. -/
def wrapI64 (n : ℤ) : ℤ := (n + 2 ^ 63) % 2 ^ 64 - 2 ^ 63

def DEFAULT_DECOMP_K : ℕ := 18

section Functions

variable {K : Type} [Field K] [LinearOrder K] [FloorRing K]

/-- The largest depth of a tree. -/
def maxTreeDepth (model : XgboostModel K) : Option ℕ := do
  let depths ← model.trees.mapM treeDepth
  pure (depths.foldl max 0)

/-- `fill_leaves`: the entries below a node, `remaining` levels above the last one. -/
def fillLeaves (nodes : List (TreeNode K)) : ℕ → ℕ → Option (List ℤ)
  | 0, idx => do
    let node ← nodes[idx]?
    pure [if node.isLeaf then quantize node.leafValue else 0]
  | remaining + 1, idx => do
    let node ← nodes[idx]?
    if node.isLeaf then pure (List.replicate (2 ^ (remaining + 1)) (quantize node.leafValue))
    else
      let left ← fillLeaves nodes remaining node.leftChild
      let right ← fillLeaves nodes remaining node.rightChild
      pure (left ++ right)

def treeLeafValues (targetDepth : ℕ) (tree : DecisionTree K) : Option (List ℤ) :=
  fillLeaves tree.nodes targetDepth 0

/-- The loop of `compute_path_bits` for one tree; behind a leaf the bits are `false`. -/
def pathBitsFrom (nodes : List (TreeNode K)) (features : List K) : ℕ → ℕ → Option (List Bool)
  | 0, _ => some []
  | remaining + 1, idx => do
    let node ← nodes[idx]?
    if node.isLeaf then pure (List.replicate (remaining + 1) false)
    else
      let featureVal ← features[asUsize node.featureIndex]?
      let goesRight := decide (node.threshold ≤ featureVal)
      let rest ←
        pathBitsFrom nodes features remaining (if goesRight then node.rightChild else node.leftChild)
      pure (goesRight :: rest)

/-- `compute_path_bits`, to a given depth. -/
def computePathBits (model : XgboostModel K) (features : List K) (maxDepth : ℕ) :
    Option (List (List Bool)) :=
  model.trees.mapM fun tree => pathBitsFrom tree.nodes features maxDepth 0

/-- `compute_leaf_sum`. -/
def computeLeafSum (model : XgboostModel K) (features : List K) : Option ℤ :=
  model.trees.foldlM (fun total tree => do
    let value ← traverseTree tree features
    pure (wrapI64 (total + quantize value))) (quantize model.baseScore)

/-- The node that `compute_comparison_tables` finds along the bits of `j`, unless there is a leaf
on the way; `b` bits are behind, `remaining` ahead. -/
def comparisonNode (nodes : List (TreeNode K)) (maxDepth j : ℕ) :
    ℕ → ℕ → ℕ → Option (Option (TreeNode K))
  | 0, _, idx => do
    let node ← nodes[idx]?
    pure (if node.isLeaf then none else some node)
  | remaining + 1, b, idx => do
    let node ← nodes[idx]?
    if node.isLeaf then pure none
    else
      comparisonNode nodes maxDepth j remaining (b + 1)
        (if j.testBit (maxDepth - 1 - b) then node.rightChild else node.leftChild)

structure ComparisonTables where
  thresholds : List ℤ
  featureIndices : List ℕ
  isReal : List ℤ

/-- `compute_comparison_tables`: the entries in the order of the levels, trees and positions. -/
def computeComparisonTables (model : XgboostModel K) (maxDepth : ℕ) : Option ComparisonTables := do
  let found ← (List.range maxDepth).mapM fun k => model.trees.mapM fun tree =>
    (List.range (2 ^ maxDepth)).mapM fun j => comparisonNode tree.nodes maxDepth j k 0 0
  let entries := found.flatten.flatten
  pure
    { thresholds := entries.map fun e => (e.map fun node => quantize node.threshold).getD 0
      featureIndices := entries.map fun e => (e.map fun node => asUsize node.featureIndex).getD 0
      isReal := entries.map fun e => (e.map fun _ => 1).getD 0 }

/-- The digits of a shifted difference. The lower digits of an `i64` do not depend on overflows. -/
def shiftedDigits (decompK : ℕ) (featVal threshVal : ℤ) : List Bool :=
  (List.range decompK).map fun i => (featVal - threshVal + 2 ^ (decompK - 1)).testBit i

/-- The loop of `compute_comparison_witness` for one tree, along its path bits. -/
def witnessFrom (nodes : List (TreeNode K)) (features : List K) (decompK : ℕ) :
    List Bool → ℕ → Option (List Bool)
  | [], _ => some []
  | pathBit :: path, idx => do
    let node ← nodes[idx]?
    if node.isLeaf then pure (List.replicate ((path.length + 1) * decompK) false)
    else
      let featureVal ← features[asUsize node.featureIndex]?
      let rest ← witnessFrom nodes features decompK path
        (if pathBit then node.rightChild else node.leftChild)
      pure (shiftedDigits decompK (quantize featureVal) (quantize node.threshold) ++ rest)

/-- `compute_comparison_witness`. -/
def computeComparisonWitness (model : XgboostModel K) (features : List K)
    (pathBits : List (List Bool)) (decompK : ℕ) : Option (List Bool) := do
  let digits ← (model.trees.zip pathBits).mapM fun p =>
    witnessFrom p.1.nodes features decompK p.2 0
  pure digits.flatten

end Functions

/-! ## `prepare_circuit_inputs` -/

structure CircuitInputs where
  flatPathBits : List Bool
  featuresQuantized : List ℤ
  decompBitsPadded : List Bool
  leafValuesPadded : List ℤ
  expectedSum : ℤ
  thresholdsPadded : List ℤ
  isRealPadded : List ℤ
  fiPadded : List ℕ
  numTreesPadded : ℕ
  maxDepth : ℕ
  numFeaturesPadded : ℕ
  decompK : ℕ

/-- The writes of three nested loops that copy a table. -/
def copyWrites {α : Type} (default : α) (raw : List α) (a b c : ℕ)
    (target place : ℕ → ℕ → ℕ → ℕ) : List (ℕ × α) :=
  (List.range a ×ˢ List.range b ×ˢ List.range c).map fun p =>
    (target p.1 p.2.1 p.2.2, raw.getD (place p.1 p.2.1 p.2.2) default)

/-- A comparison table in the layout of the virtual trees. -/
def padComparisons {α : Type} (default : α) (raw : List α)
    (maxDepth numTrees numTreesPadded size : ℕ) : List α :=
  writeAll (copyWrites default raw maxDepth numTrees (2 ^ maxDepth)
      (fun k t j => (k * numTreesPadded + t) * 2 ^ maxDepth + j)
      (fun k t j => k * numTrees * 2 ^ maxDepth + t * 2 ^ maxDepth + j))
    (List.replicate size default)

/-- The digits in the layout of the virtual trees. -/
def padDigits (raw : List Bool) (maxDepth numTrees numTreesPadded decompK size : ℕ) : List Bool :=
  writeAll (copyWrites false raw numTrees maxDepth decompK
      (fun t k i => (k * numTreesPadded + t) * decompK + i)
      (fun t k i => (t * maxDepth + k) * decompK + i))
    (List.replicate size false)

/-- `Vec::resize`. -/
def resize {α : Type} (xs : List α) (n : ℕ) (default : α) : List α :=
  xs.take n ++ List.replicate (n - xs.length) default

section Prepare

variable {K : Type} [Field K] [LinearOrder K] [FloorRing K]

def prepareCircuitInputs (model : XgboostModel K) (features : List K) : Option CircuitInputs := do
  let maxDepth ← maxTreeDepth model
  let leafValues ← model.trees.mapM (treeLeafValues maxDepth)
  let pathBits ← computePathBits model features maxDepth
  let numTrees := model.trees.length
  let numTreesPadded := nextPowerOfTwo numTrees
  let numFeaturesPadded := nextPowerOfTwo model.numFeatures
  let decompK := DEFAULT_DECOMP_K
  let vtPadded := nextPowerOfTwo (maxDepth * numTreesPadded)
  let flatPathBits :=
    pathBits.flatten ++ List.replicate ((numTreesPadded - numTrees) * maxDepth) false
  let decompBitsRaw ← computeComparisonWitness model features pathBits decompK
  let leafSum ← computeLeafSum model features
  let tables ← computeComparisonTables model maxDepth
  let threshTableSize := 2 ^ (trailingZeros vtPadded + maxDepth)
  pure
    { flatPathBits := flatPathBits ++ List.replicate
        (2 ^ nextLog2 (numTreesPadded * maxDepth) - flatPathBits.length) false
      featuresQuantized := resize (features.map quantize) numFeaturesPadded 0
      decompBitsPadded := padDigits decompBitsRaw maxDepth numTrees numTreesPadded decompK
        (2 ^ nextLog2 (vtPadded * decompK))
      leafValuesPadded :=
        leafValues.flatten ++ List.replicate ((numTreesPadded - numTrees) * 2 ^ maxDepth) 0
      expectedSum := wrapI64 (leafSum - quantize model.baseScore)
      thresholdsPadded :=
        padComparisons 0 tables.thresholds maxDepth numTrees numTreesPadded threshTableSize
      isRealPadded := padComparisons 0 tables.isReal maxDepth numTrees numTreesPadded threshTableSize
      fiPadded := padComparisons 0 tables.featureIndices maxDepth numTrees numTreesPadded
        (vtPadded * 2 ^ maxDepth)
      numTreesPadded := numTreesPadded
      maxDepth := maxDepth
      numFeaturesPadded := numFeaturesPadded
      decompK := decompK }

end Prepare

/-! ## The tables of one tree -/

section Tables

variable {K : Type} [Field K] [LinearOrder K] [FloorRing K] {tree : DecisionTree K}
  {t : ThresholdTree K}

private theorem map_range_succ (bits : ℕ → Bool) (n : ℕ) :
    (List.range (n + 1)).map bits = bits 0 :: (List.range n).map fun i => bits (i + 1) := by
  rw [List.range_succ_eq_map, List.map_cons, List.map_map]
  rfl

theorem fillLeaves_spec {r i : ℕ} (h : Unfolds tree.view i t) (hdepth : t.depth ≤ r) :
    ∃ ls, fillLeaves tree.nodes r i = some ls ∧ ls.length = 2 ^ r ∧
      ∀ (bits : ℕ → Bool) (value : K), t.descend ((List.range r).map bits) = .leaf value →
        ls[prefixValue bits r]? = some (quantize value) := by
  induction r generalizing i t with
  | zero =>
    cases h with
    | leaf hview =>
      obtain ⟨node, hnode, hleaf, rfl⟩ := view_eq_leaf hview
      refine ⟨[quantize node.leafValue], ?_, rfl, ?_⟩
      · simp [fillLeaves, hnode, hleaf]
      · intro bits value hvalue
        rw [ThresholdTree.descend_leaf, ThresholdTree.leaf.injEq] at hvalue
        rw [← hvalue]
        rfl
    | split hview =>
      rw [ThresholdTree.depth] at hdepth
      omega
  | succ r ih =>
    cases h with
    | leaf hview =>
      obtain ⟨node, hnode, hleaf, rfl⟩ := view_eq_leaf hview
      refine ⟨List.replicate (2 ^ (r + 1)) (quantize node.leafValue), ?_, List.length_replicate, ?_⟩
      · simp [fillLeaves, hnode, hleaf]
      · intro bits value hvalue
        rw [ThresholdTree.descend_leaf, ThresholdTree.leaf.injEq] at hvalue
        rw [List.getElem?_replicate, if_pos (prefixValue_lt bits (r + 1)), hvalue]
    | @split _ feature _ _ threshold leftTree rightTree hview hleft hright =>
      obtain ⟨node, hnode, hleaf, -, -, rfl, rfl⟩ := view_eq_split hview
      rw [ThresholdTree.depth] at hdepth
      have hl := le_max_left leftTree.depth rightTree.depth
      have hr := le_max_right leftTree.depth rightTree.depth
      obtain ⟨left, hfillLeft, hlengthLeft, hentryLeft⟩ := ih hleft (by omega)
      obtain ⟨right, hfillRight, hlengthRight, hentryRight⟩ := ih hright (by omega)
      refine ⟨left ++ right, ?_, ?_, ?_⟩
      · simp [fillLeaves, hnode, hleaf, hfillLeft, hfillRight]
      · rw [List.length_append, hlengthLeft, hlengthRight, Nat.pow_succ]
        omega
      · intro bits value hvalue
        rw [map_range_succ, ThresholdTree.descend] at hvalue
        have hlt := prefixValue_lt (fun i => bits (i + 1)) r
        rw [prefixValue_succ_eq]
        cases hbit : bits 0 with
        | false =>
          rw [hbit] at hvalue
          rw [Bool.toNat_false, Nat.zero_mul, Nat.zero_add, List.getElem?_append_left (by omega)]
          exact hentryLeft _ _ hvalue
        | true =>
          rw [hbit] at hvalue
          rw [Bool.toNat_true, Nat.one_mul, List.getElem?_append_right (by omega), hlengthLeft,
            Nat.add_sub_cancel_left]
          exact hentryRight _ _ hvalue

omit [Field K] [LinearOrder K] [FloorRing K] in
private theorem comparisonNode_spec {maxDepth j r b i : ℕ} (h : Unfolds tree.view i t) :
    ∃ e, comparisonNode tree.nodes maxDepth j r b i = some e ∧
      e.map (fun node => (asUsize node.featureIndex, node.threshold)) =
        (t.descend ((List.range r).map fun m => j.testBit (maxDepth - 1 - (b + m)))).rootSplit := by
  induction r generalizing b i t with
  | zero =>
    rw [List.range_zero, List.map_nil, ThresholdTree.descend_nil]
    cases h with
    | leaf hview =>
      obtain ⟨node, hnode, hleaf, -⟩ := view_eq_leaf hview
      refine ⟨none, ?_, rfl⟩
      simp [comparisonNode, hnode, hleaf]
    | split hview =>
      obtain ⟨node, hnode, hleaf, rfl, rfl, -, -⟩ := view_eq_split hview
      refine ⟨some node, ?_, rfl⟩
      simp [comparisonNode, hnode, hleaf]
  | succ r ih =>
    cases h with
    | leaf hview =>
      obtain ⟨node, hnode, hleaf, -⟩ := view_eq_leaf hview
      refine ⟨none, ?_, ?_⟩
      · simp [comparisonNode, hnode, hleaf]
      · rw [ThresholdTree.descend_leaf]
        rfl
    | @split _ feature _ _ threshold leftTree rightTree hview hleft hright =>
      obtain ⟨node, hnode, hleaf, -, -, rfl, rfl⟩ := view_eq_split hview
      have hshift : (fun m => j.testBit (maxDepth - 1 - (b + (m + 1)))) =
          fun m => j.testBit (maxDepth - 1 - (b + 1 + m)) := by
        funext m
        rw [show b + (m + 1) = b + 1 + m by omega]
      rw [map_range_succ, ThresholdTree.descend, Nat.add_zero, hshift]
      simp only [comparisonNode, hnode, hleaf, bind, Option.bind_some, Bool.false_eq_true, if_false]
      cases j.testBit (maxDepth - 1 - b) with
      | false => exact ih hleft
      | true => exact ih hright

end Tables

/-! ## Copied tables -/

section Copies

variable {α : Type} {default : α} {raw : List α} {a b c : ℕ} {g place : ℕ → ℕ → ℕ → ℕ}

private theorem mem_copyWrites {x y z : ℕ} (hx : x < a) (hy : y < b) (hz : z < c) :
    (g x y z, raw.getD (place x y z) default) ∈ copyWrites default raw a b c g place := by
  refine List.mem_map.mpr ⟨(x, y, z), ?_, rfl⟩
  simp only [List.mem_product, List.mem_range]
  exact ⟨hx, hy, hz⟩

private theorem getD_copyWrites
    (hinj : ∀ x < a, ∀ y < b, ∀ z < c, ∀ x' < a, ∀ y' < b, ∀ z' < c,
      g x y z = g x' y' z' → x = x' ∧ y = y' ∧ z = z') {size x y z : ℕ} (hx : x < a)
    (hy : y < b) (hz : z < c) (hlt : g x y z < size) :
    (writeAll (copyWrites default raw a b c g place) (List.replicate size default)).getD
      (g x y z) default = raw.getD (place x y z) default := by
  have hnodup : ((copyWrites default raw a b c g place).map Prod.fst).Nodup := by
    rw [copyWrites, List.map_map]
    refine List.Nodup.map_on ?_ (List.nodup_range.product (List.nodup_range.product
      List.nodup_range))
    rintro ⟨x, y, z⟩ hp ⟨x', y', z'⟩ hq hpq
    simp only [List.mem_product, List.mem_range] at hp hq
    obtain ⟨h1, h2, h3⟩ := hinj _ hp.1 _ hp.2.1 _ hp.2.2 _ hq.1 _ hq.2.1 _ hq.2.2 hpq
    rw [h1, h2, h3]
  rw [List.getD_eq_getElem?_getD, getElem?_writeAll_of_mem hnodup (mem_copyWrites hx hy hz)
    (by rwa [List.length_replicate]), Option.getD_some]

private theorem getD_copyWrites_of_ne {size i : ℕ}
    (h : ∀ x < a, ∀ y < b, ∀ z < c, g x y z ≠ i) :
    (writeAll (copyWrites default raw a b c g place) (List.replicate size default)).getD
      i default = default := by
  have hnot : i ∉ (copyWrites default raw a b c g place).map Prod.fst := by
    rw [copyWrites, List.map_map]
    intro hmem
    obtain ⟨⟨x, y, z⟩, hp, hi⟩ := List.mem_map.mp hmem
    simp only [List.mem_product, List.mem_range] at hp
    exact h _ hp.1 _ hp.2.1 _ hp.2.2 hi
  rw [List.getD_eq_getElem?_getD, getElem?_writeAll_of_notMem hnot, List.getElem?_replicate]
  split <;> rfl

private theorem mul_add_inj {m n n' d d' : ℕ} (hd : d < m) (hd' : d' < m)
    (h : n * m + d = n' * m + d') : n = n' ∧ d = d' := by
  have hn : (n * m + d) / m = n := by
    rw [Nat.mul_comm, Nat.mul_add_div (by omega), Nat.div_eq_of_lt hd, Nat.add_zero]
  have hn' : (n' * m + d') / m = n' := by
    rw [Nat.mul_comm, Nat.mul_add_div (by omega), Nat.div_eq_of_lt hd', Nat.add_zero]
  have heq : n = n' := by rw [← hn, ← hn', h]
  subst heq
  exact ⟨rfl, by omega⟩

private theorem virtualPlace_lt {k t d maxDepth numTreesPadded m size : ℕ} (hk : k < maxDepth)
    (ht : t < numTreesPadded) (hd : d < m) (hsize : maxDepth * numTreesPadded * m ≤ size) :
    (k * numTreesPadded + t) * m + d < size :=
  (rowPlace_lt (rowPlace_lt hk ht) hd).trans_le hsize

theorem padComparisons_eq {maxDepth numTrees numTreesPadded size k t j : ℕ}
    (hle : numTrees ≤ numTreesPadded)
    (hsize : maxDepth * numTreesPadded * 2 ^ maxDepth ≤ size) (hk : k < maxDepth)
    (ht : t < numTrees) (hj : j < 2 ^ maxDepth) :
    (padComparisons default raw maxDepth numTrees numTreesPadded size).getD
      ((k * numTreesPadded + t) * 2 ^ maxDepth + j) default =
        raw.getD ((k * numTrees + t) * 2 ^ maxDepth + j) default := by
  have hplace : (k * numTrees + t) * 2 ^ maxDepth + j =
      k * numTrees * 2 ^ maxDepth + t * 2 ^ maxDepth + j := by ring
  rw [padComparisons, hplace]
  refine getD_copyWrites (g := fun k t j => (k * numTreesPadded + t) * 2 ^ maxDepth + j) ?_ hk ht
    hj (virtualPlace_lt hk (by omega) hj hsize)
  intro k _ t ht j hj k' _ t' ht' j' hj' heq
  obtain ⟨hv, hj⟩ := mul_add_inj hj hj' heq
  obtain ⟨hk, ht⟩ := mul_add_inj (by omega) (by omega) hv
  exact ⟨hk, ht, hj⟩

/-- Virtual trees that stand for no tree have default entries. -/
theorem padComparisons_of_padding {maxDepth numTrees numTreesPadded size v j : ℕ}
    (hj : j < 2 ^ maxDepth)
    (h : ∀ k < maxDepth, ∀ t < numTrees, k * numTreesPadded + t ≠ v) :
    (padComparisons default raw maxDepth numTrees numTreesPadded size).getD (v * 2 ^ maxDepth + j)
      default = default := by
  refine getD_copyWrites_of_ne ?_
  intro k hk t ht j' hj' heq
  exact h k hk t ht (mul_add_inj hj' hj heq).1

theorem padDigits_eq {raw : List Bool} {maxDepth numTrees numTreesPadded decompK size k t i : ℕ}
    (hle : numTrees ≤ numTreesPadded) (hsize : maxDepth * numTreesPadded * decompK ≤ size)
    (hk : k < maxDepth) (ht : t < numTrees) (hi : i < decompK) :
    (padDigits raw maxDepth numTrees numTreesPadded decompK size).getD
      ((k * numTreesPadded + t) * decompK + i) false =
        raw.getD ((t * maxDepth + k) * decompK + i) false := by
  rw [padDigits]
  refine getD_copyWrites (g := fun t k i => (k * numTreesPadded + t) * decompK + i) ?_ ht hk
    hi (virtualPlace_lt hk (by omega) hi hsize)
  intro t ht k _ i hi t' ht' k' _ i' hi' heq
  obtain ⟨hv, hi⟩ := mul_add_inj hi hi' heq
  obtain ⟨hk, ht⟩ := mul_add_inj (by omega) (by omega) hv
  exact ⟨ht, hk, hi⟩

end Copies

/-! ## The tables of an ensemble -/

section Ensemble

variable {K : Type} [Field K] [LinearOrder K] [FloorRing K] {model : XgboostModel K}
  {ts : List (ThresholdTree K)}

theorem mapM_of_forall₂ {α β γ : Type} {R : α → β → Prop} {P : β → γ → Prop}
    {f : α → Option γ} {xs : List α} {ys : List β} (h : List.Forall₂ R xs ys)
    (hf : ∀ x y, R x y → ∃ z, f x = some z ∧ P y z) :
    ∃ zs, xs.mapM f = some zs ∧ List.Forall₂ P ys zs := by
  induction h with
  | nil => exact ⟨[], rfl, .nil⟩
  | cons hxy _ ih =>
    obtain ⟨z, hz, hP⟩ := hf _ _ hxy
    obtain ⟨zs, hzs, hPs⟩ := ih
    refine ⟨z :: zs, ?_, .cons hP hPs⟩
    rw [List.mapM_cons, hz, hzs]
    rfl

private theorem le_foldl_max {xs : List ℕ} {start x : ℕ} (h : x ≤ start ∨ x ∈ xs) :
    x ≤ xs.foldl max start := by
  induction xs generalizing start with
  | nil => exact h.resolve_right List.not_mem_nil
  | cons y ys ih =>
    refine ih ?_
    rcases h with h | h
    · exact .inl (h.trans (le_max_left _ _))
    · rcases List.mem_cons.mp h with rfl | h
      · exact .inl (le_max_right _ _)
      · exact .inr h

variable (hts : List.Forall₂ (fun (tree : DecisionTree K) t => tree.Holds t) model.trees ts)

include hts

omit [Field K] [LinearOrder K] [FloorRing K] in
theorem maxTreeDepth_eq :
    maxTreeDepth model = some ((ts.map ThresholdTree.depth).foldl max 0) := by
  obtain ⟨depths, hdepths, hforall⟩ := mapM_of_forall₂ (P := fun t d => d = t.depth) hts
    (fun tree t ht => ⟨t.depth, treeDepth_eq_some.mpr ⟨t, ht, rfl⟩, rfl⟩)
  have heq : depths = ts.map ThresholdTree.depth := by
    rw [← List.forall₂_eq_eq_eq, List.forall₂_map_right_iff]
    exact hforall.flip
  rw [maxTreeDepth, hdepths, ← heq]
  rfl

private theorem leafValues_spec {maxDepth : ℕ} (hdepth : ∀ t ∈ ts, t.depth ≤ maxDepth) :
    ∃ blocks, model.trees.mapM (treeLeafValues maxDepth) = some blocks ∧
      blocks.length = ts.length ∧ (∀ b ∈ blocks, b.length = 2 ^ maxDepth) ∧
      ∀ (i : ℕ) (t : ThresholdTree K) (bits : ℕ → Bool) (value : K), ts[i]? = some t →
        t.descend ((List.range maxDepth).map bits) = .leaf value →
        blocks.flatten[i * 2 ^ maxDepth + prefixValue bits maxDepth]? = some (quantize value) := by
  have hmem : List.Forall₂ (fun (tree : DecisionTree K) t => tree.Holds t ∧ t.depth ≤ maxDepth)
      model.trees ts := by
    rw [List.forall₂_iff_get] at hts ⊢
    exact ⟨hts.1, fun i hi hi' => ⟨hts.2 i hi hi', hdepth _ (List.get_mem _ _)⟩⟩
  obtain ⟨blocks, hblocks, hforall⟩ := mapM_of_forall₂ hmem
    (fun tree t ht => fillLeaves_spec ht.1 ht.2)
  have hlength : ∀ b ∈ blocks, b.length = 2 ^ maxDepth := by
    intro b hb
    obtain ⟨i, hi, rfl⟩ := List.getElem_of_mem hb
    rw [List.forall₂_iff_get] at hforall
    exact (hforall.2 i (by rw [hforall.1]; exact hi) hi).1
  refine ⟨blocks, hblocks, hforall.length_eq.symm, hlength, ?_⟩
  intro i t bits value ht hvalue
  obtain ⟨b, hb, -, hentry⟩ := forall₂_getElem? hforall ht
  rw [getElem?_flatten hlength i (prefixValue_lt bits maxDepth), hb, Option.bind_some]
  exact hentry bits value hvalue

omit hts in
private theorem forall₂_range (n : ℕ) : List.Forall₂ (· = ·) (List.range n) (List.range n) :=
  List.forall₂_same.mpr fun _ _ => rfl

omit [Field K] [LinearOrder K] [FloorRing K] hts in
/-- The entries of a tree at one level. -/
private theorem comparisonBlock_spec {tree : DecisionTree K} {t : ThresholdTree K}
    (ht : tree.Holds t) (maxDepth k : ℕ) :
    ∃ block, ((List.range (2 ^ maxDepth)).mapM fun j =>
        comparisonNode tree.nodes maxDepth j k 0 0) = some block ∧
      block.length = 2 ^ maxDepth ∧ ∀ j < 2 ^ maxDepth, ∃ e, block[j]? = some e ∧
        e.map (fun node => (asUsize node.featureIndex, node.threshold)) =
          (t.descend ((List.range k).map fun m => j.testBit (maxDepth - 1 - (0 + m)))).rootSplit := by
  obtain ⟨block, hblock, hforall⟩ := mapM_of_forall₂ (forall₂_range (2 ^ maxDepth))
    (f := fun j => comparisonNode tree.nodes maxDepth j k 0 0)
    (P := fun j e => e.map (fun node => (asUsize node.featureIndex, node.threshold)) =
      (t.descend ((List.range k).map fun m => j.testBit (maxDepth - 1 - (0 + m)))).rootSplit)
    (by
      rintro j _ rfl
      exact comparisonNode_spec ht)
  refine ⟨block, hblock, ?_, ?_⟩
  · rw [← hforall.length_eq, List.length_range]
  · intro j hj
    exact forall₂_getElem? hforall (List.getElem?_range hj)

omit [Field K] [LinearOrder K] [FloorRing K] in
theorem comparisonEntries_spec (maxDepth : ℕ) :
    ∃ found, ((List.range maxDepth).mapM fun k => model.trees.mapM fun tree =>
        (List.range (2 ^ maxDepth)).mapM fun j => comparisonNode tree.nodes maxDepth j k 0 0) =
          some found ∧
      ∀ (k i : ℕ) (t : ThresholdTree K) (bits : ℕ → Bool), k < maxDepth → ts[i]? = some t →
        ∃ e, found.flatten.flatten[(k * ts.length + i) * 2 ^ maxDepth + prefixValue bits maxDepth]? =
            some e ∧
          e.map (fun node => (asUsize node.featureIndex, node.threshold)) =
            (t.descend ((List.range k).map bits)).rootSplit := by
  obtain ⟨found, hfound, hforall⟩ := mapM_of_forall₂ (forall₂_range maxDepth)
    (f := fun k => model.trees.mapM fun tree =>
      (List.range (2 ^ maxDepth)).mapM fun j => comparisonNode tree.nodes maxDepth j k 0 0)
    (P := fun k row => List.Forall₂ (fun t block => block.length = 2 ^ maxDepth ∧
      ∀ j < 2 ^ maxDepth, ∃ e, block[j]? = some e ∧
        e.map (fun node => (asUsize node.featureIndex, node.threshold)) =
          (t.descend ((List.range k).map fun m => j.testBit (maxDepth - 1 - (0 + m)))).rootSplit)
      ts row)
    (by
      rintro k _ rfl
      exact mapM_of_forall₂ hts fun tree t ht => comparisonBlock_spec ht maxDepth k)
  have hrows : ∀ row ∈ found, row.length = ts.length := by
    intro row hrow
    obtain ⟨k, hk, rfl⟩ := List.getElem_of_mem hrow
    rw [List.forall₂_iff_get] at hforall
    exact (hforall.2 k (by rw [hforall.1]; exact hk) hk).length_eq.symm
  have hblocks : ∀ block ∈ found.flatten, block.length = 2 ^ maxDepth := by
    intro block hblock
    obtain ⟨row, hrow, hblock⟩ := List.mem_flatten.mp hblock
    obtain ⟨k, hk, rfl⟩ := List.getElem_of_mem hrow
    obtain ⟨i, hi, rfl⟩ := List.getElem_of_mem hblock
    rw [List.forall₂_iff_get] at hforall
    have hrow := hforall.2 k (by rw [hforall.1]; exact hk) hk
    rw [List.forall₂_iff_get] at hrow
    exact (hrow.2 i (by rw [hrow.1]; exact hi) hi).1
  refine ⟨found, hfound, ?_⟩
  intro k i t bits hk ht
  obtain ⟨row, hrow, hspec⟩ := forall₂_getElem? hforall (List.getElem?_range hk)
  obtain ⟨block, hblock, -, hentries⟩ := forall₂_getElem? hspec ht
  have hlt := prefixValue_lt bits maxDepth
  obtain ⟨e, he, hsplit⟩ := hentries _ hlt
  have hi : i < ts.length := (List.getElem?_eq_some_iff.mp ht).1
  refine ⟨e, ?_, ?_⟩
  · rw [getElem?_flatten hblocks _ hlt, getElem?_flatten hrows k hi, hrow, Option.bind_some, hblock,
      Option.bind_some, he]
  · -- the first bits of the position are the given ones
    have hbits : (List.range k).map (fun m => (prefixValue bits maxDepth).testBit
        (maxDepth - 1 - (0 + m))) = (List.range k).map bits := by
      refine List.map_congr_left ?_
      intro m hm
      rw [List.mem_range] at hm
      rw [Nat.zero_add, testBit_prefixValue bits (by omega)]
    rw [hsplit, hbits]

theorem exists_treeLeafValues {maxDepth : ℕ} (hdepth : ∀ t ∈ ts, t.depth ≤ maxDepth) :
    ∃ leafValues, model.trees.mapM (treeLeafValues maxDepth) = some leafValues := by
  obtain ⟨blocks, hblocks, -⟩ := leafValues_spec hts hdepth
  exact ⟨blocks, hblocks⟩

theorem exists_comparisonTables (maxDepth : ℕ) :
    ∃ tables, computeComparisonTables model maxDepth = some tables := by
  obtain ⟨found, hfound, -⟩ := comparisonEntries_spec hts maxDepth
  rw [computeComparisonTables, hfound]
  exact ⟨_, rfl⟩

omit [Field K] [LinearOrder K] [FloorRing K] in
theorem depth_le_of_maxTreeDepth {maxDepth : ℕ} (h : maxTreeDepth model = some maxDepth) :
    ∀ t ∈ ts, t.depth ≤ maxDepth := by
  intro t ht
  rw [maxTreeDepth_eq hts, Option.some.injEq] at h
  rw [← h]
  exact le_foldl_max (.inr (List.mem_map_of_mem ht))

/-- What the public tables of prepared inputs tell about the trees. -/
structure DescribesTrees (inputs : CircuitInputs) (ts : List (ThresholdTree K)) : Prop where
  trees : inputs.numTreesPadded = nextPowerOfTwo ts.length
  decompK : inputs.decompK = DEFAULT_DECOMP_K
  depth : ∀ t ∈ ts, t.depth ≤ inputs.maxDepth
  indices : inputs.fiPadded.length =
    nextPowerOfTwo (inputs.maxDepth * inputs.numTreesPadded) * 2 ^ inputs.maxDepth
  leaf : ∀ (i : ℕ) (t : ThresholdTree K) (bits : ℕ → Bool) (value : K), ts[i]? = some t →
    t.descend ((List.range inputs.maxDepth).map bits) = .leaf value →
    inputs.leafValuesPadded.getD (i * 2 ^ inputs.maxDepth + prefixValue bits inputs.maxDepth) 0 =
      quantize value
  leafPadding : ∀ i j, ts.length ≤ i → j < 2 ^ inputs.maxDepth →
    inputs.leafValuesPadded.getD (i * 2 ^ inputs.maxDepth + j) 0 = 0
  split : ∀ (k i : ℕ) (t : ThresholdTree K) (bits : ℕ → Bool), k < inputs.maxDepth →
    ts[i]? = some t →
    inputs.thresholdsPadded.getD ((k * inputs.numTreesPadded + i) * 2 ^ inputs.maxDepth +
        prefixValue bits inputs.maxDepth) 0 =
      ((t.descend ((List.range k).map bits)).rootSplit.map fun p => quantize p.2).getD 0 ∧
    inputs.fiPadded.getD ((k * inputs.numTreesPadded + i) * 2 ^ inputs.maxDepth +
        prefixValue bits inputs.maxDepth) 0 =
      ((t.descend ((List.range k).map bits)).rootSplit.map Prod.fst).getD 0 ∧
    inputs.isRealPadded.getD ((k * inputs.numTreesPadded + i) * 2 ^ inputs.maxDepth +
        prefixValue bits inputs.maxDepth) 0 =
      ((t.descend ((List.range k).map bits)).rootSplit.map fun _ => 1).getD 0
  padding : ∀ v j, j < 2 ^ inputs.maxDepth →
    (∀ k < inputs.maxDepth, ∀ i < ts.length, k * inputs.numTreesPadded + i ≠ v) →
    inputs.isRealPadded.getD (v * 2 ^ inputs.maxDepth + j) 0 = 0

omit hts in
private theorem length_padComparisons {α : Type} (default : α) (raw : List α)
    (maxDepth numTrees numTreesPadded size : ℕ) :
    (padComparisons default raw maxDepth numTrees numTreesPadded size).length = size := by
  rw [padComparisons, length_writeAll, List.length_replicate]

omit [Field K] [LinearOrder K] [FloorRing K] hts in
/-- A projection of the comparison entries, in the padded layout. -/
private theorem padComparisons_entry {α : Type} {default : α} {entries : List (Option (TreeNode K))}
    {project : TreeNode K → α} {g : ℕ × K → α}
    (hproject : ∀ node : TreeNode K, project node = g (asUsize node.featureIndex, node.threshold))
    {maxDepth numTrees numTreesPadded size k i j : ℕ} {e : Option (TreeNode K)} {o : Option (ℕ × K)}
    (hle : numTrees ≤ numTreesPadded)
    (hsize : maxDepth * numTreesPadded * 2 ^ maxDepth ≤ size) (hk : k < maxDepth) (hi : i < numTrees)
    (hj : j < 2 ^ maxDepth)
    (hentry : entries[(k * numTrees + i) * 2 ^ maxDepth + j]? = some e)
    (hsplit : e.map (fun node => (asUsize node.featureIndex, node.threshold)) = o) :
    (padComparisons default (entries.map fun e => (e.map project).getD default) maxDepth numTrees
      numTreesPadded size).getD ((k * numTreesPadded + i) * 2 ^ maxDepth + j) default =
        (o.map g).getD default := by
  rw [padComparisons_eq hle hsize hk hi hj, List.getD_eq_getElem?_getD, List.getElem?_map, hentry,
    ← hsplit]
  cases e with
  | none => rfl
  | some node => exact hproject node

theorem describesTrees_of_prepare {features : List K} {inputs : CircuitInputs}
    (h : prepareCircuitInputs model features = some inputs) : DescribesTrees inputs ts := by
  simp only [prepareCircuitInputs, bind, Option.bind_eq_some_iff] at h
  obtain ⟨maxDepth, hmaxDepth, leafValues, hleafValues, pathBits, -, digits, -, leafSum, -, tables,
    htables, h⟩ := h
  cases h
  have hlength := hts.length_eq
  have hdepth := depth_le_of_maxTreeDepth hts hmaxDepth
  obtain ⟨blocks, hblocks, hcount, hblock, hleaf⟩ := leafValues_spec hts hdepth
  rw [hleafValues, Option.some.injEq] at hblocks
  subst hblocks
  obtain ⟨found, hfound, hentries⟩ := comparisonEntries_spec hts maxDepth
  simp only [computeComparisonTables, hfound, bind, Option.bind_some] at htables
  cases htables
  have hle : model.trees.length ≤ nextPowerOfTwo model.trees.length := le_nextPowerOfTwo _
  have hvt := le_nextPowerOfTwo (maxDepth * nextPowerOfTwo model.trees.length)
  have hsize : maxDepth * nextPowerOfTwo model.trees.length * 2 ^ maxDepth ≤
      2 ^ (trailingZeros (nextPowerOfTwo (maxDepth * nextPowerOfTwo model.trees.length)) +
        maxDepth) := by
    rw [Nat.pow_add, two_pow_trailingZeros]
    exact Nat.mul_le_mul_right _ hvt
  have hflat : leafValues.flatten.length = ts.length * 2 ^ maxDepth := by
    rw [List.length_flatten, List.map_congr_left hblock, List.map_const', List.sum_replicate_nat,
      hcount]
  refine ⟨by rw [hlength], rfl, hdepth, length_padComparisons _ _ _ _ _ _, ?_, ?_, ?_, ?_⟩
  · intro i t bits value ht hvalue
    have hentry := hleaf i t bits value ht hvalue
    rw [List.getD_eq_getElem?_getD,
      List.getElem?_append_left (List.getElem?_eq_some_iff.mp hentry).1, hentry, Option.getD_some]
  · intro i j hi hj
    have hge : leafValues.flatten.length ≤ i * 2 ^ maxDepth + j := by
      rw [hflat]
      exact (Nat.mul_le_mul_right _ hi).trans (Nat.le_add_right _ _)
    rw [List.getD_eq_getElem?_getD, List.getElem?_append_right hge, List.getElem?_replicate]
    split <;> rfl
  · intro k i t bits hk ht
    have hi : i < ts.length := (List.getElem?_eq_some_iff.mp ht).1
    have hj := prefixValue_lt bits maxDepth
    obtain ⟨e, he, hsplit⟩ := hentries k i t bits hk ht
    rw [← hlength] at hi he
    refine ⟨?_, ?_, ?_⟩
    · exact padComparisons_entry (g := fun p => quantize p.2) (fun _ => rfl) hle hsize hk hi hj he
        hsplit
    · exact padComparisons_entry (g := Prod.fst) (fun _ => rfl) hle (Nat.mul_le_mul_right _ hvt) hk hi
        hj he hsplit
    · exact padComparisons_entry (g := fun _ => 1) (fun _ => rfl) hle hsize hk hi hj he hsplit
  · intro v j hj hv
    refine padComparisons_of_padding hj ?_
    intro k hk i hi
    exact hv k hk i (hlength ▸ hi)

end Ensemble

/-! ## Depth and feature indices -/

section Indices

variable {K : Type} [Field K] [LinearOrder K] [FloorRing K] {model : XgboostModel K}

theorem maxTreeDepth_of_prepare {features : List K} {inputs : CircuitInputs}
    (h : prepareCircuitInputs model features = some inputs) :
    maxTreeDepth model = some inputs.maxDepth := by
  simp only [prepareCircuitInputs, bind, Option.bind_eq_some_iff] at h
  obtain ⟨maxDepth, hmaxDepth, _, -, _, -, _, -, _, -, _, -, h⟩ := h
  cases h
  exact hmaxDepth

private theorem exists_of_mem_mapM {α β : Type} {f : α → Option β} {xs : List α} {ys : List β}
    (h : xs.mapM f = some ys) {y : β} (hy : y ∈ ys) : ∃ x ∈ xs, f x = some y := by
  obtain ⟨i, hi, rfl⟩ := List.getElem_of_mem hy
  have hforall := mapM_eq_some.mp h
  rw [List.forall₂_iff_get] at hforall
  have hi' : i < xs.length := by rw [hforall.1]; exact hi
  exact ⟨xs.get ⟨i, hi'⟩, List.get_mem _ _, hforall.2 i hi' hi⟩

omit [Field K] [LinearOrder K] [FloorRing K] in
private theorem mem_of_comparisonNode {nodes : List (TreeNode K)} {maxDepth j r b i : ℕ}
    {node : TreeNode K} (h : comparisonNode nodes maxDepth j r b i = some (some node)) :
    node ∈ nodes ∧ node.isLeaf = false := by
  induction r generalizing b i with
  | zero =>
    simp only [comparisonNode, bind, Option.bind_eq_some_iff] at h
    obtain ⟨node', hnode, h⟩ := h
    cases hleaf : node'.isLeaf with
    | true =>
      rw [hleaf] at h
      cases h
    | false =>
      rw [hleaf] at h
      cases h
      exact ⟨List.mem_of_getElem? hnode, hleaf⟩
  | succ r ih =>
    simp only [comparisonNode, bind, Option.bind_eq_some_iff] at h
    obtain ⟨node', hnode, h⟩ := h
    split at h
    · cases h
    · exact ih h

theorem fiPadded_lt {features : List K} {inputs : CircuitInputs}
    (h : prepareCircuitInputs model features = some inputs)
    (hrange : ∀ tree ∈ model.trees, ∀ node ∈ tree.nodes, node.isLeaf = false →
      0 ≤ node.featureIndex) : ∀ f ∈ inputs.fiPadded, f < 2 ^ 32 := by
  simp only [prepareCircuitInputs, bind, Option.bind_eq_some_iff] at h
  obtain ⟨maxDepth, -, leafValues, -, pathBits, -, digits, -, leafSum, -, tables, htables, h⟩ := h
  cases h
  simp only [computeComparisonTables, bind, Option.bind_eq_some_iff] at htables
  obtain ⟨found, hfound, htables⟩ := htables
  cases htables
  -- an entry of the raw table is zero or the index of a split
  have hraw : ∀ f ∈ found.flatten.flatten.map fun e =>
      (e.map fun node => asUsize node.featureIndex).getD 0, f < 2 ^ 32 := by
    intro f hf
    obtain ⟨e, he, rfl⟩ := List.mem_map.mp hf
    cases e with
    | none => exact Nat.two_pow_pos 32
    | some node =>
      obtain ⟨block, hblock, he⟩ := List.mem_flatten.mp he
      obtain ⟨row, hrow, hblock⟩ := List.mem_flatten.mp hblock
      obtain ⟨k, -, hk⟩ := exists_of_mem_mapM hfound hrow
      obtain ⟨tree, htree, hblock⟩ := exists_of_mem_mapM hk hblock
      obtain ⟨j, -, hnode⟩ := exists_of_mem_mapM hblock he
      obtain ⟨hmem, hleaf⟩ := mem_of_comparisonNode hnode
      have hpos := hrange tree htree node hmem hleaf
      have hlt := node.featureIndex_range.2
      change asUsize node.featureIndex < 2 ^ 32
      rw [asUsize]
      omega
  intro f hf
  rcases mem_writeAll hf with hdefault | hwritten
  · rw [List.eq_of_mem_replicate hdefault]
    exact Nat.two_pow_pos 32
  · obtain ⟨w, hw, rfl⟩ := List.mem_map.mp hwritten
    obtain ⟨p, -, rfl⟩ := List.mem_map.mp hw
    rw [List.getD_eq_getElem?_getD]
    cases hget : (found.flatten.flatten.map fun e =>
        (e.map fun node => asUsize node.featureIndex).getD 0)[p.1 * model.trees.length *
          2 ^ maxDepth + p.2.1 * 2 ^ maxDepth + p.2.2]? with
    | none => exact Nat.two_pow_pos 32
    | some f => exact hraw f (List.mem_of_getElem? hget)

end Indices

/-! ## Models in range -/

section Range

variable {K : Type} {model : XgboostModel K}

/-- Acyclic trees whose nodes and features are all there. -/
structure InRange (model : XgboostModel K) : Prop where
  holds : ∀ tree ∈ model.trees, ∃ t, tree.Holds t
  features : ∀ tree ∈ model.trees, ∀ node ∈ tree.nodes, node.isLeaf = false →
    0 ≤ node.featureIndex ∧ node.featureIndex < model.numFeatures

theorem InRange.exists_trees (h : InRange model) :
    ∃ ts, List.Forall₂ (fun (tree : DecisionTree K) t => tree.Holds t) model.trees ts := by
  have hholds := h.holds
  generalize model.trees = trees at hholds
  induction trees with
  | nil => exact ⟨[], .nil⟩
  | cons tree trees ih =>
    obtain ⟨t, ht⟩ := hholds tree List.mem_cons_self
    obtain ⟨ts, hts⟩ := ih fun tree' h' => hholds tree' (List.mem_cons_of_mem _ h')
    exact ⟨t :: ts, .cons ht hts⟩

end Range

end WorldZk.CircuitPreparation
