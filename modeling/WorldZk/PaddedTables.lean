import Mathlib.Data.Rat.Floor
import WorldZk.InferenceWitness

/-!
# Padded tables of trees

The leaf table and the comparison tables have the same width for all trees of an ensemble. Along
the path bits they hold the leaf that `traverse_tree` reaches and the nodes that it visits, and
behind the leaf the bits do not matter.
-/

namespace WorldZk.PaddedTables

open CheckedRuns CircuitPreparation DecisionTrees GateWirings InferenceWitness TreeEnsemble

/-- The place of a path in a table; its first bit is the most significant one. -/
def pathIndex (bits : List Bool) : ℕ := prefixValue (fun m => bits.getD m false) bits.length

section Visited

variable {K : Type} [LinearOrder K]

/-- The node at which `traverse_tree` is after `k` rounds; it stays at a leaf. -/
def nodeAtLevel (nodes : List (TreeNode K)) (features : List K) : ℕ → ℕ → Option (TreeNode K)
  | 0, idx => nodes[idx]?
  | k + 1, idx => do
    let node ← nodes[idx]?
    if node.isLeaf then pure node
    else
      let featureVal ← features[asUsize node.featureIndex]?
      if featureVal < node.threshold then nodeAtLevel nodes features k node.leftChild
      else nodeAtLevel nodes features k node.rightChild

/-- The number of comparisons on the way to the leaf. -/
def walkLength (x : ℕ → K) : ThresholdTree K → ℕ
  | .leaf _ => 0
  | .split feature threshold left right =>
    1 + if threshold ≤ x feature then walkLength x right else walkLength x left

variable {x : ℕ → K} {t : ThresholdTree K} {n : ℕ}

theorem walkLength_le_depth : walkLength x t ≤ t.depth := by
  induction t with
  | leaf value => exact Nat.le_refl 0
  | split feature threshold left right ihleft ihright =>
    have hl := le_max_left left.depth right.depth
    have hr := le_max_right left.depth right.depth
    rw [walkLength, ThresholdTree.depth]
    split_ifs <;> omega

theorem descend_completion {bits : List Bool} {value : K}
    (hend : t.descend (turns x n t) = .leaf value) (hle : walkLength x t ≤ n)
    (hbits : bits.take (walkLength x t) = (turns x n t).take (walkLength x t)) :
    t.descend bits = .leaf value := by
  induction t generalizing bits n with
  | leaf value' =>
    rw [ThresholdTree.descend_leaf] at hend ⊢
    exact hend
  | split feature threshold left right ihleft ihright =>
    obtain ⟨m, rfl⟩ : ∃ m, n = m + 1 := ⟨n - 1, by rw [walkLength] at hle; omega⟩
    rw [walkLength, Nat.add_comm] at hle hbits
    rw [turns] at hend hbits
    by_cases hturn : threshold ≤ x feature
    · simp only [hturn, if_true, List.take_succ_cons] at hend hle hbits
      cases bits with
      | nil => cases hbits
      | cons bit bits =>
        rw [List.take_succ_cons, List.cons.injEq] at hbits
        rw [hbits.1]
        exact ihright hend (by omega) hbits.2
    · simp only [hturn, if_false, List.take_succ_cons] at hend hle hbits
      cases bits with
      | nil => cases hbits
      | cons bit bits =>
        rw [List.take_succ_cons, List.cons.injEq] at hbits
        rw [hbits.1]
        exact ihleft hend (by omega) hbits.2

/-- The visited nodes are those that the first turns lead to. -/
theorem nodeAtLevel_eq {tree : DecisionTree K} {features : List K}
    (hx : ∀ f < features.length, features[f]? = some (x f)) {i k : ℕ} (h : Unfolds tree.view i t)
    (hbelow : FeaturesBelow features.length t) (hk : k ≤ n) :
    ∃ node, nodeAtLevel tree.nodes features k i = some node ∧
      (node.isLeaf = true ↔ walkLength x t ≤ k) ∧
      (node.isLeaf = true → t.eval features = some node.leafValue) ∧
      (t.descend ((turns x n t).take k)).rootSplit =
        if node.isLeaf then none else some (asUsize node.featureIndex, node.threshold) := by
  induction k generalizing i t n with
  | zero =>
    rw [List.take_zero, ThresholdTree.descend_nil, nodeAtLevel]
    cases h with
    | leaf hview =>
      obtain ⟨node, hnode, hleaf, rfl⟩ := view_eq_leaf hview
      refine ⟨node, hnode, ?_, fun _ => rfl, ?_⟩
      · simp [hleaf, walkLength]
      · simp [hleaf, ThresholdTree.rootSplit]
    | split hview =>
      obtain ⟨node, hnode, hleaf, rfl, rfl, -, -⟩ := view_eq_split hview
      refine ⟨node, hnode, ?_, fun h => ?_, ?_⟩
      · simp [hleaf, walkLength]
      · rw [hleaf] at h
        cases h
      · simp [hleaf, ThresholdTree.rootSplit]
  | succ k ih =>
    cases h with
    | leaf hview =>
      obtain ⟨node, hnode, hleaf, rfl⟩ := view_eq_leaf hview
      refine ⟨node, ?_, ?_, fun _ => rfl, ?_⟩
      · simp [nodeAtLevel, hnode, hleaf]
      · simp [hleaf, walkLength]
      · rw [ThresholdTree.descend_leaf]
        simp [hleaf, ThresholdTree.rootSplit]
    | split hview hleft hright =>
      obtain ⟨node, hnode, hleaf, rfl, rfl, rfl, rfl⟩ := view_eq_split hview
      obtain ⟨hfeature, hbelowLeft, hbelowRight⟩ := hbelow
      obtain ⟨m, rfl⟩ : ∃ m, n = m + 1 := ⟨n - 1, by omega⟩
      have hget := hx _ hfeature
      rw [nodeAtLevel, hnode, turns, walkLength, ThresholdTree.eval, Nat.add_comm 1]
      simp only [bind, Option.bind_some, hleaf, Bool.false_eq_true, if_false, hget,
        Nat.add_le_add_iff_right]
      by_cases hturn : node.threshold ≤ x (asUsize node.featureIndex)
      · simp only [hturn, not_lt.mpr hturn, if_true, if_false, List.take_succ_cons,
          ThresholdTree.descend]
        exact ih hright hbelowRight (by omega)
      · simp only [hturn, not_le.mp hturn, if_true, if_false, List.take_succ_cons,
          ThresholdTree.descend]
        exact ih hleft hbelowLeft (by omega)

end Visited

theorem map_range_getD (bits : List Bool) :
    (List.range bits.length).map (fun m => bits.getD m false) = bits := by
  refine List.ext_getElem (by simp) fun i hi hi' => ?_
  rw [List.getElem_map, List.getElem_range, List.getD_eq_getElem?_getD,
    List.getElem?_eq_getElem hi', Option.getD_some]

theorem map_range_getD_take {bits : List Bool} {k : ℕ} (hk : k ≤ bits.length) :
    (List.range k).map (fun m => bits.getD m false) = bits.take k := by
  have h := congrArg (List.take k) (map_range_getD bits)
  rwa [← List.map_take, List.take_range, min_eq_left hk] at h

section Tables

variable {K : Type} [Field K] [LinearOrder K] [FloorRing K]

/-- What the tables of depth `D` hold for the `i`-th tree of an ensemble: its leaf at the index of
the path bits and of all bits with the same beginning, and the visited nodes at the levels. -/
structure Represents (model : XgboostModel K) (features : List K) (D : ℕ) (bits : List Bool)
    (leaves : List ℤ) (tables : ComparisonTables) (i : ℕ) (tree : DecisionTree K) (value : K)
    (leafDepth : ℕ) : Prop where
  bits_length : bits.length = D
  leaf_depth : leafDepth ≤ D
  reached : ∃ leaf, nodeAtLevel tree.nodes features leafDepth 0 = some leaf ∧
    leaf.isLeaf = true ∧ leaf.leafValue = value
  completions : ∀ completion : List Bool, completion.length = D →
    completion.take leafDepth = bits.take leafDepth →
      leaves[pathIndex completion]? = some (quantize value)
  levels : ∀ k < D, ∃ node, nodeAtLevel tree.nodes features k 0 = some node ∧
    (node.isLeaf = false ↔ k < leafDepth) ∧
    tables.thresholds[(k * model.trees.length + i) * 2 ^ D + pathIndex bits]? =
      some (if node.isLeaf then 0 else quantize node.threshold) ∧
    tables.featureIndices[(k * model.trees.length + i) * 2 ^ D + pathIndex bits]? =
      some (if node.isLeaf then 0 else asUsize node.featureIndex) ∧
    tables.isReal[(k * model.trees.length + i) * 2 ^ D + pathIndex bits]? =
      some (if node.isLeaf then 0 else 1)

/-- The entries of the three tables at a node or behind a leaf. -/
theorem tables_entry {entries : List (Option (TreeNode K))} {e : Option (TreeNode K)}
    {node : TreeNode K} {place : ℕ} (hentry : entries[place]? = some e)
    (hnode : e.map (fun node => (asUsize node.featureIndex, node.threshold)) =
      if node.isLeaf then none else some (asUsize node.featureIndex, node.threshold)) :
    (entries.map fun e => (e.map fun node => quantize node.threshold).getD 0)[place]? =
        some (if node.isLeaf then 0 else quantize node.threshold) ∧
      (entries.map fun e => (e.map fun node => asUsize node.featureIndex).getD 0)[place]? =
        some (if node.isLeaf then 0 else asUsize node.featureIndex) ∧
      (entries.map fun e => (e.map fun _ => (1 : ℤ)).getD 0)[place]? =
        some (if node.isLeaf then 0 else 1) := by
  simp only [List.getElem?_map, hentry, Option.map_some]
  cases hleaf : node.isLeaf with
  | true =>
    simp only [hleaf, if_true, Option.map_eq_none_iff] at hnode
    subst hnode
    exact ⟨rfl, rfl, rfl⟩
  | false =>
    simp only [hleaf, Bool.false_eq_true, if_false, Option.map_eq_some_iff] at hnode
    obtain ⟨node', rfl, heq⟩ := hnode
    obtain ⟨hfeature, hthreshold⟩ := Prod.mk.inj heq
    simp [hfeature, hthreshold]

/-- The tables made of the entries that the walks of `compute_comparison_tables` find. -/
def tablesOf (entries : List (Option (TreeNode K))) : ComparisonTables where
  thresholds := entries.map fun e => (e.map fun node => quantize node.threshold).getD 0
  featureIndices := entries.map fun e => (e.map fun node => asUsize node.featureIndex).getD 0
  isReal := entries.map fun e => (e.map fun _ => 1).getD 0

theorem represents_of_holds {model : XgboostModel K} {features : List K} {D i : ℕ}
    {tree : DecisionTree K} {t : ThresholdTree K} (hholds : tree.Holds t) (hdepth : t.depth ≤ D)
    (hbelow : FeaturesBelow features.length t) {leaves : List ℤ}
    (hleaves : ∀ (bits : ℕ → Bool) (value : K),
      t.descend ((List.range D).map bits) = .leaf value →
        leaves[prefixValue bits D]? = some (quantize value))
    {entries : List (Option (TreeNode K))}
    (hentries : ∀ (k : ℕ) (bits : ℕ → Bool), k < D →
      ∃ e, entries[(k * model.trees.length + i) * 2 ^ D + prefixValue bits D]? = some e ∧
        e.map (fun node => (asUsize node.featureIndex, node.threshold)) =
          (t.descend ((List.range k).map bits)).rootSplit) :
    ∃ value, traverseTree tree features = some value ∧
      Represents model features D (turns (fun f => features.getD f 0) D t) leaves
        (tablesOf entries) i tree value (walkLength (fun f => features.getD f 0) t) := by
  have hlength := length_turns (x := fun f => features.getD f 0) (n := D) (t := t)
  have hwalk : walkLength (fun f => features.getD f 0) t ≤ D := walkLength_le_depth.trans hdepth
  obtain ⟨value, hend, heval⟩ := descend_turns features_getD hbelow hdepth
  refine ⟨value, (traverseTree_eq hholds features).trans heval, hlength, hwalk, ?_, ?_, ?_⟩
  · obtain ⟨node, hnode, hleaf, hvalue, -⟩ := nodeAtLevel_eq features_getD hholds hbelow hwalk
    have hisLeaf := hleaf.mpr le_rfl
    exact ⟨node, hnode, hisLeaf, Option.some.inj ((hvalue hisLeaf).symm.trans heval)⟩
  · intro completion hcompletion htake
    have hdescend := descend_completion hend hwalk htake
    rw [← map_range_getD completion, hcompletion] at hdescend
    rw [pathIndex, hcompletion]
    exact hleaves _ _ hdescend
  · intro k hk
    obtain ⟨node, hnode, hleaf, -, hsplit⟩ :=
      nodeAtLevel_eq features_getD hholds hbelow hk.le
    obtain ⟨e, he, hlabel⟩ := hentries k
      (fun m => (turns (fun f => features.getD f 0) D t).getD m false) hk
    rw [map_range_getD_take (by omega), hsplit] at hlabel
    refine ⟨node, hnode, ?_, ?_⟩
    · rw [← Bool.not_eq_true, hleaf, not_le]
    · rw [pathIndex, hlength]
      exact tables_entry he hlabel

end Tables

/-- A leaf beside a deeper subtree. -/
def unbalancedModel : XgboostModel ℚ where
  numFeatures := 2
  numClasses := 2
  maxDepth := 2
  trees := [⟨[⟨0, 1, 1, 2, 0, false, zero_range⟩, ⟨-1, 0, 0, 0, 7, true, leaf_range⟩,
    ⟨1, 2, 3, 4, 0, false, by decide⟩, ⟨-1, 0, 0, 0, 8, true, leaf_range⟩,
    ⟨-1, 0, 0, 0, 9, true, leaf_range⟩]⟩]
  baseScore := 0

end WorldZk.PaddedTables
