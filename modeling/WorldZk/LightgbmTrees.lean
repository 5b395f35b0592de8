import WorldZk.ModelParsers

/-!
# LightGBM trees under their own rule

A LightGBM tree sends a feature up to the threshold to the left. `flatten_lgbm_tree` keeps every
node once, but `traverse_tree` sends a feature equal to the threshold to the right, and the feature
index goes through an `i32`.
-/

namespace WorldZk.LightgbmTrees

open DecisionTrees TreeEnsemble ModelParsers

variable {K : Type}

/-- The tree as the file has it. -/
def ownTree : LightGBMNode K → ThresholdTree K
  | .leaf leafValue => .leaf leafValue
  | .internal splitFeature threshold leftChild rightChild =>
    .split splitFeature threshold (ownTree leftChild) (ownTree rightChild)

variable [LinearOrder K]

/-- The two sides of the first node, on the way by the tree's own rule, at which the stored
comparison decides otherwise: the own side, and the other one unless the comparison panics. -/
def firstParting (features : List K) :
    LightGBMNode K → Option (LightGBMNode K × Option (LightGBMNode K))
  | .leaf _ => none
  | .internal splitFeature threshold leftChild rightChild =>
    match features[splitFeature]?, features[asUsize (wrapI32 splitFeature)]? with
    | none, _ => none
    | some own, none => some (if own ≤ threshold then leftChild else rightChild, none)
    | some own, some stored =>
      if own ≤ threshold then
        if stored < threshold then firstParting features leftChild
        else some (leftChild, some rightChild)
      else if stored < threshold then some (rightChild, some leftChild)
      else firstParting features rightChild

/-- Where the stored comparisons first part from the own rule, the other side gives the value of
the own side. -/
def Rejoins (features : List K) (root : LightGBMNode K) : Prop :=
  ∀ own other, firstParting features root = some (own, other) →
    ∀ value, (ownTree own).evalLe features = some value →
      other.bind (fun node => node.toTree.eval features) = some value

/-- No visited node has a feature that is equal to its threshold, or an index beyond an `i32`. -/
def NoTie (features : List K) : LightGBMNode K → Prop
  | .leaf _ => True
  | .internal splitFeature threshold leftChild rightChild =>
    splitFeature < 2 ^ 31 ∧ ∀ x, features[splitFeature]? = some x →
      x ≠ threshold ∧ (x < threshold → NoTie features leftChild) ∧
        (threshold < x → NoTie features rightChild)

variable {features : List K}

/-- The stored tree gives the values of the own one exactly if the two rejoin. -/
theorem eval_iff_rejoins (root : LightGBMNode K) :
    (∀ value, (ownTree root).evalLe features = some value →
      root.toTree.eval features = some value) ↔ Rejoins features root := by
  induction root with
  | leaf leafValue => exact ⟨fun _ own other h => (by cases h), fun _ value h => h⟩
  | internal splitFeature threshold leftChild rightChild ihleft ihright =>
    rw [Rejoins, firstParting, ownTree, LightGBMNode.toTree]
    simp only [ThresholdTree.evalLe, ThresholdTree.eval]
    cases hown : features[splitFeature]? with
    | none => exact ⟨fun _ own other h => (by cases h), fun _ value h => (by cases h)⟩
    | some own =>
      cases hstored : features[asUsize (wrapI32 splitFeature)]? with
      | none =>
        have hside : (ownTree (if own ≤ threshold then leftChild else rightChild)).evalLe features =
            if own ≤ threshold then (ownTree leftChild).evalLe features
            else (ownTree rightChild).evalLe features := by
          split_ifs <;> rfl
        constructor
        · rintro h _ _ ⟨⟩ value hvalue
          exact h value (hside.symm.trans hvalue)
        · intro h value hvalue
          exact h _ _ rfl value (hside.trans hvalue)
      | some stored =>
        by_cases hle : own ≤ threshold <;> by_cases hlt : stored < threshold <;>
          simp only [hle, hlt, if_true, if_false]
        · exact ihleft
        · constructor
          · rintro h _ _ ⟨⟩
            exact h
          · exact fun h => h _ _ rfl
        · constructor
          · rintro h _ _ ⟨⟩
            exact h
          · exact fun h => h _ _ rfl
        · exact ihright

theorem NoTie.firstParting_eq_none {root : LightGBMNode K} (h : NoTie features root) :
    firstParting features root = none := by
  induction root with
  | leaf leafValue => rfl
  | internal splitFeature threshold leftChild rightChild ihleft ihright =>
    obtain ⟨hindex, hvisited⟩ := h
    rw [firstParting, asUsize_wrapI32 hindex]
    cases hown : features[splitFeature]? with
    | none => rfl
    | some x =>
      obtain ⟨hne, hleft, hright⟩ := hvisited x hown
      rcases lt_or_gt_of_ne hne with hlt | hgt
      · simp only [hlt, hlt.le, if_true]
        exact ihleft (hleft hlt)
      · simp only [hgt.not_gt, hgt.not_ge, if_false]
        exact ihright (hright hgt)

section Flattening

omit [LinearOrder K] in
theorem length_labels (root : LightGBMNode K) : root.toTree.labels.length = countNodes root := by
  induction root with
  | leaf leafValue => rfl
  | internal splitFeature threshold leftChild rightChild ihleft ihright =>
    rw [LightGBMNode.toTree, ThresholdTree.labels, List.length_cons, List.length_append, ihleft,
      ihright, countNodes]
    omega

variable [Zero K]

omit [LinearOrder K] in
theorem flattened_labels {root : LightGBMNode K} {tree : DecisionTree K}
    (h : flattenLgbmTree root = some tree) :
    tree.nodes.length = countNodes root ∧
      (tree.nodes.map fun node => node.view.label).Perm root.toTree.labels := by
  obtain ⟨tree', htree', hlength, _, hflat⟩ := flattenLgbmTree_flattens root
  obtain rfl : tree = tree' := Option.some.inj (h.symm.trans htree')
  refine ⟨hlength, ?_⟩
  have hentries : (List.range root.toTree.labels.length).map
      (fun i => (tree.view i).map NodeView.label) =
      (tree.nodes.map fun node => node.view.label).map some := by
    rw [length_labels, ← hlength]
    refine List.ext_getElem (by simp) fun i hi hi' => ?_
    rw [List.length_map, List.length_range] at hi
    simp [DecisionTree.view, hi]
  have hperm := hflat.labels_perm
  rw [hentries] at hperm
  simpa [List.filterMap_map] using hperm.filterMap id

/-- Flattening always succeeds with one node for every node of the nested tree, and the traversal
gives the value that the nested tree has under its own rule exactly if the two rejoin where they
part. They never part on a way without ties and with indices of an `i32`. -/
theorem lightgbm_flattening_iff (root : LightGBMNode K) (features : List K) :
    ∃ tree, flattenLgbmTree root = some tree ∧ tree.nodes.length = countNodes root ∧
      (tree.nodes.map fun node => node.view.label).Perm root.toTree.labels ∧
      ((∀ value, (ownTree root).evalLe features = some value →
        traverseTree tree features = some value) ↔ Rejoins features root) ∧
      (NoTie features root → Rejoins features root) := by
  obtain ⟨tree, htree, hholds⟩ := flattenLgbmTree_holds root
  obtain ⟨hlength, hlabels⟩ := flattened_labels htree
  refine ⟨tree, htree, hlength, hlabels, ?_, fun htie own other hparting => ?_⟩
  · rw [traverseTree_eq hholds]
    exact eval_iff_rejoins root
  · rw [htie.firstParting_eq_none] at hparting
    cases hparting

end Flattening

/-- A feature that is equal to the threshold goes left by the rule of the tree and right in the
flattened one. -/
theorem tie_goes_right :
    ¬ ∀ (root : LightGBMNode ℚ) (features : List ℚ) (tree : DecisionTree ℚ),
      flattenLgbmTree root = some tree → ∀ value, (ownTree root).evalLe features = some value →
        traverseTree tree features = some value := by
  intro h
  have hvalue := h (.internal 0 5 (.leaf 1) (.leaf 2)) [5] _ rfl 1 (by decide +kernel)
  exact absurd hvalue (by decide +kernel)

end WorldZk.LightgbmTrees
