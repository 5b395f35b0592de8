import WorldZk.EnclaveAgreement
import WorldZk.RandomForest
import WorldZk.TableWalks
import Mathlib.Algebra.Order.Field.Basic
import Mathlib.Data.Rat.Floor

/-!
# Trees that the parsers accept

The parsers take the child and feature indices of a file as they are. The prover's parsers walk
through each tree to find its depth, which ends only where the children lead to leaves, and nobody
compares the features with their declared number. The enclave's parser does not look at the indices.
-/

namespace WorldZk.UsableTrees

open CheckedRuns DecisionTrees JsonValues ModelParsers RandomForest TableWalks TreeEnsemble

variable {K : Type}

/-! ## Usable trees of the prover -/

section Usable

variable [LinearOrder K]

/-- All children and features of the splits are there. -/
def InBounds (tree : DecisionTree K) (numFeatures : ℕ) : Prop :=
  ∀ node ∈ tree.nodes, node.isLeaf = false → node.leftChild < tree.nodes.length ∧
    node.rightChild < tree.nodes.length ∧ asUsize node.featureIndex < numFeatures

/-- `tree_depth` and all traversals end, without an index that is out of bounds. -/
structure Usable (tree : DecisionTree K) (numFeatures : ℕ) : Prop where
  depth : ∃ d, treeDepth tree = some d
  traverse : ∀ features : List K, features.length = numFeatures →
    ∃ value, traverseTree tree features = some value
  inBounds : InBounds tree numFeatures

theorem exists_eval {tree : DecisionTree K} {t : ThresholdTree K} {i numFeatures : ℕ}
    (h : Unfolds tree.view i t) (hbounds : InBounds tree numFeatures) {features : List K}
    (hlength : features.length = numFeatures) : ∃ value, t.eval features = some value := by
  induction h with
  | leaf hview => exact ⟨_, rfl⟩
  | split hview _ _ ihleft ihright =>
    obtain ⟨node, hnode, hleaf, rfl, rfl, -, -⟩ := view_eq_split hview
    obtain ⟨-, -, hfeature⟩ := hbounds node (List.mem_of_getElem? hnode) hleaf
    rw [← hlength] at hfeature
    rw [ThresholdTree.eval, List.getElem?_eq_getElem hfeature]
    simp only
    split
    · exact ihleft
    · exact ihright

omit [LinearOrder K] in
theorem exists_treeDepth_iff {tree : DecisionTree K} :
    (∃ d, treeDepth tree = some d) ↔ ∃ t, tree.Holds t := by
  constructor
  · rintro ⟨d, hd⟩
    obtain ⟨t, ht, -⟩ := treeDepth_eq_some.mp hd
    exact ⟨t, ht⟩
  · rintro ⟨t, ht⟩
    exact ⟨_, treeDepth_eq_some.mpr ⟨t, ht, rfl⟩⟩

theorem usable_iff {tree : DecisionTree K} {numFeatures : ℕ} :
    Usable tree numFeatures ↔ (∃ t, tree.Holds t) ∧ InBounds tree numFeatures := by
  constructor
  · rintro ⟨hdepth, -, hbounds⟩
    exact ⟨exists_treeDepth_iff.mp hdepth, hbounds⟩
  · rintro ⟨⟨t, ht⟩, hbounds⟩
    refine ⟨exists_treeDepth_iff.mpr ⟨t, ht⟩, fun features hlength => ?_, hbounds⟩
    rw [traverseTree_eq ht]
    exact exists_eval ht hbounds hlength

end Usable

/-! ## Parallel arrays -/

/-- The children of a node in a file; `-1` marks a leaf. -/
def arrayChildren (left right : List Json.I32) (i : ℕ) : Option (Option (ℕ × ℕ)) := do
  let l ← left[i]?
  if l.1 = -1 then pure none
  else
    let r ← right[i]?
    pure (some (asUsize l.1, asUsize r.1))

/-- The indices of a file are those of its nodes and declared features. -/
def IndicesBelow (left right feature : List Json.I32) (numFeatures : ℕ) : Prop :=
  ∀ (i : ℕ) (l r f : Json.I32), left[i]? = some l → l.1 ≠ -1 → right[i]? = some r →
    feature[i]? = some f →
    asUsize l.1 < left.length ∧ asUsize r.1 < left.length ∧ asUsize f.1 < numFeatures

/-- The nodes are those of the arrays. -/
structure ReadFrom (tree : DecisionTree K) (left right feature : List Json.I32) : Prop where
  length : tree.nodes.length = left.length
  node : ∀ (i : ℕ) (node : TreeNode K), tree.nodes[i]? = some node → ∃ l : Json.I32,
    left[i]? = some l ∧ (l.1 = -1 → node.isLeaf = true) ∧
    (l.1 ≠ -1 → node.isLeaf = false ∧ ∃ r f : Json.I32, right[i]? = some r ∧
      feature[i]? = some f ∧ node.leftChild = asUsize l.1 ∧ node.rightChild = asUsize r.1 ∧
      node.featureIndex = f.1)

namespace ReadFrom

variable {tree : DecisionTree K} {left right feature : List Json.I32}

theorem holds_iff (h : ReadFrom tree left right feature) :
    (∃ t, tree.Holds t) ↔ WalksEnd (arrayChildren left right) 0 := by
  have hchildren : (fun j => (tree.view j).map childrenOf) = arrayChildren left right := by
    funext i
    rcases Nat.lt_or_ge i tree.nodes.length with hlt | hge
    · have hnode : tree.nodes[i]? = some tree.nodes[i] := List.getElem?_eq_getElem hlt
      obtain ⟨l, hl, hleaf, hsplit⟩ := h.node i _ hnode
      rw [DecisionTree.view, hnode, arrayChildren, hl]
      by_cases hone : l.1 = -1
      · simp [hone, hleaf hone, TreeNode.view, childrenOf]
      · obtain ⟨hnot, r, f, hr, -, hleft, hright, -⟩ := hsplit hone
        simp [hone, hnot, hr, hleft, hright, TreeNode.view, childrenOf]
    · rw [view_eq_none hge, arrayChildren, List.getElem?_eq_none (by rwa [← h.length])]
      rfl
  rw [← hchildren]
  exact exists_unfolds_iff

theorem inBounds_iff (h : ReadFrom tree left right feature) {numFeatures : ℕ} :
    InBounds tree numFeatures ↔ IndicesBelow left right feature numFeatures := by
  constructor
  · intro hbounds i l r f hl hne hr hf
    have hlt : i < tree.nodes.length := by
      rw [h.length]
      exact (List.getElem?_eq_some_iff.mp hl).1
    obtain ⟨l', hl', -, hsplit⟩ := h.node i _ (List.getElem?_eq_getElem hlt)
    obtain rfl : l = l' := Option.some.inj (hl.symm.trans hl')
    obtain ⟨hnot, r', f', hr', hf', hleft, hright, hfeature⟩ := hsplit hne
    obtain rfl : r = r' := Option.some.inj (hr.symm.trans hr')
    obtain rfl : f = f' := Option.some.inj (hf.symm.trans hf')
    have hnode := hbounds _ (List.getElem_mem hlt) hnot
    rwa [hleft, hright, hfeature, h.length] at hnode
  · intro hbelow node hmem hnot
    obtain ⟨i, hi⟩ := List.mem_iff_getElem?.mp hmem
    obtain ⟨l, hl, hleaf, hsplit⟩ := h.node i node hi
    have hne : l.1 ≠ -1 := by
      intro hone
      rw [hleaf hone] at hnot
      cases hnot
    obtain ⟨-, r, f, hr, hf, hleft, hright, hfeature⟩ := hsplit hne
    rw [hleft, hright, hfeature, h.length]
    exact hbelow i l r f hl hne hr hf

end ReadFrom

theorem lt_length_iff {α : Type} {xs : List α} {i : ℕ} :
    i < xs.length ↔ ∃ a, xs[i]? = some a :=
  ⟨fun h => ⟨_, List.getElem?_eq_getElem h⟩, fun ⟨_, h⟩ => (List.getElem?_eq_some_iff.mp h).1⟩

/-! ## `parse_xgboost_json` -/

/-- The arrays reach as far as the node loop reads them. -/
def ArraysReach (tree : XgbTree K) : Prop :=
  ∀ (i : ℕ) (l : Json.I32), tree.leftChildren[i]? = some l →
    if l.1 = -1 then i < tree.baseWeights.length
    else i < tree.splitIndices.length ∧ i < tree.splitConditions.length ∧
      i < tree.rightChildren.length

/-- The prover reads the tree and finds its depth. -/
def ReadsToLeaves (tree : XgbTree K) : Prop :=
  ArraysReach tree ∧ WalksEnd (arrayChildren tree.leftChildren tree.rightChildren) 0

section Xgboost

variable [Zero K]

theorem xgbNode_eq_some_iff {tree : XgbTree K} {i : ℕ} {l : Json.I32}
    (hl : tree.leftChildren[i]? = some l) :
    (∃ node, xgbNode tree i = some node) ↔
      if l.1 = -1 then i < tree.baseWeights.length
      else i < tree.splitIndices.length ∧ i < tree.splitConditions.length ∧
        i < tree.rightChildren.length := by
  rw [xgbNode, hl]
  simp only [bind, Option.bind_some]
  split_ifs with hone
  · simp only [Option.bind_eq_some_iff, lt_length_iff]
    constructor
    · rintro ⟨_, weight, hweight, _⟩
      exact ⟨weight, hweight⟩
    · rintro ⟨weight, hweight⟩
      exact ⟨_, weight, hweight, rfl⟩
  · simp only [Option.bind_eq_some_iff, lt_length_iff]
    constructor
    · rintro ⟨_, f, hf, c, hc, r, hr, _⟩
      exact ⟨⟨f, hf⟩, ⟨c, hc⟩, r, hr⟩
    · rintro ⟨⟨f, hf⟩, ⟨c, hc⟩, r, hr⟩
      exact ⟨_, f, hf, c, hc, r, hr, rfl⟩

theorem xgbNodes_eq_some_iff {tree : XgbTree K} :
    (∃ nodes, xgbNodes tree = some nodes) ↔ ArraysReach tree := by
  have hlist : (∃ nodes, xgbNodes tree = some nodes) ↔
      ∃ list, (List.range tree.leftChildren.length).mapM (xgbNode tree) = some list := by
    simp only [xgbNodes, bind, Option.bind_eq_some_iff]
    constructor
    · rintro ⟨_, list, hlist, _⟩
      exact ⟨list, hlist⟩
    · rintro ⟨list, hlist⟩
      exact ⟨_, list, hlist, rfl⟩
  rw [hlist, exists_mapM_eq_some_iff]
  constructor
  · intro h i l hl
    exact (xgbNode_eq_some_iff hl).mp
      (h i (List.mem_range.mpr (List.getElem?_eq_some_iff.mp hl).1))
  · intro h i hi
    have hl := List.getElem?_eq_getElem (List.mem_range.mp hi)
    exact (xgbNode_eq_some_iff hl).mpr (h i _ hl)

theorem xgbNodes_readFrom {tree : XgbTree K} {nodes : DecisionTree K}
    (h : xgbNodes tree = some nodes) :
    ReadFrom nodes tree.leftChildren tree.rightChildren tree.splitIndices := by
  simp only [xgbNodes, bind, Option.bind_eq_some_iff] at h
  obtain ⟨list, hlist, h⟩ := h
  cases h
  obtain ⟨hlength, hnodes⟩ := forall₂_range_getElem? (mapM_eq_some.mp hlist)
  refine ⟨hlength, fun i node hnode => ?_⟩
  have hread := hnodes i node hnode
  simp only [xgbNode, bind, Option.bind_eq_some_iff] at hread
  obtain ⟨l, hl, hread⟩ := hread
  refine ⟨l, hl, fun hone => ?_, fun hne => ?_⟩
  · rw [if_pos hone, Option.bind_eq_some_iff] at hread
    obtain ⟨weight, -, hread⟩ := hread
    cases hread
    rfl
  · simp only [if_neg hne, Option.bind_eq_some_iff] at hread
    obtain ⟨f, hf, c, -, r, hr, hread⟩ := hread
    cases hread
    exact ⟨rfl, r, f, hr, hf, rfl, rfl, rfl⟩

/-- What the node loop and `tree_depth` do with a tree that has nodes. -/
theorem xgbTree_cases {ti : XgbTree K × ℕ} (hne : ti.1.leftChildren ≠ []) :
    (ReadsToLeaves ti.1 ∧ ∃ tree depth, xgbTree ti = .ok (tree, depth) ∧
      ReadFrom tree ti.1.leftChildren ti.1.rightChildren ti.1.splitIndices) ∨
    (¬ ReadsToLeaves ti.1 ∧ xgbTree ti = .error .panics) := by
  have hlength : ti.1.leftChildren.length ≠ 0 := fun h => hne (List.length_eq_zero_iff.mp h)
  rw [xgbTree, decide_eq_true hlength, require_true, ok_bind]
  cases hnodes : xgbNodes ti.1 with
  | none =>
    refine .inr ⟨fun hreads => ?_, rfl⟩
    obtain ⟨tree, htree⟩ := xgbNodes_eq_some_iff.mpr hreads.1
    rw [hnodes] at htree
    cases htree
  | some tree =>
    have hread := xgbNodes_readFrom hnodes
    have hreach := xgbNodes_eq_some_iff.mp ⟨tree, hnodes⟩
    cases hdepth : treeDepth tree with
    | none =>
      refine .inr ⟨fun hreads => ?_, by simp [orError, hdepth]⟩
      obtain ⟨d, hd⟩ := exists_treeDepth_iff.mpr (hread.holds_iff.mpr hreads.2)
      rw [hdepth] at hd
      cases hd
    | some depth =>
      refine .inl ⟨⟨hreach, hread.holds_iff.mp (exists_treeDepth_iff.mp ⟨depth, hdepth⟩)⟩, tree,
        depth, ?_, hread⟩
      simp [orError, hdepth]

end Xgboost

section Documents

variable [Field K] [LinearOrder K]

/-- The prover's XGBoost parser does not panic, and the trees that it accepts are usable. -/
def XgboostUsable (json : Json K) : Prop :=
  parseXgboostJson json ≠ .error .panics ∧
    ∀ model, parseXgboostJson json = .ok model →
      ∀ tree ∈ model.trees, Usable tree model.numFeatures

/-- Up to the first tree without nodes, the arrays of each tree reach as far as they are read and
its children lead to leaves; and if all trees have nodes, all indices are in bounds. -/
def XgboostConsistent (json : Json K) : Prop :=
  ∀ (raw : XgbJsonModel K) (header : ModelHeader K), readXgbJsonModel json = some raw →
    parseHeader raw.learnerModelParam = .ok header →
    GoodUntil (fun tree => tree.leftChildren ≠ []) ReadsToLeaves raw.trees ∧
      ((∀ tree ∈ raw.trees, tree.leftChildren ≠ []) → ∀ tree ∈ raw.trees,
        IndicesBelow tree.leftChildren tree.rightChildren tree.splitIndices header.numFeatures)

theorem orError_ne {α : Type} {e e' : ModelError} (hne : e' ≠ e) (x : Option α) :
    orError e' x ≠ .error e := by
  cases x with
  | none => exact fun h => hne (Except.error.inj h)
  | some a => exact fun h => (by cases h)

omit [LinearOrder K] in
theorem parseHeader_ne_panics (param : XgbModelParam) :
    (parseHeader param : Except ModelError (ModelHeader K)) ≠ .error .panics := by
  refine bind_ne_error (orError_ne (by decide) _) fun numFeatures => ?_
  refine bind_ne_error ?_ fun numClasses => ?_
  · rw [parseNumClass]
    split_ifs
    · exact fun h => (by cases h)
    · exact orError_ne (by decide) _
  · exact bind_ne_error (orError_ne (by decide) _) fun baseScore h => (by cases h)

omit [Field K] in
/-- A loop over the trees, and the model made of what it returns. -/
theorem assembled_iff {ε : Type} {e : ε} {x : Except ε (List (DecisionTree K × ℕ))}
    {header : ModelHeader K} :
    (x >>= fun trees => pure (assemble header trees)) ≠ .error e ∧
        (∀ model, (x >>= fun trees => pure (assemble header trees)) = .ok model →
          ∀ tree ∈ model.trees, Usable tree model.numFeatures) ↔
      x ≠ .error e ∧ ∀ bs, x = .ok bs → ∀ b ∈ bs, Usable b.1 header.numFeatures := by
  cases x with
  | error e' =>
    constructor
    · rintro ⟨h, -⟩
      exact ⟨fun heq => h (by cases heq; rfl), fun bs hbs => (by cases hbs)⟩
    · rintro ⟨h, -⟩
      exact ⟨fun heq => h (by cases heq; rfl), fun model hmodel => (by cases hmodel)⟩
  | ok trees =>
    constructor
    · rintro ⟨-, h⟩
      refine ⟨fun h => (by cases h), fun bs hbs b hb => ?_⟩
      cases hbs
      exact h _ rfl b.1 (List.mem_map_of_mem hb)
    · rintro ⟨-, h⟩
      refine ⟨fun h => (by cases h), fun model hmodel tree htree => ?_⟩
      cases hmodel
      obtain ⟨b, hb, rfl⟩ := List.mem_map.mp htree
      exact h trees rfl b hb

theorem xgboost_loop_iff (trees : List (XgbTree K)) (numFeatures : ℕ) :
    (trees.zipIdx.mapM xgbTree ≠ .error .panics ∧
        ∀ bs, trees.zipIdx.mapM xgbTree = .ok bs → ∀ b ∈ bs, Usable b.1 numFeatures) ↔
      GoodUntil (fun tree => tree.leftChildren ≠ []) ReadsToLeaves trees ∧
        ((∀ tree ∈ trees, tree.leftChildren ≠ []) → ∀ tree ∈ trees,
          IndicesBelow tree.leftChildren tree.rightChildren tree.splitIndices numFeatures) := by
  have hempty : ∀ ti : XgbTree K × ℕ, ti.1.leftChildren = [] →
      xgbTree ti = .error (.noNodes ti.2) := by
    intro ti hnil
    rw [xgbTree, hnil]
    rfl
  refine numbered_loop_iff (fun ti => ?_) (fun ti => ?_) fun ti b hb => ?_
  · by_cases hnil : ti.1.leftChildren = []
    · rw [hempty ti hnil]
      refine iff_of_false ?_ fun h => h.1 hnil
      rintro ⟨b, hb⟩
      cases hb
    · rcases xgbTree_cases hnil with ⟨hreads, tree, depth, hti, -⟩ | ⟨hnot, hti⟩
      · exact ⟨fun _ => ⟨hnil, hreads⟩, fun _ => ⟨_, hti⟩⟩
      · rw [hti]
        refine iff_of_false ?_ fun h => hnot h.2
        rintro ⟨b, hb⟩
        cases hb
  · by_cases hnil : ti.1.leftChildren = []
    · rw [hempty ti hnil]
      exact ⟨fun _ h => absurd hnil h, fun _ h => (by cases h)⟩
    · rcases xgbTree_cases hnil with ⟨hreads, tree, depth, hti, -⟩ | ⟨hnot, hti⟩
      · rw [hti]
        exact ⟨fun _ _ => hreads, fun _ h => (by cases h)⟩
      · rw [hti]
        exact ⟨fun h => absurd rfl h, fun h => absurd (h hnil) hnot⟩
  · have hnil : ti.1.leftChildren ≠ [] := by
      intro hnil
      rw [hempty ti hnil] at hb
      cases hb
    rcases xgbTree_cases hnil with ⟨hreads, tree, depth, hti, hread⟩ | ⟨hnot, hti⟩
    · rw [hti] at hb
      cases hb
      rw [usable_iff, hread.inBounds_iff]
      exact and_iff_right (hread.holds_iff.mpr hreads.2)
    · rw [hti] at hb
      cases hb

theorem xgboost_usable_iff (json : Json K) : XgboostUsable json ↔ XgboostConsistent json := by
  rw [XgboostUsable, XgboostConsistent, parseXgboostJson]
  cases hraw : readXgbJsonModel json with
  | none =>
    refine ⟨fun _ raw header h => (by cases h), fun _ => ⟨fun h => (by cases h), ?_⟩⟩
    intro model h
    cases h
  | some raw =>
    rw [orError, ok_bind]
    cases hheader : (parseHeader raw.learnerModelParam : Except ModelError (ModelHeader K)) with
    | error e =>
      refine ⟨fun _ raw' header h h' => ?_, fun _ => ⟨fun h => ?_, fun model h => (by cases h)⟩⟩
      · cases h
        rw [hheader] at h'
        cases h'
      · rw [error_bind, Except.error.injEq] at h
        exact parseHeader_ne_panics raw.learnerModelParam (h ▸ hheader)
    | ok header =>
      rw [ok_bind, assembled_iff, xgboost_loop_iff]
      constructor
      · rintro h raw' header' hraw' hheader'
        cases hraw'
        rw [hheader, Except.ok.injEq] at hheader'
        rw [← hheader']
        exact h
      · intro h
        exact h raw header rfl hheader

end Documents

/-! ## `parse_random_forest_json` -/

/-- A tree that `convert_sklearn_tree` takes: all arrays have the same length, and the leaves have a
count for every class. -/
structure Convertible (nClasses : ℕ) (raw : RawSklearnTree K) : Prop where
  nodes : raw.childrenLeft ≠ []
  right : raw.childrenRight.length = raw.childrenLeft.length
  feature : raw.feature.length = raw.childrenLeft.length
  threshold : raw.threshold.length = raw.childrenLeft.length
  value : raw.value.length = raw.childrenLeft.length
  counts : ∀ (i : ℕ) (l : Json.I32) (counts : List K), raw.childrenLeft[i]? = some l → l.1 = -1 →
    raw.value[i]? = some counts → nClasses ≤ counts.length

section Forests

variable [Field K] [LinearOrder K] [FloorRing K] {raw : RawSklearnTree K} {nClasses treeIdx : ℕ}

theorem computeLeafValue_eq_ok_iff {counts : List K} {nodeIdx : ℕ} :
    (∃ v, computeLeafValue counts nClasses treeIdx nodeIdx = .ok v) ↔
      nClasses ≤ counts.length := by
  rw [computeLeafValue]
  simp only [bind_eq_ok, require_eq_ok, decide_eq_true_eq]
  constructor
  · rintro ⟨_, _, h, _⟩
    exact h
  · intro h
    exact ⟨_, (), h, rfl⟩

theorem computeLeafValue_ne_panics {counts : List K} {nodeIdx : ℕ} :
    computeLeafValue counts nClasses treeIdx nodeIdx ≠ .error .panics := by
  refine bind_ne_error ?_ fun _ h => (by cases h)
  cases decide (nClasses ≤ counts.length) <;> exact fun h => (by cases h)

/-- With arrays of one length a round of the node loop ends, well for a split, and for a leaf with
enough counts. -/
theorem sklearnNode_cases {i : ℕ} (hi : i < raw.childrenLeft.length)
    (hright : raw.childrenRight.length = raw.childrenLeft.length)
    (hfeature : raw.feature.length = raw.childrenLeft.length)
    (hthreshold : raw.threshold.length = raw.childrenLeft.length)
    (hvalue : raw.value.length = raw.childrenLeft.length) :
    sklearnNode raw nClasses treeIdx i ≠ .error .panics ∧
      ((∃ node, sklearnNode raw nClasses treeIdx i = .ok node) ↔
        ∀ (l : Json.I32) (counts : List K), raw.childrenLeft[i]? = some l → l.1 = -1 →
          raw.value[i]? = some counts → nClasses ≤ counts.length) := by
  rw [sklearnNode, List.getElem?_eq_getElem hi, okOr, ok_bind]
  split_ifs with hone
  · rw [List.getElem?_eq_getElem (by rwa [hvalue]), okOr, ok_bind]
    constructor
    · exact bind_ne_error computeLeafValue_ne_panics fun v h => (by cases h)
    · simp only [bind_eq_ok, pure_eq_ok, Option.some.injEq]
      constructor
      · rintro ⟨_, v, hv, -⟩ l counts - - rfl
        exact computeLeafValue_eq_ok_iff.mp ⟨v, hv⟩
      · intro h
        obtain ⟨v, hv⟩ := @computeLeafValue_eq_ok_iff K _ _ _ nClasses treeIdx _ i |>.mpr
          (h _ _ rfl hone rfl)
        exact ⟨_, v, hv, rfl⟩
  · rw [List.getElem?_eq_getElem (by rwa [hfeature]), List.getElem?_eq_getElem (by rwa [hthreshold]),
      List.getElem?_eq_getElem (by rwa [hright])]
    refine ⟨fun h => (by cases h), fun _ l counts hl hl' => ?_, fun _ => ⟨_, rfl⟩⟩
    rw [← Option.some.inj hl] at hl'
    exact absurd hl' hone

theorem convertSklearnTree_readFrom {tree : DecisionTree K}
    (h : convertSklearnTree raw nClasses treeIdx = .ok tree) :
    ReadFrom tree raw.childrenLeft raw.childrenRight raw.feature := by
  simp only [convertSklearnTree, bind_eq_ok, pure_eq_ok] at h
  obtain ⟨_, -, _, -, list, hlist, rfl⟩ := h
  obtain ⟨hlength, hnodes⟩ := forall₂_range_getElem? (mapM_eq_ok.mp hlist)
  refine ⟨hlength, fun i node hnode => ?_⟩
  have hread := hnodes i node hnode
  simp only [sklearnNode, bind_eq_ok, okOr_eq_ok] at hread
  obtain ⟨l, hl, hread⟩ := hread
  refine ⟨l, hl, fun hone => ?_, fun hne => ?_⟩
  · simp only [if_pos hone, bind_eq_ok, pure_eq_ok] at hread
    obtain ⟨_, -, v, -, rfl⟩ := hread
    rfl
  · simp only [if_neg hne, bind_eq_ok, okOr_eq_ok, pure_eq_ok] at hread
    obtain ⟨f, hf, c, -, r, hr, rfl⟩ := hread
    exact ⟨rfl, r, f, hr, hf, rfl, rfl, rfl⟩

/-- The conversion never panics, and it ends well for the convertible trees. -/
theorem convertSklearnTree_cases : convertSklearnTree raw nClasses treeIdx ≠ .error .panics ∧
    ((∃ tree, convertSklearnTree raw nClasses treeIdx = .ok tree) ↔ Convertible nClasses raw) := by
  rw [convertSklearnTree]
  by_cases hnil : raw.childrenLeft.length = 0
  · rw [hnil, decide_eq_false (not_not_intro rfl)]
    refine ⟨fun h => (by cases h), fun ⟨tree, h⟩ => (by cases h), fun h => ?_⟩
    exact absurd (List.length_eq_zero_iff.mp hnil) h.nodes
  rw [decide_eq_true hnil, require_true, ok_bind]
  by_cases hlengths : raw.childrenRight.length = raw.childrenLeft.length ∧
      raw.feature.length = raw.childrenLeft.length ∧
      raw.threshold.length = raw.childrenLeft.length ∧ raw.value.length = raw.childrenLeft.length
  · obtain ⟨hright, hfeature, hthreshold, hvalue⟩ := hlengths
    rw [decide_eq_true ⟨hright, hfeature, hthreshold, hvalue⟩, require_true, ok_bind]
    have hnode := fun i hi => @sklearnNode_cases K _ _ _ raw nClasses treeIdx i hi hright hfeature
      hthreshold hvalue
    constructor
    · refine bind_ne_error (mapM_ne_error fun i hi => ?_) fun list h => (by cases h)
      exact (hnode i (List.mem_range.mp hi)).1
    · have hlist : (∃ tree : DecisionTree K, ((List.range raw.childrenLeft.length).mapM
          (sklearnNode raw nClasses treeIdx) >>= fun nodes => pure ⟨nodes⟩) = .ok tree) ↔
          ∃ list, (List.range raw.childrenLeft.length).mapM
            (sklearnNode raw nClasses treeIdx) = .ok list := by
        simp only [bind_eq_ok]
        constructor
        · rintro ⟨_, list, hlist, _⟩
          exact ⟨list, hlist⟩
        · rintro ⟨list, hlist⟩
          exact ⟨_, list, hlist, rfl⟩
      rw [hlist, exists_mapM_eq_ok_iff]
      constructor
      · intro h
        refine ⟨fun h => hnil (List.length_eq_zero_iff.mpr h), hright, hfeature, hthreshold,
          hvalue, fun i l counts hl hone hcounts => ?_⟩
        have hi : i < raw.childrenLeft.length := (List.getElem?_eq_some_iff.mp hl).1
        exact (hnode i hi).2.mp (h i (List.mem_range.mpr hi)) l counts hl hone hcounts
      · intro h i hi
        exact (hnode i (List.mem_range.mp hi)).2.mpr fun l counts => h.counts i l counts
  · rw [decide_eq_false hlengths]
    refine ⟨fun h => (by cases h), fun ⟨tree, h⟩ => (by cases h), fun h => ?_⟩
    exact absurd ⟨h.right, h.feature, h.threshold, h.value⟩ hlengths

/-- The forest parser does not panic, and the trees that it accepts are usable. -/
def ForestUsable (json : Json K) : Prop :=
  parseRandomForestJson json ≠ .error .panics ∧
    ∀ model, parseRandomForestJson json = .ok model →
      ∀ tree ∈ model.trees, Usable tree model.numFeatures

/-- Up to the first tree that is not convertible, the children of each tree lead to leaves; and if
all trees are convertible, all indices are in bounds. -/
def ForestConsistent (json : Json K) : Prop :=
  ∀ raw : RawRandomForest K, readRawRandomForest json = some raw → checkForest raw = .ok () →
    GoodUntil (Convertible raw.nClasses)
        (fun tree => WalksEnd (arrayChildren tree.childrenLeft tree.childrenRight) 0) raw.trees ∧
      ((∀ tree ∈ raw.trees, Convertible raw.nClasses tree) → ∀ tree ∈ raw.trees,
        IndicesBelow tree.childrenLeft tree.childrenRight tree.feature raw.nFeatures)

theorem forest_loop_iff (trees : List (RawSklearnTree K)) (nClasses numFeatures : ℕ) :
    (trees.zipIdx.mapM (forestTree nClasses) ≠ .error .panics ∧
        ∀ bs, trees.zipIdx.mapM (forestTree nClasses) = .ok bs →
          ∀ b ∈ bs, Usable b.1 numFeatures) ↔
      GoodUntil (Convertible nClasses)
          (fun tree => WalksEnd (arrayChildren tree.childrenLeft tree.childrenRight) 0) trees ∧
        ((∀ tree ∈ trees, Convertible nClasses tree) → ∀ tree ∈ trees,
          IndicesBelow tree.childrenLeft tree.childrenRight tree.feature numFeatures) := by
  -- a tree that is not convertible is refused, and otherwise `tree_depth` decides
  have hcases : ∀ ti : RawSklearnTree K × ℕ,
      (¬ Convertible nClasses ti.1 ∧ forestTree nClasses ti ≠ .error .panics ∧
        ¬ ∃ b, forestTree nClasses ti = .ok b) ∨
      (Convertible nClasses ti.1 ∧ ∃ tree,
        ReadFrom tree ti.1.childrenLeft ti.1.childrenRight ti.1.feature ∧
        forestTree nClasses ti =
          okOr .panics ((treeDepth tree).map fun depth => (tree, depth))) := by
    intro ti
    obtain ⟨hne, hok⟩ := @convertSklearnTree_cases K _ _ _ ti.1 nClasses ti.2
    cases hconvert : convertSklearnTree ti.1 nClasses ti.2 with
    | error e =>
      refine .inl ⟨fun h => ?_, ?_, ?_⟩
      · obtain ⟨tree, htree⟩ := hok.mpr h
        rw [hconvert] at htree
        cases htree
      · rw [forestTree, hconvert, error_bind]
        rw [hconvert] at hne
        exact fun h => hne (by cases h; rfl)
      · rw [forestTree, hconvert, error_bind]
        rintro ⟨b, hb⟩
        cases hb
    | ok tree =>
      refine .inr ⟨hok.mp ⟨tree, hconvert⟩, tree, convertSklearnTree_readFrom hconvert, ?_⟩
      rw [forestTree, hconvert, ok_bind]
      cases treeDepth tree <;> rfl
  refine numbered_loop_iff (fun ti => ?_) (fun ti => ?_) fun ti b hb => ?_
  · rcases hcases ti with ⟨hnot, -, herror⟩ | ⟨hconvertible, tree, hread, hti⟩
    · exact iff_of_false herror fun h => hnot h.1
    · rw [hti, and_iff_right hconvertible, ← hread.holds_iff, ← exists_treeDepth_iff]
      simp only [okOr_eq_ok, Option.map_eq_some_iff]
      constructor
      · rintro ⟨_, d, hd, _⟩
        exact ⟨d, hd⟩
      · rintro ⟨d, hd⟩
        exact ⟨_, d, hd, rfl⟩
  · rcases hcases ti with ⟨hnot, hne, -⟩ | ⟨hconvertible, tree, hread, hti⟩
    · exact iff_of_true hne fun h => absurd h hnot
    · rw [hti, ← hread.holds_iff, ← exists_treeDepth_iff]
      cases hdepth : treeDepth tree with
      | none =>
        refine iff_of_false (fun h => h rfl) fun h => ?_
        obtain ⟨d, hd⟩ := h hconvertible
        cases hd
      | some d => exact iff_of_true (fun h => (by cases h)) fun _ => ⟨d, rfl⟩
  · rcases hcases ti with ⟨-, -, herror⟩ | ⟨-, tree, hread, hti⟩
    · exact absurd ⟨b, hb⟩ herror
    · rw [hti, okOr_eq_ok, Option.map_eq_some_iff] at hb
      obtain ⟨d, hd, rfl⟩ := hb
      rw [usable_iff, hread.inBounds_iff]
      exact and_iff_right (exists_treeDepth_iff.mp ⟨d, hd⟩)

omit [Field K] [LinearOrder K] [FloorRing K] in
theorem checkForest_ne_panics (raw : RawRandomForest K) : checkForest raw ≠ .error .panics := by
  have hrequire : ∀ (c : Bool) (e : ForestError), e ≠ .panics → require c e ≠ .error .panics := by
    intro c e he
    cases c
    · exact fun h => he (Except.error.inj h)
    · exact fun h => (by cases h)
  refine bind_ne_error (hrequire _ _ (by simp)) fun _ => ?_
  refine bind_ne_error (hrequire _ _ (by simp)) fun _ => ?_
  exact bind_ne_error (hrequire _ _ (by simp)) fun _ => hrequire _ _ (by simp)

theorem forest_usable_iff (json : Json K) : ForestUsable json ↔ ForestConsistent json := by
  rw [ForestUsable, ForestConsistent, parseRandomForestJson]
  cases hraw : readRawRandomForest json with
  | none =>
    refine ⟨fun _ raw h => (by cases h), fun _ => ⟨fun h => (by cases h), ?_⟩⟩
    intro model h
    cases h
  | some raw =>
    rw [okOr, ok_bind]
    cases hcheck : checkForest raw with
    | error e =>
      refine ⟨fun _ raw' h h' => ?_, fun _ => ⟨fun h => ?_, fun model h => (by cases h)⟩⟩
      · cases h
        rw [hcheck] at h'
        cases h'
      · rw [error_bind, Except.error.injEq] at h
        exact checkForest_ne_panics raw (h ▸ hcheck)
    | ok u =>
      rw [ok_bind, assembled_iff]
      refine (forest_loop_iff raw.trees raw.nClasses raw.nFeatures).trans ?_
      constructor
      · rintro h raw' hraw' -
        cases hraw'
        exact h
      · intro h
        exact h raw rfl hcheck

end Forests

/-! ## The enclave's `parse_xgboost` -/

section Enclave

open EnclaveModel (EnclaveTree EnclaveEnsemble ofXgbTree keepXgbTree parseXgboost)
open EnclaveAgreement (view)

/-- All children and features of the splits are there. -/
def EnclaveInBounds (tree : EnclaveTree K) (numFeatures : ℕ) : Prop :=
  ∀ (i : ℕ) (l : ℤ), tree.leftChildren[i]? = some l → l ≠ -1 →
    asUsize l < tree.leftChildren.length ∧
    (∃ r, tree.rightChildren[i]? = some r ∧ asUsize r < tree.leftChildren.length) ∧
    ∃ f, tree.splitIndices[i]? = some f ∧ f < numFeatures

section Walks

variable [LinearOrder K] {tree : EnclaveTree K} {numFeatures : ℕ}

/-- All traversals end, without an index that is out of bounds. -/
structure EnclaveUsable (tree : EnclaveTree K) (numFeatures : ℕ) : Prop where
  traverse : ∀ features : List K, features.length = numFeatures →
    ∃ value, EnclaveModel.traverseTree tree features = some value
  inBounds : EnclaveInBounds tree numFeatures

theorem traverseFrom_eq_walk (hbounds : EnclaveInBounds tree numFeatures) (features : List K)
    (rounds i : ℕ) :
    EnclaveModel.traverseFrom tree features rounds i = walk (view tree) features rounds i := by
  induction rounds generalizing i with
  | zero => rfl
  | succ rounds ih =>
    rw [EnclaveModel.traverseFrom, walk, view]
    cases hl : tree.leftChildren[i]? with
    | none => rfl
    | some l =>
      by_cases hone : l = -1
      · cases tree.baseWeights[i]? <;> simp [hone]
      · obtain ⟨-, ⟨r, hr, -⟩, f, hf, -⟩ := hbounds i l hl hone
        cases tree.splitConditions[i]? with
        | none => simp [hone, hf]
        | some c =>
          cases hx : features[f]? with
          | none => simp [hone, hf, hr, hx]
          | some x =>
            by_cases hlt : x < c <;> simp [hone, hf, hr, hx, hlt, ih]

/-- The traversals end exactly if the feasible walks through the arrays do. -/
theorem enclaveUsable_iff [NoMinOrder K] [Nonempty K] :
    EnclaveUsable tree numFeatures ↔
      EnclaveInBounds tree numFeatures ∧ FeasibleEnd (view tree) numFeatures [] 0 := by
  have hview : ∀ j, tree.leftChildren.length ≤ j → view tree j = none := by
    intro j hj
    rw [view, List.getElem?_eq_none hj]
    rfl
  constructor
  · rintro ⟨htraverse, hbounds⟩
    refine ⟨hbounds, (walks_end_iff hview).mp fun features hlength => ?_⟩
    obtain ⟨value, hvalue⟩ := htraverse features hlength
    exact ⟨value, (traverseFrom_eq_walk hbounds features _ _).symm.trans hvalue⟩
  · rintro ⟨hbounds, hend⟩
    refine ⟨fun features hlength => ?_, hbounds⟩
    obtain ⟨value, hvalue⟩ := (walks_end_iff hview).mpr hend features hlength
    exact ⟨value, (traverseFrom_eq_walk hbounds features _ _).trans hvalue⟩

end Walks

variable [Field K] [LinearOrder K] [IsStrictOrderedRing K]

/-- The enclave's XGBoost parser does not panic, and the trees that it accepts are usable. -/
def EnclaveParserUsable (json : Json K) : Prop :=
  parseXgboost json ≠ .error .panics ∧
    ∀ model, parseXgboost json = .ok model →
      ∀ tree ∈ model.trees, EnclaveUsable tree model.numFeatures

/-- If all trees have nodes, all indices are in bounds and all feasible walks end in leaves. -/
def EnclaveConsistent (json : Json K) : Prop :=
  ∀ (raw : XgbJsonModel K) (header : ModelHeader K), readXgbJsonModel json = some raw →
    parseHeader raw.learnerModelParam = .ok header →
    (∀ tree ∈ raw.trees, tree.leftChildren ≠ []) → ∀ tree ∈ raw.trees,
      EnclaveInBounds (ofXgbTree tree) header.numFeatures ∧
        FeasibleEnd (view (ofXgbTree tree)) header.numFeatures [] 0

omit [Field K] [LinearOrder K] [IsStrictOrderedRing K] in
theorem keepXgbTree_eq (ti : XgbTree K × ℕ) : keepXgbTree ti =
    if ti.1.leftChildren = [] then .error (.noNodes ti.2) else .ok (ofXgbTree ti.1) := by
  rw [keepXgbTree]
  split_ifs with hnil
  · rw [hnil]
    rfl
  · have hlength : ti.1.leftChildren.length ≠ 0 := fun h => hnil (List.length_eq_zero_iff.mp h)
    rw [decide_eq_true hlength]
    rfl

theorem enclave_loop_iff (trees : List (XgbTree K)) (numFeatures : ℕ) :
    (trees.zipIdx.mapM keepXgbTree ≠ .error .panics ∧
        ∀ bs, trees.zipIdx.mapM keepXgbTree = .ok bs → ∀ b ∈ bs, EnclaveUsable b numFeatures) ↔
      ((∀ tree ∈ trees, tree.leftChildren ≠ []) → ∀ tree ∈ trees,
        EnclaveInBounds (ofXgbTree tree) numFeatures ∧
          FeasibleEnd (view (ofXgbTree tree)) numFeatures [] 0) := by
  have hloop := @numbered_loop_iff ModelError (XgbTree K) _ keepXgbTree .panics
    (fun tree => tree.leftChildren ≠ []) (fun _ => True)
    (fun tree => EnclaveInBounds (ofXgbTree tree) numFeatures ∧
      FeasibleEnd (view (ofXgbTree tree)) numFeatures [] 0)
    (fun b => EnclaveUsable b numFeatures)
    (fun ti => by
      rw [keepXgbTree_eq, and_true]
      split_ifs with hnil
      · exact iff_of_false (fun ⟨b, hb⟩ => (by cases hb)) fun h => h hnil
      · exact iff_of_true ⟨_, rfl⟩ hnil)
    (fun ti => by
      rw [keepXgbTree_eq]
      refine iff_of_true ?_ fun _ => trivial
      split_ifs <;> exact fun h => (by cases h))
    (fun ti b hb => by
      rw [keepXgbTree_eq] at hb
      split_ifs at hb
      cases hb
      exact enclaveUsable_iff) trees
  rw [hloop]
  exact and_iff_right fun _ _ _ _ => trivial

theorem enclave_usable_iff (json : Json K) :
    EnclaveParserUsable json ↔ EnclaveConsistent json := by
  rw [EnclaveParserUsable, EnclaveConsistent, parseXgboost]
  cases hraw : readXgbJsonModel json with
  | none =>
    refine ⟨fun _ raw header h => (by cases h), fun _ => ⟨fun h => (by cases h), ?_⟩⟩
    intro model h
    cases h
  | some raw =>
    rw [orError, ok_bind]
    cases hheader : (parseHeader raw.learnerModelParam : Except ModelError (ModelHeader K)) with
    | error e =>
      refine ⟨fun _ raw' header h h' => ?_, fun _ => ⟨fun h => ?_, fun model h => (by cases h)⟩⟩
      · cases h
        rw [hheader] at h'
        cases h'
      · rw [error_bind, Except.error.injEq] at h
        exact parseHeader_ne_panics raw.learnerModelParam (h ▸ hheader)
    | ok header =>
      rw [ok_bind]
      have hloop := enclave_loop_iff raw.trees header.numFeatures
      constructor
      · rintro ⟨-, h⟩ raw' header' hraw' hheader'
        cases hraw'
        rw [hheader, Except.ok.injEq] at hheader'
        rw [← hheader']
        refine hloop.mp ⟨?_, fun bs hbs b hb => ?_⟩
        · refine mapM_ne_error fun ti _ => ?_
          rw [keepXgbTree_eq]
          split_ifs <;> exact fun h => (by cases h)
        · have hne : bs ≠ [] := List.ne_nil_of_mem hb
          refine h ⟨header.numFeatures, header.numClasses, header.baseScore, bs⟩ ?_ b hb
          rw [hbs, ok_bind, decide_eq_true hne]
          rfl
      · intro h
        obtain ⟨hne, husable⟩ := hloop.mpr (h raw header rfl hheader)
        refine ⟨bind_ne_error hne fun bs => bind_ne_error ?_ fun _ h => (by cases h), ?_⟩
        · cases decide (bs ≠ []) <;> exact fun h => (by cases h)
        · intro model hmodel tree htree
          simp only [bind_eq_ok, pure_eq_ok] at hmodel
          obtain ⟨bs, hbs, _, -, rfl⟩ := hmodel
          exact husable bs hbs tree htree

end Enclave

/-! ## The three parsers -/

/-- On every document, each of the parsers returns without a panic and with usable trees only
exactly if the arrays of the document are consistent. -/
theorem parsers_usable_iff [Field K] [LinearOrder K] [IsStrictOrderedRing K] [FloorRing K]
    (json : Json K) :
    (XgboostUsable json ↔ XgboostConsistent json) ∧
      (ForestUsable json ↔ ForestConsistent json) ∧
      (EnclaveParserUsable json ↔ EnclaveConsistent json) :=
  ⟨xgboost_usable_iff json, forest_usable_iff json, enclave_usable_iff json⟩

/-- One split on feature 7 in a model of one feature. -/
def strayDocument : Json ℚ :=
  .obj [("learner", .obj [
    ("learner_model_param", .obj [("num_feature", .str "1")]),
    ("gradient_booster", .obj [("model", .obj [("trees", .arr [
      .obj [("left_children", .arr [.int 1, .int (-1), .int (-1)]),
        ("right_children", .arr [.int 2, .int (-1), .int (-1)]),
        ("split_indices", .arr [.int 7, .int 0, .int 0]),
        ("split_conditions", .arr [.int 5, .int 0, .int 0]),
        ("base_weights", .arr [.int 0, .int 1, .int 2])]])])])])]

/-- The parser accepts the document, and the traversal panics on every feature vector. -/
theorem not_xgboostUsable_stray : ¬ XgboostUsable strayDocument := by
  intro h
  obtain ⟨model, hmodel⟩ : ∃ model, parseXgboostJson strayDocument = .ok model := ⟨_, rfl⟩
  have htrees := h.2 model hmodel
  cases hmodel
  obtain ⟨value, hvalue⟩ := (htrees _ List.mem_cons_self).traverse [0] rfl
  cases hvalue

theorem stray_document_inconsistent : ¬ XgboostConsistent strayDocument :=
  fun h => not_xgboostUsable_stray ((parsers_usable_iff strayDocument).1.mpr h)

theorem stray_feature_accepted : ¬ ∀ json : Json ℚ,
    XgboostUsable json ∧ ForestUsable json ∧ EnclaveParserUsable json :=
  fun h => not_xgboostUsable_stray (h strayDocument).1

end WorldZk.UsableTrees
