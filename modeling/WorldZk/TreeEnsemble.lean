import WorldZk.DecisionTrees
import WorldZk.NamedInstances
import Mathlib.Algebra.Order.Floor.Ring
import Mathlib.Algebra.Order.Field.Basic
import Mathlib.Data.List.Forall2

/-!
# Tree ensembles of the prover

`model.rs` of the prover: trees as node tables, the walk through a tree, the class that an ensemble
predicts, and the fixed-point form of its numbers. Numbers are exact, in any ordered field with
integer parts. A result `none` stands for a panic or for a loop that does not end.
-/

namespace WorldZk.TreeEnsemble

open DecisionTrees
open scoped NamedInstances

/-- `i as usize` for a signed index. -/
def asUsize (i : ℤ) : ℕ := (i % 2 ^ 64).toNat

structure TreeNode (K : Type) where
  /-- The feature to split on, `-1` for a leaf. -/
  featureIndex : ℤ
  threshold : K
  leftChild : ℕ
  rightChild : ℕ
  leafValue : K
  isLeaf : Bool
  /-- An index is an `i32`. -/
  featureIndex_range : -2 ^ 31 ≤ featureIndex ∧ featureIndex < 2 ^ 31

theorem zero_range : -2 ^ 31 ≤ (0 : ℤ) ∧ (0 : ℤ) < 2 ^ 31 := by decide

theorem leaf_range : -2 ^ 31 ≤ (-1 : ℤ) ∧ (-1 : ℤ) < 2 ^ 31 := by decide

structure DecisionTree (K : Type) where
  nodes : List (TreeNode K)

structure XgboostModel (K : Type) where
  numFeatures : ℕ
  numClasses : ℕ
  maxDepth : ℕ
  trees : List (DecisionTree K)
  baseScore : K

/-! ## Walking through a tree -/

section Walks

variable {K : Type}

def TreeNode.view (node : TreeNode K) : NodeView K :=
  if node.isLeaf then .leaf node.leafValue
  else .split (asUsize node.featureIndex) node.threshold node.leftChild node.rightChild

def DecisionTree.view (tree : DecisionTree K) (i : ℕ) : Option (NodeView K) :=
  tree.nodes[i]?.map TreeNode.view

/-- The table holds this tree at its root. -/
def DecisionTree.Holds (tree : DecisionTree K) (t : ThresholdTree K) : Prop :=
  Unfolds tree.view 0 t

/-- The recursion of `tree_depth`, to a given depth of the stack. -/
def depthOf (nodes : List (TreeNode K)) : ℕ → ℕ → Option ℕ
  | 0, _ => none
  | fuel + 1, idx => do
    let node ← nodes[idx]?
    if node.isLeaf then pure 0
    else
      let left ← depthOf nodes fuel node.leftChild
      let right ← depthOf nodes fuel node.rightChild
      pure (1 + max left right)

/-- `tree_depth`. A walk that visits more nodes than there are never ends. -/
def treeDepth (tree : DecisionTree K) : Option ℕ := depthOf tree.nodes tree.nodes.length 0

variable [LinearOrder K]

/-- The loop of `traverse_tree`, for a given number of rounds. -/
def traverseFrom (nodes : List (TreeNode K)) (features : List K) : ℕ → ℕ → Option K
  | 0, _ => none
  | fuel + 1, idx => do
    let node ← nodes[idx]?
    if node.isLeaf then pure node.leafValue
    else
      let featureVal ← features[asUsize node.featureIndex]?
      if featureVal < node.threshold then traverseFrom nodes features fuel node.leftChild
      else traverseFrom nodes features fuel node.rightChild

/-- `traverse_tree`. A walk that visits more nodes than there are never ends. -/
def traverseTree (tree : DecisionTree K) (features : List K) : Option K :=
  traverseFrom tree.nodes features tree.nodes.length 0

end Walks

/-! ## Prediction -/

section Prediction

variable {K : Type} [LinearOrder K]

/-- `max_by` over the enumerated scores: of equal scores the last one stays. -/
def maxByScore : List (K × ℕ) → Option (K × ℕ)
  | [] => none
  | s :: rest => some (rest.foldl (fun best x => if x.1 < best.1 then best else x) s)

/-- The class of the largest score. -/
def argmax (scores : List K) : ℕ := ((maxByScore scores.zipIdx).map fun s => s.2 % 2 ^ 32).getD 0

variable [Add K]

/-- The sum over all trees, for one score. -/
def binaryScore (model : XgboostModel K) (features : List K) : Option K :=
  model.trees.foldlM (fun score tree => do
    let value ← traverseTree tree features
    pure (score + value)) model.baseScore

/-- The sums over the trees of each class, which take turns. -/
def classScores (model : XgboostModel K) (features : List K) : Option (List K) :=
  model.trees.zipIdx.foldlM (fun scores ti => do
    let value ← traverseTree ti.1 features
    pure (scores.modify (ti.2 % model.numClasses) (· + value)))
    (List.replicate model.numClasses model.baseScore)

/-- `predict`. -/
def predict [Zero K] (model : XgboostModel K) (features : List K) : Option ℕ :=
  if features.length ≠ model.numFeatures then none
  else if model.numClasses ≤ 2 then do
    let score ← binaryScore model features
    pure (if 0 < score then 1 else 0)
  else do
    let scores ← classScores model features
    pure (argmax scores)

end Prediction

/-! ## Fixed-point numbers -/

section Quantized

variable {K : Type} [Field K] [LinearOrder K] [FloorRing K]

def FIXED_POINT_SCALE : ℕ := 2 ^ 16

/-- `f64::round`: to the nearest integer, halves away from zero. -/
def roundHalfAway (x : K) : ℤ := if 0 ≤ x then ⌊x + 1 / 2⌋ else -⌊-x + 1 / 2⌋

/-- `as i64`, which saturates. -/
def saturateI64 (n : ℤ) : ℤ := max (-2 ^ 63) (min (2 ^ 63 - 1) n)

/-- `quantize`. -/
def quantize (val : K) : ℤ := saturateI64 (roundHalfAway (val * FIXED_POINT_SCALE))

end Quantized

/-! ## Tables that hold a tree -/

section Trees

variable {K : Type} {tree : DecisionTree K} {t : ThresholdTree K}

theorem view_eq_none {i : ℕ} (hi : tree.nodes.length ≤ i) : tree.view i = none := by
  rw [DecisionTree.view, List.getElem?_eq_none hi]
  rfl

theorem DecisionTree.Holds.depth_lt (h : tree.Holds t) : t.depth < tree.nodes.length :=
  Unfolds.depth_lt h fun _ hj => view_eq_none hj

theorem view_eq_leaf {i : ℕ} {value : K} (h : tree.view i = some (.leaf value)) :
    ∃ node, tree.nodes[i]? = some node ∧ node.isLeaf = true ∧ node.leafValue = value := by
  rw [DecisionTree.view, Option.map_eq_some_iff] at h
  obtain ⟨node, hnode, hview⟩ := h
  refine ⟨node, hnode, ?_⟩
  unfold TreeNode.view at hview
  split at hview
  · next hleaf => exact ⟨hleaf, NodeView.leaf.inj hview⟩
  · cases hview

theorem view_eq_split {i feature left right : ℕ} {threshold : K}
    (h : tree.view i = some (.split feature threshold left right)) :
    ∃ node, tree.nodes[i]? = some node ∧ node.isLeaf = false ∧
      asUsize node.featureIndex = feature ∧ node.threshold = threshold ∧
      node.leftChild = left ∧ node.rightChild = right := by
  rw [DecisionTree.view, Option.map_eq_some_iff] at h
  obtain ⟨node, hnode, hview⟩ := h
  refine ⟨node, hnode, ?_⟩
  unfold TreeNode.view at hview
  split at hview
  · cases hview
  · next hleaf => exact ⟨Bool.not_eq_true _ ▸ hleaf, NodeView.split.inj hview⟩

private theorem depthOf_eq {i : ℕ} (h : Unfolds tree.view i t) {fuel : ℕ} (hfuel : t.depth < fuel) :
    depthOf tree.nodes fuel i = some t.depth := by
  induction h generalizing fuel with
  | leaf hview =>
    obtain ⟨node, hnode, hleaf, -⟩ := view_eq_leaf hview
    obtain ⟨fuel, rfl⟩ : ∃ n, fuel = n + 1 := ⟨fuel - 1, by omega⟩
    rw [depthOf, hnode]
    simp [hleaf, ThresholdTree.depth]
  | @split i feature left right threshold leftTree rightTree hview _ _ ihleft ihright =>
    obtain ⟨node, hnode, hleaf, -, -, rfl, rfl⟩ := view_eq_split hview
    obtain ⟨fuel, rfl⟩ : ∃ n, fuel = n + 1 := ⟨fuel - 1, by omega⟩
    have hl := le_max_left leftTree.depth rightTree.depth
    have hr := le_max_right leftTree.depth rightTree.depth
    rw [ThresholdTree.depth] at hfuel ⊢
    rw [depthOf, hnode]
    simp [hleaf, ihleft (show leftTree.depth < fuel by omega),
      ihright (show rightTree.depth < fuel by omega)]

private theorem unfolds_of_depthOf {fuel i d : ℕ} (h : depthOf tree.nodes fuel i = some d) :
    ∃ t, Unfolds tree.view i t := by
  induction fuel generalizing i d with
  | zero => cases h
  | succ fuel ih =>
    simp only [depthOf, bind, Option.bind_eq_some_iff] at h
    obtain ⟨node, hnode, h⟩ := h
    by_cases hleaf : node.isLeaf = true
    · refine ⟨.leaf node.leafValue, .leaf ?_⟩
      rw [DecisionTree.view, hnode, Option.map_some, TreeNode.view, if_pos hleaf]
    · rw [if_neg hleaf, Option.bind_eq_some_iff] at h
      obtain ⟨dl, hl, h⟩ := h
      rw [Option.bind_eq_some_iff] at h
      obtain ⟨dr, hr, -⟩ := h
      obtain ⟨left, hleft⟩ := ih hl
      obtain ⟨right, hright⟩ := ih hr
      refine ⟨.split (asUsize node.featureIndex) node.threshold left right, .split ?_ hleft hright⟩
      rw [DecisionTree.view, hnode, Option.map_some, TreeNode.view, if_neg hleaf]

/-- `tree_depth` returns exactly for the tables that hold a tree, with its depth. -/
theorem treeDepth_eq_some {d : ℕ} : treeDepth tree = some d ↔ ∃ t, tree.Holds t ∧ t.depth = d := by
  constructor
  · intro h
    obtain ⟨t, ht⟩ := unfolds_of_depthOf h
    have hdepth := depthOf_eq ht (DecisionTree.Holds.depth_lt ht)
    exact ⟨t, ht, Option.some.inj (hdepth.symm.trans h)⟩
  · rintro ⟨t, ht, rfl⟩
    exact depthOf_eq ht ht.depth_lt

variable [LinearOrder K]

private theorem traverseFrom_eq {i : ℕ} (h : Unfolds tree.view i t) (features : List K) {fuel : ℕ}
    (hfuel : t.depth < fuel) : traverseFrom tree.nodes features fuel i = t.eval features := by
  induction h generalizing fuel with
  | leaf hview =>
    obtain ⟨node, hnode, hleaf, rfl⟩ := view_eq_leaf hview
    obtain ⟨fuel, rfl⟩ : ∃ n, fuel = n + 1 := ⟨fuel - 1, by omega⟩
    rw [traverseFrom, hnode]
    simp [hleaf, ThresholdTree.eval]
  | @split i feature left right threshold leftTree rightTree hview _ _ ihleft ihright =>
    obtain ⟨node, hnode, hleaf, rfl, rfl, rfl, rfl⟩ := view_eq_split hview
    obtain ⟨fuel, rfl⟩ : ∃ n, fuel = n + 1 := ⟨fuel - 1, by omega⟩
    have hl := le_max_left leftTree.depth rightTree.depth
    have hr := le_max_right leftTree.depth rightTree.depth
    rw [ThresholdTree.depth] at hfuel
    rw [traverseFrom, hnode, ThresholdTree.eval]
    cases hfeature : features[asUsize node.featureIndex]? with
    | none => simp [hleaf, hfeature]
    | some x =>
      simp [hleaf, hfeature, ihleft (show leftTree.depth < fuel by omega),
        ihright (show rightTree.depth < fuel by omega)]

theorem traverseTree_eq (h : tree.Holds t) (features : List K) :
    traverseTree tree features = t.eval features :=
  traverseFrom_eq h features h.depth_lt

end Trees

/-! ## Ensembles of trees that compute the same -/

section Congruence

theorem foldlM_eq_of_forall₂ {M : Type → Type} [Monad M] {α β σ : Type} {f : σ → α → M σ}
    {g : σ → β → M σ} {R : α → β → Prop} {xs : List α} {ys : List β} (h : List.Forall₂ R xs ys)
    (hstep : ∀ s x y, R x y → f s x = g s y) (s : σ) : xs.foldlM f s = ys.foldlM g s := by
  induction h generalizing s with
  | nil => rfl
  | cons hxy _ ih =>
    rw [List.foldlM_cons, List.foldlM_cons, hstep s _ _ hxy]
    congr 1
    funext s'
    exact ih s'

theorem forall₂_zipIdx_zipIdx {α β : Type} {R : α → β → Prop} {xs : List α} {ys : List β}
    (h : List.Forall₂ R xs ys) (start : ℕ) :
    List.Forall₂ (fun p q => R p.1 q.1 ∧ p.2 = q.2) (xs.zipIdx start) (ys.zipIdx start) := by
  induction h generalizing start with
  | nil => exact .nil
  | cons hxy _ ih =>
    rw [List.zipIdx_cons, List.zipIdx_cons]
    exact .cons ⟨hxy, rfl⟩ (ih (start + 1))

variable {K : Type} [LinearOrder K]

private theorem traverseFrom_congr {nodes nodes' : List (TreeNode K)} {features : List K}
    (h : ∀ i : ℕ, nodes[i]?.map TreeNode.view = nodes'[i]?.map TreeNode.view) (fuel i : ℕ) :
    traverseFrom nodes features fuel i = traverseFrom nodes' features fuel i := by
  induction fuel generalizing i with
  | zero => rfl
  | succ fuel ih =>
    have hi := h i
    rw [traverseFrom, traverseFrom]
    cases hnode : nodes[i]? with
    | none =>
      rw [hnode, Option.map_none, eq_comm, Option.map_eq_none_iff] at hi
      rw [hi]
      rfl
    | some node =>
      rw [hnode, Option.map_some, eq_comm, Option.map_eq_some_iff] at hi
      obtain ⟨node', hnode', hview⟩ := hi
      rw [hnode']
      simp only [TreeNode.view] at hview
      cases hleaf : node.isLeaf <;> cases hleaf' : node'.isLeaf <;>
        simp only [hleaf, hleaf', Bool.false_eq_true, if_true, if_false, reduceCtorEq,
          NodeView.leaf.injEq, NodeView.split.injEq] at hview
      · obtain ⟨hfeature, hthreshold, hleft, hright⟩ := hview
        simp only [bind, Option.bind_some, hleaf, hleaf', Bool.false_eq_true, if_false, hfeature,
          hthreshold, hleft, hright, ih]
      · simp only [bind, Option.bind_some, hleaf, hleaf', if_true, hview]

theorem traverseTree_congr {tree tree' : DecisionTree K}
    (h : List.Forall₂ (fun node node' => node.view = node'.view) tree.nodes tree'.nodes)
    (features : List K) : traverseTree tree features = traverseTree tree' features := by
  rw [traverseTree, traverseTree, h.length_eq]
  refine traverseFrom_congr ?_ _ _
  have hmap : tree.nodes.map TreeNode.view = tree'.nodes.map TreeNode.view := by
    rw [← List.forall₂_eq_eq_eq, List.forall₂_map_left_iff, List.forall₂_map_right_iff]
    exact h
  intro i
  rw [← List.getElem?_map, ← List.getElem?_map, hmap]

theorem predict_congr [Add K] [Zero K] {m m' : XgboostModel K} {features : List K}
    (hfeatures : m.numFeatures = m'.numFeatures) (hclasses : m.numClasses = m'.numClasses)
    (hbase : m.baseScore = m'.baseScore)
    (htrees : List.Forall₂ (fun tree tree' =>
      traverseTree tree features = traverseTree tree' features) m.trees m'.trees) :
    predict m features = predict m' features := by
  have hbinary : binaryScore m features = binaryScore m' features := by
    rw [binaryScore, binaryScore, hbase]
    refine foldlM_eq_of_forall₂ htrees ?_ _
    intro score tree tree' htree
    rw [htree]
  have hscores : classScores m features = classScores m' features := by
    rw [classScores, classScores, hbase, hclasses]
    refine foldlM_eq_of_forall₂ (forall₂_zipIdx_zipIdx htrees 0) ?_ _
    intro scores p q hpq
    rw [hpq.1, hpq.2]
  rw [predict, predict, hfeatures, hclasses, hbinary, hscores]

end Congruence

end WorldZk.TreeEnsemble
