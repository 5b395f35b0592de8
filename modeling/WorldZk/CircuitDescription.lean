import WorldZk.ModelParsers
import WorldZk.Transcript
import Mathlib.Data.Rat.Floor

/-!
# The description behind a circuit hash

`build_circuit_description` writes a model as bytes, and the hash of these bytes names the circuit.
The bytes determine the nodes of the trees up to rounding, but neither the base score nor the
children of a node are among them.
-/

namespace WorldZk.CircuitDescription

open DecisionTrees JsonValues ModelParsers Transcript TreeEnsemble
open scoped NamedInstances

/-- `to_be_bytes` of an integer of `n` bytes. -/
def toBeBytes (n : ℕ) (z : ℤ) : List UInt8 :=
  ((List.range n).map fun i => UInt8.ofNat ((z % 256 ^ n).toNat / 256 ^ i)).reverse

section Description

variable {K : Type} [Field K] [LinearOrder K] [FloorRing K]

def describeNode (node : TreeNode K) : List UInt8 :=
  toBeBytes 4 node.featureIndex ++ toBeBytes 8 (quantize node.threshold) ++
    (if node.isLeaf then 1 :: toBeBytes 8 (quantize node.leafValue) else [0])

def describeTree (tree : DecisionTree K) : List UInt8 :=
  toBeBytes 4 tree.nodes.length ++ tree.nodes.flatMap describeNode

/-- The bytes of `REMAINDER_XGBOOST_V1`. -/
def circuitTag : List UInt8 :=
  [82, 69, 77, 65, 73, 78, 68, 69, 82, 95, 88, 71, 66, 79, 79, 83, 84, 95, 86, 49]

/-- `build_circuit_description`. -/
def buildCircuitDescription (model : XgboostModel K) : List UInt8 :=
  circuitTag ++ toBeBytes 4 model.numFeatures ++ toBeBytes 4 model.numClasses ++
    toBeBytes 4 model.maxDepth ++ toBeBytes 4 model.trees.length ++ model.trees.flatMap describeTree

end Description

/-! ## Reading a description back -/

@[simp] theorem length_toBeBytes (n : ℕ) (z : ℤ) : (toBeBytes n z).length = n := by
  rw [toBeBytes, List.length_reverse, List.length_map, List.length_range]

private theorem toBeBytes_inj {n : ℕ} {z z' : ℤ} (h : toBeBytes n z = toBeBytes n z') :
    z % 256 ^ n = z' % 256 ^ n := by
  have hpos : (0 : ℤ) < 256 ^ n := by positivity
  have hvalue := congrArg leValue (List.reverse_injective h)
  rw [leValue_digits, leValue_digits] at hvalue
  have hlt : ∀ w : ℤ, (w % 256 ^ n).toNat < 256 ^ n := by
    intro w
    have := Int.emod_lt_of_pos w hpos
    have hcast : ((256 ^ n : ℕ) : ℤ) = 256 ^ n := by push_cast; rfl
    omega
  rw [Nat.mod_eq_of_lt (hlt z), Nat.mod_eq_of_lt (hlt z')] at hvalue
  have := Int.emod_nonneg z hpos.ne'
  have := Int.emod_nonneg z' hpos.ne'
  omega

private theorem toBeBytes_append_inj {n : ℕ} {z z' : ℤ} {rest rest' : List UInt8}
    (h : toBeBytes n z ++ rest = toBeBytes n z' ++ rest') :
    z % 256 ^ n = z' % 256 ^ n ∧ rest = rest' := by
  obtain ⟨hfront, hrest⟩ := List.append_inj h (by rw [length_toBeBytes, length_toBeBytes])
  exact ⟨toBeBytes_inj hfront, hrest⟩

private theorem eq_of_toBeBytes_length {a c : ℕ} (ha : a < 2 ^ 32) (hc : c < 2 ^ 32)
    (h : (a : ℤ) % 256 ^ 4 = (c : ℤ) % 256 ^ 4) : a = c := by
  norm_num at h
  omega

section Reading

variable {K : Type} [Field K] [LinearOrder K] [FloorRing K]

/-- What the bytes tell about two nodes. -/
structure SameBytes (node node' : TreeNode K) : Prop where
  featureIndex : node.featureIndex = node'.featureIndex
  threshold : quantize node.threshold = quantize node'.threshold
  isLeaf : node.isLeaf = node'.isLeaf
  leafValue : node.isLeaf = true → quantize node.leafValue = quantize node'.leafValue

private theorem quantize_range (x : K) : -2 ^ 63 ≤ quantize x ∧ quantize x < 2 ^ 63 := by
  rw [quantize, saturateI64]
  omega

private theorem quantize_eq_of_emod {x y : K} (h : quantize x % 256 ^ 8 = quantize y % 256 ^ 8) :
    quantize x = quantize y := by
  have hx := quantize_range x
  have hy := quantize_range y
  norm_num at h
  omega

private theorem describeNode_append_inj {node node' : TreeNode K} {rest rest' : List UInt8}
    (h : describeNode node ++ rest = describeNode node' ++ rest') :
    SameBytes node node' ∧ rest = rest' := by
  rw [describeNode, describeNode, List.append_assoc, List.append_assoc, List.append_assoc,
    List.append_assoc] at h
  obtain ⟨hfeature, h⟩ := toBeBytes_append_inj h
  obtain ⟨hthreshold, h⟩ := toBeBytes_append_inj h
  have hindex : node.featureIndex = node'.featureIndex := by
    have hrange := node.featureIndex_range
    have hrange' := node'.featureIndex_range
    norm_num at hfeature
    omega
  cases hleaf : node.isLeaf <;> cases hleaf' : node'.isLeaf <;> rw [hleaf, hleaf'] at h
  · refine ⟨⟨hindex, quantize_eq_of_emod hthreshold, hleaf.trans hleaf'.symm, ?_⟩, ?_⟩
    · intro htrue
      rw [hleaf] at htrue
      cases htrue
    · exact List.cons.inj h |>.2
  · exact absurd (List.cons.inj h).1 (by decide)
  · exact absurd (List.cons.inj h).1 (by decide)
  · obtain ⟨hvalue, hrest⟩ := toBeBytes_append_inj (List.cons.inj h).2
    exact ⟨⟨hindex, quantize_eq_of_emod hthreshold, hleaf.trans hleaf'.symm,
      fun _ => quantize_eq_of_emod hvalue⟩, hrest⟩

/-- Lists of the same length are read back item by item when each item ends itself. -/
private theorem flatMap_append_inj {α : Type} {f : α → List UInt8} {R : α → α → Prop}
    {P : α → Prop}
    (hread : ∀ a a' rest rest', P a → P a' → f a ++ rest = f a' ++ rest' → R a a' ∧ rest = rest')
    {xs ys : List α} (hlength : xs.length = ys.length) (hxs : ∀ a ∈ xs, P a) (hys : ∀ a ∈ ys, P a)
    {rest rest' : List UInt8} (h : xs.flatMap f ++ rest = ys.flatMap f ++ rest') :
    List.Forall₂ R xs ys ∧ rest = rest' := by
  induction xs generalizing ys with
  | nil =>
    obtain rfl : ys = [] := List.length_eq_zero_iff.mp hlength.symm
    exact ⟨.nil, h⟩
  | cons x xs ih =>
    cases ys with
    | nil => cases hlength
    | cons y ys =>
      rw [List.flatMap_cons, List.flatMap_cons, List.append_assoc, List.append_assoc] at h
      obtain ⟨hxy, h⟩ := hread x y _ _ (hxs x List.mem_cons_self) (hys y List.mem_cons_self) h
      obtain ⟨hrest, hend⟩ := ih (Nat.succ.inj hlength) (fun a ha => hxs a (List.mem_cons_of_mem _ ha))
        (fun a ha => hys a (List.mem_cons_of_mem _ ha)) h
      exact ⟨.cons hxy hrest, hend⟩

private theorem describeTree_append_inj {tree tree' : DecisionTree K} {rest rest' : List UInt8}
    (hlt : tree.nodes.length < 2 ^ 32) (hlt' : tree'.nodes.length < 2 ^ 32)
    (h : describeTree tree ++ rest = describeTree tree' ++ rest') :
    List.Forall₂ SameBytes tree.nodes tree'.nodes ∧ rest = rest' := by
  rw [describeTree, describeTree, List.append_assoc, List.append_assoc] at h
  obtain ⟨hlength, h⟩ := toBeBytes_append_inj h
  have hcount := eq_of_toBeBytes_length hlt hlt' hlength
  exact flatMap_append_inj (f := describeNode) (R := SameBytes) (P := fun _ => True)
    (fun _ _ _ _ _ _ hnode => describeNode_append_inj hnode) hcount (fun _ _ => trivial)
    (fun _ _ => trivial) h

end Reading

/-! ## What a description determines -/

section Determined

variable {K : Type} [Field K] [LinearOrder K] [FloorRing K]

/-- Thresholds and leaf values are exact multiples of `2⁻¹⁶`. -/
def ExactMultiples (m : XgboostModel K) : Prop :=
  ∀ tree ∈ m.trees, ∀ node ∈ tree.nodes,
    (∃ k : ℤ, node.threshold * FIXED_POINT_SCALE = k) ∧
      ∃ k : ℤ, node.leafValue * FIXED_POINT_SCALE = k

/-- A scaled value that an `i64` holds. -/
def InRange (x : K) : Prop :=
  (-2 ^ 63 : K) ≤ x * FIXED_POINT_SCALE ∧ x * FIXED_POINT_SCALE < 2 ^ 63

/-- The counts and values of a model fit the widths that the description has for them. -/
structure FitsDescription (m : XgboostModel K) : Prop where
  numFeatures : m.numFeatures < 2 ^ 32
  numClasses : m.numClasses < 2 ^ 32
  trees : m.trees.length < 2 ^ 32
  nodes : ∀ tree ∈ m.trees, tree.nodes.length < 2 ^ 32
  values : ∀ tree ∈ m.trees, ∀ node ∈ tree.nodes, InRange node.threshold ∧ InRange node.leafValue

/-- The models agree in what the description leaves out. -/
structure SameWiring (m m' : XgboostModel K) : Prop where
  baseScore : m.baseScore = m'.baseScore
  children : ∀ (i j : ℕ) (tree tree' : DecisionTree K) (node node' : TreeNode K),
    m.trees[i]? = some tree → m'.trees[i]? = some tree' → tree.nodes[j]? = some node →
    tree'.nodes[j]? = some node' → node.isLeaf = false →
    node.leftChild = node'.leftChild ∧ node.rightChild = node'.rightChild

variable [IsStrictOrderedRing K]

theorem roundHalfAway_intCast (k : ℤ) : roundHalfAway (k : K) = k := by
  have hhalf : ⌊(1 / 2 : K)⌋ = 0 := by norm_num
  rw [roundHalfAway]
  split
  · rw [Int.floor_intCast_add, hhalf, add_zero]
  · rw [← Int.cast_neg, Int.floor_intCast_add, hhalf, add_zero, neg_neg]

theorem quantize_of_exact {x : K} (hx : ∃ k : ℤ, x * FIXED_POINT_SCALE = k) (hxr : InRange x) :
    (quantize x : K) = x * FIXED_POINT_SCALE := by
  obtain ⟨k, hk⟩ := hx
  obtain ⟨hlow, hhigh⟩ := hxr
  rw [hk] at hlow hhigh
  have hlow' : -2 ^ 63 ≤ k := by exact_mod_cast hlow
  have hhigh' : k < 2 ^ 63 := by exact_mod_cast hhigh
  have hvalue : quantize x = k := by
    rw [quantize, hk, roundHalfAway_intCast, saturateI64]
    omega
  rw [hvalue, hk]

private theorem eq_of_quantize {x y : K} (hx : ∃ k : ℤ, x * FIXED_POINT_SCALE = k)
    (hy : ∃ k : ℤ, y * FIXED_POINT_SCALE = k) (hxr : InRange x) (hyr : InRange y)
    (h : quantize x = quantize y) : x = y := by
  have hscaled : x * FIXED_POINT_SCALE = y * FIXED_POINT_SCALE := by
    rw [← quantize_of_exact hx hxr, ← quantize_of_exact hy hyr, h]
  have hscale : ((FIXED_POINT_SCALE : ℕ) : K) ≠ 0 := by
    rw [FIXED_POINT_SCALE]
    positivity
  exact mul_right_cancel₀ hscale hscaled

omit [IsStrictOrderedRing K] in
private theorem view_eq_of_sameBytes {node node' : TreeNode K} (h : SameBytes node node')
    (hthreshold : node.threshold = node'.threshold)
    (hleafValue : node.isLeaf = true → node.leafValue = node'.leafValue)
    (hchildren : node.isLeaf = false →
      node.leftChild = node'.leftChild ∧ node.rightChild = node'.rightChild) :
    node.view = node'.view := by
  rw [TreeNode.view, TreeNode.view, ← h.isLeaf]
  cases hleaf : node.isLeaf with
  | true => rw [if_pos rfl, if_pos rfl, hleafValue hleaf]
  | false =>
    rw [if_neg Bool.false_ne_true, if_neg Bool.false_ne_true, h.featureIndex, hthreshold,
      (hchildren hleaf).1, (hchildren hleaf).2]

/-- Exact models with one description predict the same, if they also agree in the base score and in
the children of their nodes. -/
theorem predict_eq_of_description {m m' : XgboostModel K}
    (hdescription : buildCircuitDescription m = buildCircuitDescription m')
    (hexact : ExactMultiples m) (hexact' : ExactMultiples m') (hfits : FitsDescription m)
    (hfits' : FitsDescription m') (hwiring : SameWiring m m') (features : List K) :
    predict m features = predict m' features := by
  simp only [buildCircuitDescription, List.append_assoc] at hdescription
  obtain ⟨hfeatures, hrest⟩ := toBeBytes_append_inj (List.append_cancel_left hdescription)
  obtain ⟨hclasses, hrest⟩ := toBeBytes_append_inj hrest
  obtain ⟨-, hrest⟩ := toBeBytes_append_inj hrest
  obtain ⟨hcount, hrest⟩ := toBeBytes_append_inj hrest
  rw [← List.append_nil (m.trees.flatMap _), ← List.append_nil (m'.trees.flatMap _)] at hrest
  have hlength := eq_of_toBeBytes_length hfits.trees hfits'.trees hcount
  obtain ⟨htrees, -⟩ := flatMap_append_inj (f := describeTree)
    (R := fun tree tree' => List.Forall₂ SameBytes tree.nodes tree'.nodes)
    (P := fun tree => tree.nodes.length < 2 ^ 32)
    (fun _ _ _ _ hlt hlt' htree => describeTree_append_inj hlt hlt' htree) hlength hfits.nodes
    hfits'.nodes hrest
  refine predict_congr (eq_of_toBeBytes_length hfits.numFeatures hfits'.numFeatures hfeatures)
    (eq_of_toBeBytes_length hfits.numClasses hfits'.numClasses hclasses) hwiring.baseScore ?_
  rw [List.forall₂_iff_get] at htrees ⊢
  refine ⟨hlength, ?_⟩
  intro i hi hi'
  refine traverseTree_congr ?_ features
  have hnodes := htrees.2 i hi hi'
  rw [List.forall₂_iff_get] at hnodes ⊢
  refine ⟨hnodes.1, ?_⟩
  intro j hj hj'
  have hbytes := hnodes.2 j hj hj'
  have hmem := List.get_mem m.trees ⟨i, hi⟩
  have hmem' := List.get_mem m'.trees ⟨i, hi'⟩
  have hnode := List.get_mem _ ⟨j, hj⟩
  have hnode' := List.get_mem _ ⟨j, hj'⟩
  have hx := hexact _ hmem _ hnode
  have hx' := hexact' _ hmem' _ hnode'
  have hr := hfits.values _ hmem _ hnode
  have hr' := hfits'.values _ hmem' _ hnode'
  refine view_eq_of_sameBytes hbytes (eq_of_quantize hx.1 hx'.1 hr.1 hr'.1 hbytes.threshold)
    (fun hleaf => eq_of_quantize hx.2 hx'.2 hr.2 hr'.2 (hbytes.leafValue hleaf)) ?_
  exact hwiring.children i j _ _ _ _ (List.getElem?_eq_getElem hi) (List.getElem?_eq_getElem hi')
    (List.getElem?_eq_getElem hj) (List.getElem?_eq_getElem hj')

end Determined

/-! ## Models with one description -/

/-- A model of one leaf, whose unread children are as given. -/
def leafModel (child : ℕ) : XgboostModel ℚ where
  numFeatures := 1
  numClasses := 2
  maxDepth := 0
  trees := [⟨[{ leafNode 0 with leftChild := child, rightChild := child }]⟩]
  baseScore := 1

private theorem exactMultiples_of_zeroes {m : XgboostModel ℚ}
    (h : ∀ tree ∈ m.trees, ∀ node ∈ tree.nodes, node.threshold = 0 ∧ node.leafValue = 0) :
    ExactMultiples m := by
  intro tree htree node hnode
  obtain ⟨hthreshold, hleaf⟩ := h tree htree node hnode
  rw [hthreshold, hleaf, zero_mul, ← Int.cast_zero]
  exact ⟨⟨0, rfl⟩, ⟨0, rfl⟩⟩

private theorem leafModel_zeroes (child : ℕ) : ∀ tree ∈ (leafModel child).trees,
    ∀ node ∈ tree.nodes, node.threshold = 0 ∧ node.leafValue = 0 := by
  intro tree htree node hnode
  obtain rfl := List.mem_singleton.mp htree
  obtain rfl := List.mem_singleton.mp hnode
  exact ⟨rfl, rfl⟩

private theorem leafModel_fits (child : ℕ) : FitsDescription (leafModel child) where
  numFeatures := show 1 < 2 ^ 32 by decide
  numClasses := show 2 < 2 ^ 32 by decide
  trees := show 1 < 2 ^ 32 by decide
  nodes := by
    intro tree htree
    obtain rfl := List.mem_singleton.mp htree
    exact show 1 < 2 ^ 32 by decide
  values := by
    intro tree htree node hnode
    obtain ⟨hthreshold, hleaf⟩ := leafModel_zeroes child tree htree node hnode
    rw [hthreshold, hleaf]
    constructor <;> simp [InRange]

private theorem leafModel_sameWiring (child child' : ℕ) :
    SameWiring (leafModel child) (leafModel child') where
  baseScore := rfl
  children := by
    intro i j tree tree' node node' htree htree' hnode hnode' hleaf
    obtain rfl := List.mem_singleton.mp (List.mem_of_getElem? htree)
    obtain rfl := List.mem_singleton.mp (List.mem_of_getElem? hnode)
    cases hleaf

private theorem leafModel_description :
    buildCircuitDescription (leafModel 0) = buildCircuitDescription (leafModel 1) := rfl

theorem predict_leafModel_eq : predict (leafModel 0) [3] = predict (leafModel 1) [3] :=
  predict_eq_of_description leafModel_description (exactMultiples_of_zeroes (leafModel_zeroes 0))
    (exactMultiples_of_zeroes (leafModel_zeroes 1)) (leafModel_fits 0) (leafModel_fits 1)
    (leafModel_sameWiring 0 1) [3]

/-- An XGBoost document with a single leaf of value 0. -/
def biasDocument (baseScore : String) : Json ℚ :=
  .obj [("learner", .obj [
    ("learner_model_param", .obj [("num_feature", .str "1"), ("num_class", .str "0"),
      ("base_score", .str baseScore)]),
    ("gradient_booster", .obj [("model", .obj [("trees", .arr [.obj [
      ("left_children", .arr [.int (-1)]), ("right_children", .arr [.int (-1)]),
      ("split_indices", .arr [.int 0]), ("split_conditions", .arr [.int 0]),
      ("base_weights", .arr [.int 0])]])])])])]

/-- The base score decides the class and leaves no trace in the description. -/
theorem description_leaves_out_baseScore :
    ∃ m m' : XgboostModel ℚ, parseXgboostJson (biasDocument "1") = .ok m ∧
      parseXgboostJson (biasDocument "-1") = .ok m' ∧ ExactMultiples m ∧ ExactMultiples m' ∧
      buildCircuitDescription m = buildCircuitDescription m' ∧ predict m [0] ≠ predict m' [0] := by
  refine ⟨_, _, rfl, rfl, exactMultiples_of_zeroes ?_, exactMultiples_of_zeroes ?_, rfl, ?_⟩
  · intro tree htree node hnode
    obtain rfl := List.mem_singleton.mp htree
    obtain rfl := List.mem_singleton.mp hnode
    exact ⟨rfl, Int.cast_zero⟩
  · intro tree htree node hnode
    obtain rfl := List.mem_singleton.mp htree
    obtain rfl := List.mem_singleton.mp hnode
    exact ⟨rfl, Int.cast_zero⟩
  · decide +kernel

end WorldZk.CircuitDescription
