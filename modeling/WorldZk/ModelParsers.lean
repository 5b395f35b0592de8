import WorldZk.CheckedRuns
import WorldZk.JsonValues
import WorldZk.TreeEnsemble

/-!
# Model files of the prover

`parse_xgboost_json` and `parse_lightgbm_json`, from the JSON document on. XGBoost stores the trees
as arrays; LightGBM nests them, and the parser flattens them breadth first.
-/

namespace WorldZk.ModelParsers

open CheckedRuns DecisionTrees JsonValues TreeEnsemble

/-- The ways in which a model file is refused. -/
inductive ModelError where
  | json
  | numFeature
  | numClass
  | baseScore
  | noTrees
  | noNodes (tree : ℕ)
  | noTreeStructure (tree : ℕ)
  | leafValue
  | missing (field : String) (node : ℕ)
  | panics
deriving DecidableEq, Repr

variable {K : Type}

def orError {α : Type} (e : ModelError) : Option α → Except ModelError α
  | some a => .ok a
  | none => .error e

@[simp] theorem orError_eq_ok {α : Type} {e : ModelError} {x : Option α} {a : α} :
    orError e x = .ok a ↔ x = some a := by
  cases x with
  | none => exact ⟨fun h => (by cases h), fun h => (by cases h)⟩
  | some b => exact ⟨fun h => (by cases h; rfl), fun h => (by cases h; rfl)⟩

/-! ## XGBoost documents

The enclave declares the same structs, so both sides read a document in one way.
-/

structure XgbTree (K : Type) where
  leftChildren : List Json.I32
  rightChildren : List Json.I32
  splitIndices : List Json.I32
  splitConditions : List K
  baseWeights : List K

structure XgbModelParam where
  numFeature : String
  numClass : String
  baseScore : String

/-- The parts of a document that the parsers use. -/
structure XgbJsonModel (K : Type) where
  learnerModelParam : XgbModelParam
  trees : List (XgbTree K)

def defaultBaseScore : String := "5E-1"

section Documents

variable [IntCast K]

def readXgbTree (json : Json K) : Option (XgbTree K) := do
  guard (json.isStruct 5)
  let leftChildren ← json.required (Json.asVec Json.asI32) 0 "left_children"
  let rightChildren ← json.required (Json.asVec Json.asI32) 1 "right_children"
  let splitIndices ← json.required (Json.asVec Json.asI32) 2 "split_indices"
  let splitConditions ← json.required (Json.asVec Json.asF64) 3 "split_conditions"
  let baseWeights ← json.required (Json.asVec Json.asF64) 4 "base_weights"
  pure ⟨leftChildren, rightChildren, splitIndices, splitConditions, baseWeights⟩

def readXgbModelParam (json : Json K) : Option XgbModelParam := do
  guard (json.isStruct 3)
  let numFeature ← json.required Json.asString 0 "num_feature"
  let numClass ← json.optional "" Json.asString 1 "num_class"
  let baseScore ← json.optional defaultBaseScore Json.asString 2 "base_score"
  pure ⟨numFeature, numClass, baseScore⟩

/-- `tree_info` is read and dropped. -/
def readXgbGbtreeModel (json : Json K) : Option (List (XgbTree K)) := do
  guard (json.isStruct 2)
  let trees ← json.required (Json.asVec readXgbTree) 0 "trees"
  let _ ← json.optional [] (Json.asVec Json.asI32) 1 "tree_info"
  pure trees

def readXgbGradientBooster (json : Json K) : Option (List (XgbTree K)) := do
  guard (json.isStruct 1)
  json.required readXgbGbtreeModel 0 "model"

def readXgbLearner (json : Json K) : Option (XgbJsonModel K) := do
  guard (json.isStruct 2)
  let param ← json.required readXgbModelParam 0 "learner_model_param"
  let trees ← json.required readXgbGradientBooster 1 "gradient_booster"
  pure ⟨param, trees⟩

def readXgbJsonModel (json : Json K) : Option (XgbJsonModel K) := do
  guard (json.isStruct 1)
  json.required readXgbLearner 0 "learner"

end Documents

/-- The numbers that the parameters of a document hold as strings. -/
structure ModelHeader (K : Type) where
  numFeatures : ℕ
  numClasses : ℕ
  baseScore : K

/-- XGBoost writes no class or `0` for a model with two classes. -/
def parseNumClass (text : String) : Except ModelError ℕ :=
  if text = "" ∨ text = "0" then .ok 2 else orError .numClass (Json.parseUsize text.toList)

def parseHeader [Field K] (param : XgbModelParam) : Except ModelError (ModelHeader K) := do
  let numFeatures ← orError .numFeature (Json.parseUsize param.numFeature.toList)
  let numClasses ← parseNumClass param.numClass
  let baseScore ← orError .baseScore (Json.parseF64 param.baseScore.toList)
  pure ⟨numFeatures, numClasses, baseScore⟩

/-! ## `parse_xgboost_json` -/

section Xgboost

variable [Zero K]

/-- A leaf as the parsers store it. -/
def leafNode (leafValue : K) : TreeNode K :=
  ⟨-1, 0, 0, 0, leafValue, true, leaf_range⟩

/-- One round of the loop over the nodes; a short array panics. -/
def xgbNode (tree : XgbTree K) (i : ℕ) : Option (TreeNode K) := do
  let left ← tree.leftChildren[i]?
  if left.1 = -1 then
    let leafValue ← tree.baseWeights[i]?
    pure (leafNode leafValue)
  else
    let feature ← tree.splitIndices[i]?
    let threshold ← tree.splitConditions[i]?
    let right ← tree.rightChildren[i]?
    pure ⟨feature.1, threshold, asUsize left.1, asUsize right.1, 0, false, feature.range⟩

def xgbNodes (tree : XgbTree K) : Option (DecisionTree K) := do
  let nodes ← (List.range tree.leftChildren.length).mapM (xgbNode tree)
  pure ⟨nodes⟩

/-- One round of the loop over the trees, with the depth of the tree. -/
def xgbTree (ti : XgbTree K × ℕ) : Except ModelError (DecisionTree K × ℕ) := do
  require (decide (ti.1.leftChildren.length ≠ 0)) (.noNodes ti.2)
  let tree ← orError .panics (xgbNodes ti.1)
  let depth ← orError .panics (treeDepth tree)
  pure (tree, depth)

end Xgboost

/-- The model with the largest of the depths found. -/
def assemble (header : ModelHeader K) (trees : List (DecisionTree K × ℕ)) : XgboostModel K where
  numFeatures := header.numFeatures
  numClasses := header.numClasses
  maxDepth := (trees.map Prod.snd).foldl max 0
  trees := trees.map Prod.fst
  baseScore := header.baseScore

def parseXgboostJson [Field K] (json : Json K) : Except ModelError (XgboostModel K) := do
  let raw ← orError .json (readXgbJsonModel json)
  let header ← parseHeader raw.learnerModelParam
  let trees ← raw.trees.zipIdx.mapM xgbTree
  pure (assemble header trees)

/-! ## LightGBM documents -/

/-- A nested node, with what the parser uses of it. -/
inductive LightGBMNode (K : Type) where
  | leaf (leafValue : K)
  | internal (splitFeature : ℕ) (threshold : K) (leftChild rightChild : LightGBMNode K)

structure LightGBMModel (K : Type) where
  numClass : ℕ
  maxFeatureIdx : ℕ
  treeInfo : List (LightGBMNode K)

section Documents

variable [IntCast K] [Zero K]

/-- The leaf variant of a node. -/
def readLeaf (json : Json K) : Option (LightGBMNode K) := do
  let _ ← json.required Json.asUsize 0 "leaf_index"
  let leafValue ← json.required Json.asF64 1 "leaf_value"
  pure (.leaf leafValue)

/-- The fields of the internal variant, for a reader of its children. -/
def readInternal (readChild : Json K → Option (LightGBMNode K)) (json : Json K) :
    Option (LightGBMNode K) := do
  let _ ← json.required Json.asUsize 0 "split_index"
  let splitFeature ← json.required Json.asUsize 1 "split_feature"
  let _ ← json.optional 0 Json.asF64 2 "split_gain"
  let threshold ← json.required Json.asF64 3 "threshold"
  let _ ← json.optional "" Json.asString 4 "decision_type"
  let leftChild ← json.required readChild 5 "left_child"
  let rightChild ← json.required readChild 6 "right_child"
  pure (.internal splitFeature threshold leftChild rightChild)

/-- A node is a leaf if it reads as one. The children of a value are smaller values, so the size of
the value bounds the recursion. -/
def readNode : ℕ → Json K → Option (LightGBMNode K)
  | 0, _ => none
  | fuel + 1, .obj fields =>
    readLeaf (.obj fields) <|> readInternal (readNode fuel) (.obj fields)
  | _ + 1, _ => none

def readLightGBMNode (json : Json K) : Option (LightGBMNode K) := readNode json.size json

def readLightGBMTreeInfo (json : Json K) : Option (LightGBMNode K) := do
  guard (json.isStruct 4)
  let _ ← json.optional 0 Json.asUsize 0 "tree_index"
  let _ ← json.optional 0 Json.asUsize 1 "num_leaves"
  let _ ← json.optional 0 Json.asF64 2 "shrinkage"
  json.required readLightGBMNode 3 "tree_structure"

def readLightGBMModel (json : Json K) : Option (LightGBMModel K) := do
  guard (json.isStruct 5)
  let numClass ← json.optional 1 Json.asUsize 0 "num_class"
  let _ ← json.optional 0 Json.asUsize 1 "num_tree_per_iteration"
  let maxFeatureIdx ← json.optional 0 Json.asUsize 2 "max_feature_idx"
  let treeInfo ← json.required (Json.asVec readLightGBMTreeInfo) 3 "tree_info"
  let _ ← json.optional [] (Json.asVec Json.asString) 4 "feature_names"
  pure ⟨numClass, maxFeatureIdx, treeInfo⟩

end Documents

/-! ## `parse_lightgbm_json` -/

/-- `as i32`. -/
def wrapI32 (n : ℤ) : ℤ := (n + 2 ^ 31) % 2 ^ 32 - 2 ^ 31

theorem wrapI32_range (n : ℤ) : -2 ^ 31 ≤ wrapI32 n ∧ wrapI32 n < 2 ^ 31 := by
  rw [wrapI32]
  omega

theorem wrapI32_eq {n : ℤ} (h : -2 ^ 31 ≤ n ∧ n < 2 ^ 31) : wrapI32 n = n := by
  rw [wrapI32]
  omega

theorem asUsize_wrapI32 {n : ℕ} (hn : n < 2 ^ 31) : asUsize (wrapI32 n) = n := by
  rw [wrapI32_eq (by omega), asUsize]
  omega

/-- `count_nodes`. -/
def countNodes : LightGBMNode K → ℕ
  | .leaf _ => 1
  | .internal _ _ leftChild rightChild => 1 + countNodes leftChild + countNodes rightChild

section Lightgbm

variable [Zero K]

/-- The loop of `flatten_lgbm_tree`, for a given number of rounds. -/
def flattenLoop : ℕ → List (LightGBMNode K × ℕ) → ℕ → List (TreeNode K) → Option (List (TreeNode K))
  | _, [], _, nodes => some nodes
  | 0, _ :: _, _, _ => none
  | fuel + 1, (.leaf leafValue, selfIndex) :: queue, nextIdx, nodes =>
    if selfIndex < nodes.length then
      flattenLoop fuel queue nextIdx (nodes.set selfIndex (leafNode leafValue))
    else none
  | fuel + 1, (.internal splitFeature threshold leftChild rightChild, selfIndex) :: queue, nextIdx,
      nodes =>
    if selfIndex < nodes.length then
      flattenLoop fuel (queue ++ [(leftChild, nextIdx), (rightChild, nextIdx + 1)]) (nextIdx + 2)
        (nodes.set selfIndex ⟨wrapI32 splitFeature, threshold, nextIdx, nextIdx + 1, 0, false,
          wrapI32_range _⟩)
    else none

/-- `flatten_lgbm_tree`. Each round takes a node off the queue, so there are as many as nodes. -/
def flattenLgbmTree (root : LightGBMNode K) : Option (DecisionTree K) := do
  let totalNodes := countNodes root
  let nodes ← flattenLoop totalNodes [(root, 0)] 1 (List.replicate totalNodes (leafNode 0))
  pure ⟨nodes⟩

/-- One round of the loop over the trees, with the depth of the tree. -/
def lgbmTree (ti : LightGBMNode K × ℕ) : Except ModelError (DecisionTree K × ℕ) := do
  let tree ← orError .panics (flattenLgbmTree ti.1)
  require (decide (tree.nodes ≠ [])) (.noNodes ti.2)
  let depth ← orError .panics (treeDepth tree)
  pure (tree, depth)

/-- One class stands for a model with two classes. -/
def lgbmHeader (lgbm : LightGBMModel K) : ModelHeader K where
  numFeatures := (lgbm.maxFeatureIdx + 1) % 2 ^ 64
  numClasses := if lgbm.numClass ≤ 1 then 2 else lgbm.numClass
  baseScore := 0

def parseLightgbmJson [IntCast K] (json : Json K) : Except ModelError (XgboostModel K) := do
  let lgbm ← orError .json (readLightGBMModel json)
  let trees ← lgbm.treeInfo.zipIdx.mapM lgbmTree
  pure (assemble (lgbmHeader lgbm) trees)

end Lightgbm

/-! ## Flattening keeps the tree -/

/-- The tree that a nested node stands for, with the features as the traversal reads them. -/
def LightGBMNode.toTree : LightGBMNode K → ThresholdTree K
  | .leaf leafValue => .leaf leafValue
  | .internal splitFeature threshold leftChild rightChild =>
    .split (asUsize (wrapI32 splitFeature)) threshold leftChild.toTree rightChild.toTree

theorem countNodes_pos (node : LightGBMNode K) : 0 < countNodes node := by
  cases node with
  | leaf leafValue => exact Nat.one_pos
  | internal splitFeature threshold leftChild rightChild =>
    rw [countNodes]
    omega

/-- The nodes that a queue still has to write. -/
def pendingNodes (queue : List (LightGBMNode K × ℕ)) : ℕ :=
  (queue.map fun p => countNodes p.1).sum

theorem length_le_pendingNodes (queue : List (LightGBMNode K × ℕ)) :
    queue.length ≤ pendingNodes queue := by
  induction queue with
  | nil => exact Nat.zero_le _
  | cons p queue ih =>
    have := countNodes_pos p.1
    rw [pendingNodes] at ih ⊢
    rw [List.map_cons, List.sum_cons, List.length_cons]
    omega

section Flattening

variable [Zero K]

omit [Zero K] in
private theorem view_set {nodes : List (TreeNode K)} {i : ℕ} (hi : i < nodes.length)
    (node : TreeNode K) :
    DecisionTree.view ⟨nodes.set i node⟩ i = some node.view ∧
      ∀ j, j ≠ i → DecisionTree.view ⟨nodes.set i node⟩ j = DecisionTree.view ⟨nodes⟩ j := by
  constructor
  · rw [DecisionTree.view, List.getElem?_set_self hi]
    rfl
  · intro j hj
    rw [DecisionTree.view, DecisionTree.view, List.getElem?_set_ne (Ne.symm hj)]

/-- With a round and room for every pending node, the loop ends with all of them written. -/
private theorem flattenLoop_flattens {fuel next : ℕ} {queue : List (LightGBMNode K × ℕ)}
    {nodes : List (TreeNode K)} (hfuel : pendingNodes queue ≤ fuel)
    (hslots : ∀ p ∈ queue, p.2 < next)
    (hroom : next + pendingNodes queue ≤ nodes.length + queue.length) :
    ∃ final, flattenLoop fuel queue next nodes = some final ∧
      Flattens (DecisionTree.view ⟨nodes⟩) (queue.map fun p => (p.1.toTree, p.2)) next
        (DecisionTree.view ⟨final⟩) := by
  induction fuel generalizing queue next nodes with
  | zero =>
    have := length_le_pendingNodes queue
    obtain rfl : queue = [] := List.length_eq_zero_iff.mp (by omega)
    exact ⟨nodes, rfl, .done⟩
  | succ fuel ih =>
    rcases queue with _ | ⟨⟨node, i⟩, queue⟩
    · exact ⟨nodes, rfl, .done⟩
    · have hle := length_le_pendingNodes queue
      have hpending : pendingNodes ((node, i) :: queue) = countNodes node + pendingNodes queue := rfl
      have hpos := countNodes_pos node
      have hi : i < next := hslots (node, i) List.mem_cons_self
      have hrest : ∀ p ∈ queue, p.2 < next := fun p hp => hslots p (List.mem_cons_of_mem _ hp)
      rw [hpending] at hfuel hroom
      rw [List.length_cons] at hroom
      have hlt : i < nodes.length := by omega
      cases node with
      | leaf leafValue =>
        obtain ⟨hview, hframe⟩ := view_set hlt (leafNode leafValue)
        obtain ⟨final, hfinal, hflat⟩ := @ih next queue
          (nodes.set i (leafNode leafValue)) (by omega) hrest
          (by rw [List.length_set]; rw [countNodes] at hroom; omega)
        refine ⟨final, ?_, .leaf hview (fun j _ => hframe j) hflat⟩
        rw [flattenLoop, if_pos hlt]
        exact hfinal
      | internal splitFeature threshold leftChild rightChild =>
        obtain ⟨hview, hframe⟩ := view_set hlt (⟨wrapI32 splitFeature, threshold, next, next + 1, 0,
          false, wrapI32_range _⟩ : TreeNode K)
        rw [countNodes] at hfuel hroom
        have hpending' : pendingNodes (queue ++ [(leftChild, next), (rightChild, next + 1)]) =
            pendingNodes queue + (countNodes leftChild + countNodes rightChild) := by
          simp [pendingNodes]
        obtain ⟨final, hfinal, hflat⟩ := @ih (next + 2)
          (queue ++ [(leftChild, next), (rightChild, next + 1)])
          (nodes.set i ⟨wrapI32 splitFeature, threshold, next, next + 1, 0, false,
            wrapI32_range _⟩)
          (by rw [hpending']; omega)
          (by
            intro p hp
            rcases List.mem_append.mp hp with hp | hp
            · have := hrest p hp
              omega
            · simp only [List.mem_cons, List.not_mem_nil, or_false] at hp
              rcases hp with rfl | rfl <;> simp)
          (by
            rw [hpending', List.length_set, List.length_append, List.length_cons, List.length_cons,
              List.length_nil]
            omega)
        refine ⟨final, ?_, .split hview (fun j _ => hframe j) ?_⟩
        · rw [flattenLoop, if_pos hlt]
          exact hfinal
        · rw [List.map_append] at hflat
          exact hflat

private theorem length_flattenLoop {fuel next : ℕ} {queue : List (LightGBMNode K × ℕ)}
    {nodes final : List (TreeNode K)} (h : flattenLoop fuel queue next nodes = some final) :
    final.length = nodes.length := by
  induction fuel generalizing queue next nodes with
  | zero =>
    cases queue with
    | nil => rw [← Option.some.inj h]
    | cons p queue => cases h
  | succ fuel ih =>
    rcases queue with _ | ⟨⟨node, i⟩, queue⟩
    · rw [← Option.some.inj h]
    · cases node <;>
      · rw [flattenLoop] at h
        split_ifs at h
        rw [ih h, List.length_set]

/-- Flattening always succeeds. It works off the nested tree, with room for each of its nodes. -/
theorem flattenLgbmTree_flattens (root : LightGBMNode K) :
    ∃ tree, flattenLgbmTree root = some tree ∧ tree.nodes.length = countNodes root ∧
      ∃ view, Flattens view [(root.toTree, 0)] 1 tree.view := by
  obtain ⟨final, hfinal, hflat⟩ := @flattenLoop_flattens K _ (countNodes root) 1 [(root, 0)]
    (List.replicate (countNodes root) (leafNode 0)) (by simp [pendingNodes]) (by simp)
    (by simp [pendingNodes, Nat.add_comm])
  refine ⟨⟨final⟩, ?_, ?_, _, hflat⟩
  · rw [flattenLgbmTree, hfinal]
    rfl
  · rw [length_flattenLoop hfinal, List.length_replicate]

theorem flattenLgbmTree_holds (root : LightGBMNode K) :
    ∃ tree, flattenLgbmTree root = some tree ∧ tree.Holds root.toTree := by
  obtain ⟨tree, htree, -, _, hflat⟩ := flattenLgbmTree_flattens root
  exact ⟨tree, htree, hflat.unfolds⟩

end Flattening

end WorldZk.ModelParsers
