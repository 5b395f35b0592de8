import WorldZk.ModelParsers

/-!
# Model files and scores of the enclave

`model.rs` of the enclave. Its trees stay arrays, its LightGBM parser walks through untyped JSON
values, and its result is a list of scores.
-/

namespace WorldZk.EnclaveModel

open CheckedRuns DecisionTrees JsonValues ModelParsers TreeEnsemble

variable {K : Type}

structure EnclaveTree (K : Type) where
  leftChildren : List ℤ
  rightChildren : List ℤ
  splitIndices : List ℕ
  splitConditions : List K
  baseWeights : List K

structure EnclaveEnsemble (K : Type) where
  numFeatures : ℕ
  numClasses : ℕ
  baseScore : K
  trees : List (EnclaveTree K)

/-! ## Parsing -/

/-- The arrays of an XGBoost tree are kept. -/
def ofXgbTree (tree : XgbTree K) : EnclaveTree K where
  leftChildren := tree.leftChildren.map Subtype.val
  rightChildren := tree.rightChildren.map Subtype.val
  splitIndices := tree.splitIndices.map fun i => asUsize i.1
  splitConditions := tree.splitConditions
  baseWeights := tree.baseWeights

def keepXgbTree (ti : XgbTree K × ℕ) : Except ModelError (EnclaveTree K) := do
  require (decide (ti.1.leftChildren.length ≠ 0)) (.noNodes ti.2)
  pure (ofXgbTree ti.1)

def parseXgboost [Field K] (json : Json K) : Except ModelError (EnclaveEnsemble K) := do
  let raw ← orError .json (readXgbJsonModel json)
  let header ← parseHeader raw.learnerModelParam
  let trees ← raw.trees.zipIdx.mapM keepXgbTree
  require (decide (trees ≠ [])) .noTrees
  pure ⟨header.numFeatures, header.numClasses, header.baseScore, trees⟩

structure LgbJsonModel (K : Type) where
  treeInfo : List (Option (Json K))
  maxFeatureIdx : Option ℤ
  numTreePerIteration : Option ℤ

def readLgbTreeInfo (json : Json K) : Option (Option (Json K)) := do
  guard (json.isStruct 1)
  json.optional none (Json.asOption some) 0 "tree_structure"

/-- `num_class` is read and dropped. -/
def readLgbJsonModel (json : Json K) : Option (LgbJsonModel K) := do
  guard (json.isStruct 4)
  let treeInfo ← json.optional [] (Json.asVec readLgbTreeInfo) 0 "tree_info"
  let maxFeatureIdx ← json.optional none (Json.asOption Json.asI64) 1 "max_feature_idx"
  let _ ← json.optional none (Json.asOption Json.asI64) 2 "num_class"
  let numTreePerIteration ←
    json.optional none (Json.asOption Json.asI64) 3 "num_tree_per_iteration"
  pure ⟨treeInfo, maxFeatureIdx, numTreePerIteration⟩

section Flattening

variable [Zero K]

def EnclaveTree.empty : EnclaveTree K := ⟨[], [], [], [], []⟩

/-- A slot for a node that is written later. -/
def EnclaveTree.pushSlot (tree : EnclaveTree K) : EnclaveTree K where
  leftChildren := tree.leftChildren ++ [0]
  rightChildren := tree.rightChildren ++ [0]
  splitIndices := tree.splitIndices ++ [0]
  splitConditions := tree.splitConditions ++ [0]
  baseWeights := tree.baseWeights ++ [0]

omit [Zero K] in
def EnclaveTree.setNode (tree : EnclaveTree K) (idx : ℕ) (left right : ℤ) (splitIndex : ℕ)
    (splitCondition baseWeight : K) : EnclaveTree K where
  leftChildren := tree.leftChildren.set idx left
  rightChildren := tree.rightChildren.set idx right
  splitIndices := tree.splitIndices.set idx splitIndex
  splitConditions := tree.splitConditions.set idx splitCondition
  baseWeights := tree.baseWeights.set idx baseWeight

/-- What an internal node gives to the loop. -/
structure SplitNode (K : Type) where
  splitFeature : ℕ
  threshold : K
  leftChild : Json K
  rightChild : Json K

omit [Zero K] in
def readSplitNode [IntCast K] (node : Json K) (idx : ℕ) : Except ModelError (SplitNode K) := do
  let splitFeature ←
    orError (.missing "split_feature" idx) ((node.get "split_feature").bind Json.asI64)
  let threshold ← orError (.missing "threshold" idx) ((node.get "threshold").bind Json.asF64)
  let leftChild ← orError (.missing "left_child" idx) (node.get "left_child")
  let rightChild ← orError (.missing "right_child" idx) (node.get "right_child")
  pure ⟨asUsize splitFeature, threshold, leftChild, rightChild⟩

/-- The loop of `flatten_lgb_tree`, for a given number of rounds. -/
def flattenValues [IntCast K] :
    ℕ → List (Json K × ℕ) → EnclaveTree K → Except ModelError (EnclaveTree K)
  | _, [], tree => .ok tree
  | 0, _ :: _, _ => .error .panics
  | fuel + 1, (node, idx) :: queue, tree =>
    match node.get "leaf_value" with
    | some value => do
      let leafVal ← orError .leafValue value.asF64
      flattenValues fuel queue (tree.setNode idx (-1) (-1) 0 0 leafVal)
    | none => do
      let split ← readSplitNode node idx
      let leftIdx := tree.leftChildren.length
      let rightIdx := leftIdx + 1
      flattenValues fuel (queue ++ [(split.leftChild, leftIdx), (split.rightChild, rightIdx)])
        (tree.pushSlot.pushSlot.setNode idx (wrapI32 leftIdx) (wrapI32 rightIdx) split.splitFeature
          split.threshold 0)

/-- `flatten_lgb_tree`. Each round takes another value of the document off the queue. -/
def flattenLgbTree [IntCast K] (root : Json K) : Except ModelError (EnclaveTree K) :=
  flattenValues root.size [(root, 0)] EnclaveTree.empty.pushSlot

end Flattening

/-- `scan_max_feature`, from the maximum so far. The children of a value are smaller values. -/
def scanMaxFeature : ℕ → Json K → ℕ → ℕ
  | 0, _, maxFeat => maxFeat
  | fuel + 1, node, maxFeat =>
    let here := max maxFeat (((node.get "split_feature").bind Json.asUsize).getD 0)
    let left := match node.get "left_child" with
      | some child => scanMaxFeature fuel child here
      | none => here
    match node.get "right_child" with
    | some child => scanMaxFeature fuel child left
    | none => left

/-- The largest feature of all trees. -/
def maxFeature (treeInfo : List (Option (Json K))) : ℕ :=
  treeInfo.foldl (fun maxFeat ts => match ts with
    | some node => scanMaxFeature node.size node maxFeat
    | none => maxFeat) 0

def lgbNumFeatures (raw : LgbJsonModel K) : ℕ :=
  match raw.maxFeatureIdx with
  | some mfi => asUsize (mfi + 1)
  | none => maxFeature raw.treeInfo + 1

def lgbNumClasses (raw : LgbJsonModel K) : ℕ :=
  let numTreePerIter := asUsize (raw.numTreePerIteration.getD 1)
  if numTreePerIter ≤ 1 then 2 else numTreePerIter

def lgbTree [IntCast K] [Zero K] (ti : Option (Json K) × ℕ) :
    Except ModelError (EnclaveTree K) := do
  let ts ← orError (.noTreeStructure ti.2) ti.1
  flattenLgbTree ts

def parseLightgbm [IntCast K] [Zero K] (json : Json K) :
    Except ModelError (EnclaveEnsemble K) := do
  let raw ← orError .json (readLgbJsonModel json)
  require (decide (raw.treeInfo.length ≠ 0)) .noTrees
  let trees ← raw.treeInfo.zipIdx.mapM lgbTree
  pure ⟨lgbNumFeatures raw, lgbNumClasses raw, 0, trees⟩

/-! ## Scores -/

section Scores

variable [LinearOrder K]

/-- The loop of `traverse_tree`, for a given number of rounds. -/
def traverseFrom (tree : EnclaveTree K) (features : List K) : ℕ → ℕ → Option K
  | 0, _ => none
  | fuel + 1, node => do
    let left ← tree.leftChildren[node]?
    if left = -1 then tree.baseWeights[node]?
    else
      let featIdx ← tree.splitIndices[node]?
      let threshold ← tree.splitConditions[node]?
      let x ← features[featIdx]?
      if x < threshold then traverseFrom tree features fuel (asUsize left)
      else
        let right ← tree.rightChildren[node]?
        traverseFrom tree features fuel (asUsize right)

/-- `traverse_tree`. A walk that visits more nodes than there are never ends. -/
def traverseTree (tree : EnclaveTree K) (features : List K) : Option K :=
  traverseFrom tree features tree.leftChildren.length 0

/-- `predict`: the scores. -/
def predict [Add K] [Zero K] (model : EnclaveEnsemble K) (features : List K) : Option (List K) :=
  if model.numClasses ≤ 2 then do
    let values ← model.trees.mapM fun tree => traverseTree tree features
    pure [values.sum + model.baseScore]
  else
    model.trees.zipIdx.foldlM (fun scores ti => do
      let value ← traverseTree ti.1 features
      pure (scores.modify (ti.2 % model.numClasses) (· + value)))
      (List.replicate model.numClasses model.baseScore)

/-- The class that the scores stand for: the sign of a single score, else the largest of several. -/
def classOfScores [Zero K] : List K → ℕ
  | [score] => if 0 < score then 1 else 0
  | scores => argmax scores

end Scores

end WorldZk.EnclaveModel
