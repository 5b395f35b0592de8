import WorldZk.ModelParsers

/-!
# Random forests of scikit-learn

`parse_random_forest_json`, from the JSON document on. A forest becomes an ensemble whose leaves
hold one scaled share of the class counts.
-/

namespace WorldZk.RandomForest

open CheckedRuns JsonValues ModelParsers TreeEnsemble

variable {K : Type}

/-- The ways in which a forest file is refused, with what the messages say. -/
inductive ForestError where
  | json
  | modelType (found : String)
  | noClasses
  | noFeatures
  | treeCount (nEstimators trees : ℕ)
  | noNodes (tree : ℕ)
  | lengthMismatch (tree childrenLeft childrenRight feature threshold value : ℕ)
  | shortValue (tree node entries nClasses : ℕ)
  | panics
deriving DecidableEq, Repr

/-! ## Documents -/

structure RawSklearnTree (K : Type) where
  childrenLeft : List Json.I32
  childrenRight : List Json.I32
  feature : List Json.I32
  threshold : List K
  value : List (List K)

structure RawRandomForest (K : Type) where
  modelType : String
  nEstimators : ℕ
  nFeatures : ℕ
  nClasses : ℕ
  trees : List (RawSklearnTree K)

section Documents

variable [IntCast K]

def readRawSklearnTree (json : Json K) : Option (RawSklearnTree K) := do
  guard (json.isStruct 5)
  let childrenLeft ← json.required (Json.asVec Json.asI32) 0 "children_left"
  let childrenRight ← json.required (Json.asVec Json.asI32) 1 "children_right"
  let feature ← json.required (Json.asVec Json.asI32) 2 "feature"
  let threshold ← json.required (Json.asVec Json.asF64) 3 "threshold"
  let value ← json.required (Json.asVec (Json.asVec Json.asF64)) 4 "value"
  pure ⟨childrenLeft, childrenRight, feature, threshold, value⟩

def readRawRandomForest (json : Json K) : Option (RawRandomForest K) := do
  guard (json.isStruct 5)
  let modelType ← json.optional "" Json.asString 0 "model_type"
  let nEstimators ← json.required Json.asUsize 1 "n_estimators"
  let nFeatures ← json.required Json.asUsize 2 "n_features"
  let nClasses ← json.required Json.asUsize 3 "n_classes"
  let trees ← json.required (Json.asVec readRawSklearnTree) 4 "trees"
  pure ⟨modelType, nEstimators, nFeatures, nClasses, trees⟩

end Documents

/-! ## Conversion -/

section Conversion

variable [Field K] [LinearOrder K] [FloorRing K]

omit [FloorRing K] in
/-- The largest count. There is one for each class, and at least one class. -/
def maxCount : List K → K
  | [] => 0
  | count :: counts => counts.foldl max count

/-- The scaled share of class 1 for two classes, else the largest share. -/
def scaledShare (counts : List K) (nClasses : ℕ) : K :=
  let total := counts.sum
  if total ≤ 0 then 0
  else
    let scaledValue :=
      if nClasses = 2 then counts.getD 1 0 / total * FIXED_POINT_SCALE
      else maxCount (counts.take nClasses) / total * FIXED_POINT_SCALE
    (roundHalfAway scaledValue : K)

/-- `compute_leaf_value`. -/
def computeLeafValue (counts : List K) (nClasses treeIdx nodeIdx : ℕ) : Except ForestError K := do
  require (decide (nClasses ≤ counts.length))
    (.shortValue treeIdx nodeIdx counts.length nClasses)
  pure (scaledShare counts nClasses)

/-- One round of the loop over the nodes. -/
def sklearnNode (raw : RawSklearnTree K) (nClasses treeIdx i : ℕ) :
    Except ForestError (TreeNode K) := do
  let left ← okOr .panics raw.childrenLeft[i]?
  if left.1 = -1 then
    let counts ← okOr .panics raw.value[i]?
    let leafValue ← computeLeafValue counts nClasses treeIdx i
    pure (leafNode leafValue)
  else
    let feature ← okOr .panics raw.feature[i]?
    let threshold ← okOr .panics raw.threshold[i]?
    let right ← okOr .panics raw.childrenRight[i]?
    pure ⟨feature.1, threshold, asUsize left.1, asUsize right.1, 0, false, feature.range⟩

/-- `convert_sklearn_tree`. -/
def convertSklearnTree (raw : RawSklearnTree K) (nClasses treeIdx : ℕ) :
    Except ForestError (DecisionTree K) := do
  let n := raw.childrenLeft.length
  require (decide (n ≠ 0)) (.noNodes treeIdx)
  require (decide (raw.childrenRight.length = n ∧ raw.feature.length = n ∧
      raw.threshold.length = n ∧ raw.value.length = n))
    (.lengthMismatch treeIdx n raw.childrenRight.length raw.feature.length raw.threshold.length
      raw.value.length)
  let nodes ← (List.range n).mapM (sklearnNode raw nClasses treeIdx)
  pure ⟨nodes⟩

/-- One round of the loop over the trees, with the depth of the tree. -/
def forestTree (nClasses : ℕ) (ti : RawSklearnTree K × ℕ) :
    Except ForestError (DecisionTree K × ℕ) := do
  let tree ← convertSklearnTree ti.1 nClasses ti.2
  let depth ← okOr .panics (treeDepth tree)
  pure (tree, depth)

/-- The checks on the parameters of a forest. -/
def checkForest (raw : RawRandomForest K) : Except ForestError Unit := do
  require (decide (raw.modelType = "" ∨ raw.modelType = "random_forest"))
    (.modelType raw.modelType)
  require (decide (raw.nClasses ≠ 0)) .noClasses
  require (decide (raw.nFeatures ≠ 0)) .noFeatures
  require (decide (raw.trees.length = raw.nEstimators))
    (.treeCount raw.nEstimators raw.trees.length)

/-- A forest has no additive base score. -/
def forestHeader (raw : RawRandomForest K) : ModelHeader K where
  numFeatures := raw.nFeatures
  numClasses := raw.nClasses
  baseScore := 0

def parseRandomForestJson (json : Json K) : Except ForestError (XgboostModel K) := do
  let raw ← okOr .json (readRawRandomForest json)
  checkForest raw
  let trees ← raw.trees.zipIdx.mapM (forestTree raw.nClasses)
  pure (assemble (forestHeader raw) trees)

end Conversion

end WorldZk.RandomForest
