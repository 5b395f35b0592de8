import WorldZk.I64Arithmetic
import WorldZk.ModelParsers

/-!
# Multi-layer perceptrons

The networks of `mlp.rs`: what `validate_mlp` accepts, the forward pass in exact arithmetic, and the
ensemble of lookup trees that `mlp_to_xgboost` makes of a network. The exponential function is a
parameter.
-/

namespace WorldZk.MlpModel

open CheckedRuns CircuitPreparation I64Arithmetic ModelParsers TreeEnsemble
open scoped NamedInstances

inductive Activation where
  | relu
  | sigmoid
  | none
deriving DecidableEq, Repr

structure MLPLayer (K : Type) where
  /-- One row for each neuron. -/
  weights : List (List K)
  biases : List K
  activation : Activation

structure MLPModel (K : Type) where
  nFeatures : ℕ
  nClasses : ℕ
  layers : List (MLPLayer K)

/-- The ways in which a network or its input is refused, with what the messages say. -/
inductive MlpError where
  | noFeatures
  | noClasses
  | noLayers
  | tooManyFeatures (nFeatures : ℕ)
  | biasCount (layer biases weights : ℕ)
  | noWeights (layer : ℕ)
  | inputCount (layer neuron expected got : ℕ)
  | outputCount (outputs nClasses : ℕ)
  | featureCount (expected got : ℕ)
  | panics
deriving DecidableEq, Repr

/-! ## Validation -/

section Validation

variable {K : Type}

/-- One round of the loop over the layers: the inputs of a layer are the outputs before it. -/
def validateLayer (expectedIn : ℕ) (layer : MLPLayer K × ℕ) : Except MlpError ℕ := do
  let weights := layer.1.weights
  require (decide (layer.1.biases.length = weights.length))
    (.biasCount layer.2 layer.1.biases.length weights.length)
  require (decide (weights ≠ [])) (.noWeights layer.2)
  weights.zipIdx.forM fun row =>
    require (decide (row.1.length = expectedIn))
      (.inputCount layer.2 row.2 expectedIn row.1.length)
  pure weights.length

def validateMlp (mlp : MLPModel K) : Except MlpError Unit := do
  require (decide (mlp.nFeatures ≠ 0)) .noFeatures
  require (decide (mlp.nClasses ≠ 0)) .noClasses
  require (decide (mlp.layers ≠ [])) .noLayers
  require (decide (mlp.nFeatures ≤ 8)) (.tooManyFeatures mlp.nFeatures)
  -- the outputs of the last layer come out of the loop
  let lastOut ← mlp.layers.zipIdx.foldlM validateLayer mlp.nFeatures
  require (decide (lastOut = mlp.nClasses)) (.outputCount lastOut mlp.nClasses)

end Validation

/-! ## The forward pass -/

section Forward

variable {K : Type} [Field K] [LinearOrder K] (exp : K → K)

def applyActivation (activation : Activation) (values : List K) : List K :=
  match activation with
  | .relu => values.map fun v => if v < 0 then 0 else v
  | .sigmoid => values.map fun v => 1 / (1 + exp (-v))
  | .none => values

/-- The values before the activation; a neuron without a bias stays at 0. -/
def preActivations (layer : MLPLayer K) (activations : List K) : List K :=
  resize (List.zipWith (fun row bias => sumProducts row activations + bias)
    layer.weights layer.biases) layer.weights.length 0

def forwardLayer (activations : List K) (layer : MLPLayer K) : List K :=
  applyActivation exp layer.activation (preActivations layer activations)

def predictMlp (mlp : MLPModel K) (features : List K) : Except MlpError (List K) :=
  if features.length ≠ mlp.nFeatures then
    .error (.featureCount mlp.nFeatures features.length)
  else .ok (mlp.layers.foldl (forwardLayer exp) features)

/-- `predict_mlp_class`: of equal scores the last one counts. -/
def predictMlpClass (mlp : MLPModel K) (features : List K) : Except MlpError ℕ := do
  let scores ← predictMlp exp mlp features
  pure (argmax scores)

end Forward

/-! ## Lookup trees -/

section Lookup

variable {K : Type} [Field K] [LinearOrder K] [FloorRing K] (exp : K → K)

/-- One round of the loop over the nodes of a tree in level order. -/
def lookupNode (mlp : MLPModel K) (classIdx depth : ℕ) (threshold : K) (i : ℕ) :
    Except MlpError (TreeNode K) :=
  let firstLeaf := 2 ^ depth - 1
  if i < firstLeaf then
    let level := Nat.log2 (i + 1)
    pure ⟨wrapI32 level, threshold, 2 * i + 1, 2 * i + 2, 0, false, wrapI32_range _⟩
  else do
    let leafOffset := i - firstLeaf
    let midpointFeatures := (List.range depth).map fun k =>
      if leafOffset.testBit (depth - 1 - k) then 3 / 4 else 1 / 4
    let outputs ← predictMlp exp mlp midpointFeatures
    let rawScore ← okOr .panics outputs[classIdx]?
    pure (leafNode ((quantize rawScore : K) / FIXED_POINT_SCALE))

def buildMlpLookupTree (mlp : MLPModel K) (classIdx depth : ℕ) (threshold : K) :
    Except MlpError (DecisionTree K) := do
  let totalNodes := 2 ^ (depth + 1) - 1
  let nodes ← (List.range totalNodes).mapM (lookupNode exp mlp classIdx depth threshold)
  pure ⟨nodes⟩

def mlpToXgboost (mlp : MLPModel K) : Except MlpError (XgboostModel K) := do
  validateMlp mlp
  let threshold := 1 / 2
  let trees ← (List.range mlp.nClasses).mapM fun classIdx =>
    buildMlpLookupTree exp mlp classIdx mlp.nFeatures threshold
  pure
    { numFeatures := mlp.nFeatures
      numClasses := mlp.nClasses
      maxDepth := mlp.nFeatures
      trees := trees
      baseScore := 0 }

end Lookup

/-! ## Widths of the layers -/

section Widths

variable {K : Type}

/-- The widths of the layers fit each other, from a number of inputs to a number of outputs. -/
def WidthsFit : ℕ → List (MLPLayer K) → ℕ → Prop
  | inputs, [], outputs => inputs = outputs
  | inputs, layer :: layers, outputs =>
    layer.biases.length = layer.weights.length ∧ layer.weights ≠ [] ∧
      (∀ row ∈ layer.weights, row.length = inputs) ∧ WidthsFit layer.weights.length layers outputs

theorem validateLayer_eq_ok {expectedIn out : ℕ} {layer : MLPLayer K × ℕ} :
    validateLayer expectedIn layer = .ok out ↔
      layer.1.biases.length = layer.1.weights.length ∧ layer.1.weights ≠ [] ∧
        (∀ row ∈ layer.1.weights, row.length = expectedIn) ∧ layer.1.weights.length = out := by
  have hrows : (∀ row ∈ layer.1.weights.zipIdx, row.1.length = expectedIn) ↔
      ∀ row ∈ layer.1.weights, row.length = expectedIn := by
    constructor
    · intro h row hrow
      obtain ⟨i, hi⟩ := List.mem_iff_getElem?.mp hrow
      exact h (row, i) (List.mem_zipIdx_iff_getElem?.mpr hi)
    · intro h row hrow
      exact h row.1 (List.mem_of_getElem? (List.mem_zipIdx_iff_getElem?.mp hrow))
  simp only [validateLayer, bind_eq_ok, require_eq_ok, decide_eq_true_eq, pure_eq_ok, forM_eq_ok,
    hrows]
  constructor
  · rintro ⟨_, hbiases, _, hweights, _, hinputs, hout⟩
    exact ⟨hbiases, hweights, hinputs, hout⟩
  · rintro ⟨hbiases, hweights, hinputs, hout⟩
    exact ⟨(), hbiases, (), hweights, (), hinputs, hout⟩

private theorem validateLayers_eq_ok {layers : List (MLPLayer K)} {start inputs outputs : ℕ} :
    (layers.zipIdx start).foldlM validateLayer inputs = .ok outputs ↔
      WidthsFit inputs layers outputs := by
  induction layers generalizing start inputs with
  | nil => exact pure_eq_ok
  | cons layer layers ih =>
    rw [List.zipIdx_cons, List.foldlM_cons, bind_eq_ok, WidthsFit]
    simp only [validateLayer_eq_ok, ih]
    constructor
    · rintro ⟨_, ⟨hbiases, hweights, hinputs, rfl⟩, hrest⟩
      exact ⟨hbiases, hweights, hinputs, hrest⟩
    · rintro ⟨hbiases, hweights, hinputs, hrest⟩
      exact ⟨_, ⟨hbiases, hweights, hinputs, rfl⟩, hrest⟩

theorem validateMlp_eq_ok {mlp : MLPModel K} : validateMlp mlp = .ok () ↔
    mlp.nFeatures ≠ 0 ∧ mlp.nClasses ≠ 0 ∧ mlp.layers ≠ [] ∧ mlp.nFeatures ≤ 8 ∧
      WidthsFit mlp.nFeatures mlp.layers mlp.nClasses := by
  simp only [validateMlp, bind_eq_ok, require_eq_ok, decide_eq_true_eq, validateLayers_eq_ok]
  constructor
  · rintro ⟨_, hfeatures, _, hclasses, _, hlayers, _, hmax, out, hwidths, rfl⟩
    exact ⟨hfeatures, hclasses, hlayers, hmax, hwidths⟩
  · rintro ⟨hfeatures, hclasses, hlayers, hmax, hwidths⟩
    exact ⟨(), hfeatures, (), hclasses, (), hlayers, (), hmax, _, hwidths, rfl⟩

end Widths

section Lengths

variable {K : Type} [Field K] [LinearOrder K] (exp : K → K)

@[simp] theorem length_resize {α : Type} (xs : List α) (n : ℕ) (default : α) :
    (resize xs n default).length = n := by
  rw [resize, List.length_append, List.length_take, List.length_replicate]
  omega

@[simp] theorem length_applyActivation (activation : Activation) (values : List K) :
    (applyActivation exp activation values).length = values.length := by
  cases activation
  · exact List.length_map _
  · exact List.length_map _
  · rfl

@[simp] theorem length_forwardLayer (layer : MLPLayer K) (activations : List K) :
    (forwardLayer exp activations layer).length = layer.weights.length := by
  rw [forwardLayer, length_applyActivation, preActivations, length_resize]

theorem length_forward {layers : List (MLPLayer K)} {inputs outputs : ℕ}
    (h : WidthsFit inputs layers outputs) {activations : List K}
    (hlength : activations.length = inputs) :
    (layers.foldl (forwardLayer exp) activations).length = outputs := by
  induction layers generalizing inputs activations with
  | nil => exact hlength.trans h
  | cons layer layers ih => exact ih h.2.2.2 (length_forwardLayer exp layer activations)

theorem predictMlp_eq_ok {mlp : MLPModel K} {features : List K}
    (hlength : features.length = mlp.nFeatures) :
    predictMlp exp mlp features = .ok (mlp.layers.foldl (forwardLayer exp) features) :=
  if_neg (not_not_intro hlength)

end Lengths

end WorldZk.MlpModel
