import WorldZk.I64Arithmetic
import Mathlib.Analysis.SpecialFunctions.Sigmoid

/-!
# Logistic regression

`predict` of a logistic-regression model, the inputs that `prepare_logreg_inputs` computes for its
circuit, and the model that these inputs describe. The circuit decides by the sign of the score.
-/

namespace WorldZk.LogisticRegression

open CircuitCompleteness CircuitDescription CircuitPreparation I64Arithmetic InferenceCircuit
open TreeEnsemble
open scoped NamedInstances

structure LogisticRegressionModel (K : Type) where
  weights : List K
  bias : K
  threshold : K

/-! ## Inference -/

structure LogRegResult where
  logit : ℝ
  probability : ℝ
  predictedClass : ℕ

inductive LogRegError where
  | featureCount (expected got : ℕ)
deriving DecidableEq, Repr

noncomputable def sigmoid (x : ℝ) : ℝ := 1 / (1 + Real.exp (-x))

noncomputable def predict (model : LogisticRegressionModel ℝ) (features : List ℝ) :
    Except LogRegError LogRegResult :=
  if features.length ≠ model.weights.length then
    .error (.featureCount model.weights.length features.length)
  else
    let logit := sumProducts model.weights features + model.bias
    let probability := sigmoid logit
    .ok
      { logit := logit
        probability := probability
        predictedClass := if model.threshold ≤ probability then 1 else 0 }

/-! ## Inputs of the circuit -/

def DECOMP_K : ℕ := 48

structure LogRegCircuitInputs where
  featuresQuantized : List ℤ
  weightsQuantized : List ℤ
  biasQuantized : ℤ
  expectedClass : ℤ
  decompBits : List Bool
  nPadded : ℕ
  decompK : ℕ
deriving DecidableEq

section Inputs

variable {K : Type} [Field K] [LinearOrder K] [FloorRing K]

/-- What `prepare_logreg_inputs` does with the quantized numbers. -/
def prepareQuantized (checks : OverflowChecks) (nPadded : ℕ) (featuresQ weightsQ : List ℤ)
    (biasQ : ℤ) : Option LogRegCircuitInputs := do
  let decompK := DECOMP_K
  let dotProduct ← addProducts checks 0 (featuresQ.zip weightsQ)
  let logitQ ← i64 checks (dotProduct + biasQ)
  let expectedClass := if 0 ≤ logitQ then 1 else 0
  let offset := 2 ^ (decompK - 1)
  let shifted ← i64 checks (logitQ + offset)
  let decompBits ← decompose decompK shifted
  pure
    { featuresQuantized := featuresQ
      weightsQuantized := weightsQ
      biasQuantized := biasQ
      expectedClass := expectedClass
      decompBits := decompBits
      nPadded := nPadded
      decompK := decompK }

/-- `prepare_logreg_inputs`; its assertions and checked overflows give `none`. -/
def prepareLogregInputs (checks : OverflowChecks) (model : LogisticRegressionModel K)
    (features : List K) : Option LogRegCircuitInputs :=
  if features.length ≠ model.weights.length then none
  else
    let nPadded := nextPowerOfTwo model.weights.length
    let featuresQ := resize (features.map quantize) nPadded 0
    let weightsQ := resize (model.weights.map quantize) nPadded 0
    prepareQuantized checks nPadded featuresQ weightsQ (quantizeBias model.bias)

end Inputs

/-! ## The model in the circuit -/

/-- The exact score of the quantized numbers. -/
noncomputable def fixedPointScore (model : LogisticRegressionModel ℝ) (features : List ℝ) : ℤ :=
  sumProducts (features.map quantize) (model.weights.map quantize) + quantizeBias model.bias

/-- The model with its numbers as the circuit has them, and the threshold of the sign. -/
noncomputable def rounded (model : LogisticRegressionModel ℝ) : LogisticRegressionModel ℝ where
  weights := model.weights.map fun w => (quantize w : ℝ) / FIXED_POINT_SCALE
  bias := (quantizeBias model.bias : ℝ) / FIXED_POINT_SCALE / FIXED_POINT_SCALE
  threshold := 1 / 2

/-- A multiple of `2 ^ -16` whose fixed-point form is an `i64`. -/
def IsFixedPoint (x : ℝ) : Prop := (∃ k : ℤ, x * FIXED_POINT_SCALE = k) ∧ InRange x

/-- The model loses nothing in fixed point. -/
structure IsExact (model : LogisticRegressionModel ℝ) : Prop where
  weights : ∀ w ∈ model.weights, IsFixedPoint w
  bias : ∃ k : ℤ, FitsI64 k ∧ model.bias * FIXED_POINT_SCALE * FIXED_POINT_SCALE = k
  threshold : model.threshold = 1 / 2

theorem rounded_of_isExact {model : LogisticRegressionModel ℝ} (h : IsExact model) :
    rounded model = model := by
  obtain ⟨k, hk, hbias⟩ := h.bias
  have hweight : ∀ w ∈ model.weights, (quantize w : ℝ) / FIXED_POINT_SCALE = id w := by
    intro w hw
    obtain ⟨hexact, hrange⟩ := h.weights w hw
    rw [quantize_of_exact hexact hrange, mul_div_cancel_right₀ _ scale_pos.ne', id_eq]
  have hweights := (List.map_congr_left hweight).trans (List.map_id _)
  have hquantized : (quantizeBias model.bias : ℝ) / FIXED_POINT_SCALE / FIXED_POINT_SCALE =
      model.bias := by
    rw [quantizeBias_of_fits hk hbias, ← hbias, mul_div_cancel_right₀ _ scale_pos.ne',
      mul_div_cancel_right₀ _ scale_pos.ne']
  rw [rounded, hweights, hquantized, ← h.threshold]

/-! ## The score and the logit -/

private theorem sumProducts_rounded {weights features : List ℝ}
    (hfeatures : ∀ x ∈ features, IsFixedPoint x) :
    sumProducts (weights.map fun w => (quantize w : ℝ) / FIXED_POINT_SCALE) features *
        FIXED_POINT_SCALE * FIXED_POINT_SCALE =
      (sumProducts (features.map quantize) (weights.map quantize) : ℤ) := by
  induction weights generalizing features with
  | nil => simp
  | cons w weights ih =>
    cases features with
    | nil => simp
    | cons x features =>
      obtain ⟨hexact, hrange⟩ := hfeatures x List.mem_cons_self
      have hrest := ih fun y hy => hfeatures y (List.mem_cons_of_mem _ hy)
      have hx := quantize_of_exact hexact hrange
      rw [List.map_cons, List.map_cons, List.map_cons, sumProducts_cons, sumProducts_cons, add_mul,
        add_mul, hrest, Int.cast_add, Int.cast_mul, hx]
      have hscale := (@scale_pos ℝ _ _ _).ne'
      field_simp

private theorem logit_nonneg_iff {model : LogisticRegressionModel ℝ} {features : List ℝ}
    (hfeatures : ∀ x ∈ features, IsFixedPoint x) :
    0 ≤ sumProducts (rounded model).weights features + (rounded model).bias ↔
      0 ≤ fixedPointScore model features := by
  have hscaled : (sumProducts (rounded model).weights features + (rounded model).bias) *
      (FIXED_POINT_SCALE * FIXED_POINT_SCALE) = (fixedPointScore model features : ℝ) := by
    rw [fixedPointScore, Int.cast_add, ← sumProducts_rounded hfeatures, rounded]
    have hscale := (@scale_pos ℝ _ _ _).ne'
    field_simp
  have hscore : 0 ≤ (fixedPointScore model features : ℝ) ↔ 0 ≤ fixedPointScore model features :=
    Int.cast_nonneg_iff
  rw [← hscore, ← hscaled, mul_nonneg_iff_of_pos_right (mul_pos scale_pos scale_pos)]

theorem sigmoid_eq (x : ℝ) : sigmoid x = Real.sigmoid x := by
  rw [sigmoid, Real.sigmoid_def, one_div]

theorem half_le_sigmoid_iff {x : ℝ} : 1 / 2 ≤ sigmoid x ↔ 0 ≤ x := by
  rw [sigmoid_eq, one_div, ← Real.sigmoid_zero, Real.sigmoid_le_iff]

/-! ## The expected class -/

private theorem expectedClass_of_prepareQuantized {checks : OverflowChecks} {nPadded : ℕ}
    {featuresQ weightsQ : List ℤ} {biasQ : ℤ} {inputs : LogRegCircuitInputs}
    (h : prepareQuantized checks nPadded featuresQ weightsQ biasQ = some inputs)
    (hfits : FitsI64 (sumProducts featuresQ weightsQ + biasQ)) :
    inputs.expectedClass = if 0 ≤ sumProducts featuresQ weightsQ + biasQ then 1 else 0 := by
  obtain ⟨dot, hdot, h⟩ := Option.bind_eq_some_iff.mp h
  obtain ⟨logitQ, hlogit, h⟩ := Option.bind_eq_some_iff.mp h
  obtain ⟨shifted, -, h⟩ := Option.bind_eq_some_iff.mp h
  obtain ⟨decompBits, -, h⟩ := Option.bind_eq_some_iff.mp h
  have hsum := addProducts_emod hdot
  rw [zip_products, zero_add] at hsum
  obtain ⟨hfitsLogit, hmod⟩ := i64_spec hlogit
  have hlogitQ : logitQ = sumProducts featuresQ weightsQ + biasQ := by
    refine eq_of_emod_eq hfitsLogit hfits ?_
    rw [hmod, Int.add_emod, hsum, ← Int.add_emod]
  rw [← hlogitQ, ← Option.some.inj h]

/-- One weight `1` without a bias. -/
noncomputable def unitModel (threshold : ℝ) : LogisticRegressionModel ℝ := ⟨[1], 0, threshold⟩

private theorem quantize_unit : quantize (1 : ℝ) = 65536 := by
  refine quantize_of_fits (by decide) ?_
  rw [FIXED_POINT_SCALE]
  norm_num

private theorem quantize_zero : quantize (0 : ℝ) = 0 :=
  quantize_of_fits (by decide) (by rw [zero_mul, Int.cast_zero])

private theorem quantizeBias_zero : quantizeBias (0 : ℝ) = 0 :=
  quantizeBias_of_fits (by decide) (by rw [zero_mul, zero_mul, Int.cast_zero])

private theorem prepare_unitModel (threshold x : ℝ) :
    prepareLogregInputs .on (unitModel threshold) [x] =
      prepareQuantized .on 1 [quantize x] [65536] 0 := by
  have hpadded : nextPowerOfTwo 1 = 1 := nextPowerOfTwo_two_pow 0
  have hlength : ¬[x].length ≠ (unitModel threshold).weights.length := by simp [unitModel]
  rw [prepareLogregInputs, if_neg hlength]
  simp [unitModel, hpadded, resize, quantize_unit, quantizeBias_zero]

end WorldZk.LogisticRegression
