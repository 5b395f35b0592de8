import WorldZk.MlpCircuitInputs
import Mathlib.Analysis.SpecialFunctions.Exp

/-!
# The forward pass in integers

The integers of `prepare_mlp_circuit_inputs` are those of a real network, which carries the bias of
layer `l` divided by the scale to the power `l`: the scale of the values grows with each layer, and
that of the biases does not.
-/

namespace WorldZk.MlpForward

open CheckedRuns CircuitCompleteness CircuitDescription CircuitPreparation I64Arithmetic
open InferenceCircuit MlpCircuitInputs MlpModel TreeEnsemble

section Carried

variable {K : Type} [Field K] [LinearOrder K] [FloorRing K] (exp : K → K)

/-! ## The network that the integers stand for -/

/-- Layer `l` of the network that the integers stand for. A sigmoid passes values through. -/
def carriedLayer (l : ℕ) (layer : MLPLayer K) : MLPLayer K where
  weights := layer.weights.map fun row => row.map fun w => (quantize w : K) / FIXED_POINT_SCALE
  biases := layer.biases.map fun bias => (quantizeBias bias : K) / FIXED_POINT_SCALE ^ (l + 2)
  activation := match layer.activation with
    | .relu => .relu
    | .none => .none
    | .sigmoid => .none

def carriedLayers : ℕ → List (MLPLayer K) → List (MLPLayer K)
  | _, [] => []
  | l, layer :: layers => carriedLayer l layer :: carriedLayers (l + 1) layers

def carriedNetwork (mlp : MLPModel K) : MLPModel K :=
  { mlp with layers := carriedLayers 0 mlp.layers }

def carriedInput (features : List K) : List K :=
  features.map fun x => (quantize x : K) / FIXED_POINT_SCALE

/-- The products and sums of a neuron are in range at a scale. -/
def NeuronFits (scale : K) (activations : List K) (p : List K × K) : Prop :=
  SumsFit (FitsScaled scale) 0 (p.1.zip activations) ∧
    FitsScaled scale (sumProducts p.1 activations + p.2)

/-- The products and sums of all layers, from layer `l` on, are in range at their scales. -/
def LayersFit : ℕ → List (MLPLayer K) → List K → Prop
  | _, [], _ => True
  | l, layer :: layers, activations =>
    (∀ p ∈ layer.weights.zip layer.biases,
      NeuronFits ((FIXED_POINT_SCALE : K) ^ (l + 2)) activations p) ∧
      LayersFit (l + 1) layers (forwardLayer exp activations layer)

/-! ## Exactness -/

/-- A build with overflow checks returns the same inputs, and their expected outputs are the outputs
of the network, at the scale to the power of the number of layers and one. -/
def ForwardExact (mlp : MLPModel K) (features : List K) (inputs : MLPCircuitInputs) : Prop :=
  prepareMlpCircuitInputs .on mlp features = some inputs ∧
    ∃ outputs, predictMlp exp mlp features = .ok outputs ∧
      inputs.expectedOutputs.map (Int.cast : ℤ → K) =
        resize (outputs.map (· * (FIXED_POINT_SCALE : K) ^ (mlp.layers.length + 1)))
          inputs.nOutputsPadded 0

/-- The network that the integers stand for has the outputs of the network, and its products and
sums are in range. -/
def CarriedExact (mlp : MLPModel K) (features : List K) : Prop :=
  predictMlp exp (carriedNetwork mlp) (carriedInput features) = predictMlp exp mlp features ∧
    LayersFit exp 0 (carriedNetwork mlp).layers (carriedInput features)

end Carried

/-! ## Integers at a scale -/

section Scaled

variable {K : Type} [Field K]

/-- Integers that stand for numbers at a scale. -/
def ScaledBy (scale : K) (zs : List ℤ) (xs : List K) : Prop :=
  List.Forall₂ (fun (z : ℤ) x => (z : K) = x * scale) zs xs

variable {scale scale' : K} {row core : List ℤ} {ws xs : List K}

theorem sumProducts_scaled (hrow : ScaledBy scale row ws) (hcore : ScaledBy scale' core xs) :
    ((sumProducts row core : ℤ) : K) = sumProducts ws xs * (scale * scale') := by
  induction hrow generalizing core xs with
  | nil => simp
  | cons hw _ ih =>
    cases hcore with
    | nil => simp
    | cons hx hrest =>
      rw [sumProducts_cons, sumProducts_cons, Int.cast_add, Int.cast_mul, hw, hx, ih hrest]
      ring

theorem zip_scaled (hrow : ScaledBy scale row ws) (hcore : ScaledBy scale' core xs) :
    List.Forall₂ (fun p r => ((p.1 * p.2 : ℤ) : K) = r.1 * r.2 * (scale * scale'))
      (row.zip core) (ws.zip xs) := by
  induction hrow generalizing core xs with
  | nil => exact .nil
  | cons hw _ ih =>
    cases hcore with
    | nil => exact .nil
    | cons hx hrest =>
      refine .cons ?_ (ih hrest)
      rw [Int.cast_mul, hw, hx]
      ring

theorem scaledBy_map {α : Type} (f : α → ℤ) (hscale : scale ≠ 0) (as : List α) :
    ScaledBy scale (as.map f) (as.map fun a => (f a : K) / scale) := by
  refine List.forall₂_map_left_iff.mpr (List.forall₂_map_right_iff.mpr (List.forall₂_same.mpr ?_))
  exact fun a _ => (div_mul_cancel₀ _ hscale).symm

end Scaled

/-! ## One neuron -/

theorem resize_of_length {α : Type} {xs : List α} {n : ℕ} (h : xs.length = n) (default : α) :
    resize xs n default = xs := by
  rw [resize, List.take_of_length_le h.le, h, Nat.sub_self, List.replicate_zero, List.append_nil]

theorem neuron_off_of_on {activations : List ℤ} {p : List ℤ × ℤ} {z : ℤ}
    (h : neuron .on activations p = some z) : neuron .off activations p = some z := by
  obtain ⟨dot, hdot, hz⟩ := Option.bind_eq_some_iff.mp h
  exact Option.bind_eq_some_iff.mpr ⟨dot, addProducts_off_of_on hdot, i64_off_of_on hz⟩

/-- With checks, a neuron gives its exact value if its products and sums are in range. -/
theorem neuron_on_iff {core row : List ℤ} (hlength : row.length = core.length) {k : ℕ}
    (hk : core.length ≤ k) {bias z : ℤ} :
    neuron .on (resize core k 0) (resize row k 0, bias) = some z ↔
      (SumsFit FitsI64 0 (row.zip core) ∧ FitsI64 (sumProducts row core + bias)) ∧
        z = sumProducts row core + bias := by
  have hzip : (resize row k 0).zip (resize core k 0) =
      row.zip core ++ List.replicate (k - core.length) (0, 0) := by
    rw [resize, resize, List.take_of_length_le hk, List.take_of_length_le (hlength ▸ hk),
      List.zip_append hlength, hlength, List.zip_replicate, min_self]
  have hsum : ((row.zip core ++ List.replicate (k - core.length) ((0 : ℤ), (0 : ℤ))).map
      fun p => p.1 * p.2).sum = sumProducts row core := by
    rw [List.map_append, List.sum_append, zip_products]
    simp
  rw [neuron, Option.bind_eq_bind, Option.bind_eq_some_iff]
  simp only [addProducts_on_iff, hzip, hsum, i64_on_iff, zero_add,
    sumsFit_append_zeros (by decide : FitsI64 0)]
  constructor
  · rintro ⟨_, ⟨hfit, rfl⟩, hvalue, hz⟩
    exact ⟨⟨hfit, hvalue⟩, hz⟩
  · rintro ⟨⟨hfit, hvalue⟩, hz⟩
    exact ⟨_, ⟨hfit, rfl⟩, hvalue, hz⟩

/-! ## One layer -/

section Layers

variable {K : Type} [Field K] [LinearOrder K] [FloorRing K] {layer : MLPLayer K} {nIn : ℕ}
  {state state' : ForwardState} {core : List ℤ} {xs : List K} {l layerIdx : ℕ}

private theorem mapM_entries {α : Type} (xs : List α) :
    (List.range xs.length).mapM (fun i => xs[i]?) = some xs := by
  refine mapM_eq_some.mpr (List.forall₂_iff_get.mpr ⟨List.length_range, fun i hi hi' => ?_⟩)
  rw [List.get_eq_getElem, List.get_eq_getElem, List.getElem_range, List.getElem?_eq_getElem]

/-- The rows of a layer fit its inputs, and its biases its neurons. -/
structure LayerShape (layer : MLPLayer K) (nIn : ℕ) : Prop where
  biases : layer.biases.length = layer.weights.length
  nonempty : layer.weights ≠ []
  rows : ∀ row ∈ layer.weights, row.length = nIn

/-- The exact values of the neurons. -/
def exactValues (layer : MLPLayer K) (core : List ℤ) : List ℤ :=
  (layer.weights.zip layer.biases).map fun p =>
    sumProducts (p.1.map quantize) core + quantizeBias p.2

/-- The products and sums of all neurons are in range. -/
def IntegersFit (layer : MLPLayer K) (core : List ℤ) : Prop :=
  ∀ p ∈ layer.weights.zip layer.biases, SumsFit FitsI64 0 ((p.1.map quantize).zip core) ∧
    FitsI64 (sumProducts (p.1.map quantize) core + quantizeBias p.2)

/-- The padded rows of a layer. -/
private def paddedRows (layer : MLPLayer K) (nIn : ℕ) : List (List ℤ) :=
  layer.weights.map fun row => resize (row.map quantize) (nextPowerOfTwo nIn) 0

/-- What a round records before the activation. -/
private def recorded (state : ForwardState) (layer : MLPLayer K) (nIn : ℕ) : ForwardState :=
  { state with
    nPadded := nextPowerOfTwo layer.weights.length
    layerWeights := state.layerWeights ++ [(paddedRows layer nIn).flatten ++ List.replicate
      ((nextPowerOfTwo layer.weights.length - layer.weights.length) * nextPowerOfTwo nIn) 0]
    layerBiases := state.layerBiases ++
      [resize (layer.biases.map quantizeBias) (nextPowerOfTwo layer.weights.length) 0]
    layerDims := state.layerDims ++ [(nextPowerOfTwo nIn, nextPowerOfTwo layer.weights.length)] }

/-- A round of the loop once its rows and biases are there. -/
private theorem mlpLayer_eq (hshape : LayerShape layer nIn)
    (hactivations : state.activations.length = nextPowerOfTwo nIn) (checks : OverflowChecks) :
    mlpLayer checks state (layer, layerIdx) =
      (((paddedRows layer nIn).zip (layer.biases.map quantizeBias)).mapM
        (neuron checks state.activations)).bind fun zs =>
          activate (recorded state layer nIn) layerIdx
            (resize zs (nextPowerOfTwo layer.weights.length) 0) layer.activation := by
  obtain ⟨row, rows, hweights⟩ := List.exists_cons_of_ne_nil hshape.nonempty
  have hfirst : layer.weights[0]? = some row := by
    rw [hweights]
    rfl
  have hrow : row.length = nIn := hshape.rows row (List.mem_of_getElem? hfirst)
  have hquantized : quantizeRows layer.weights nIn (nextPowerOfTwo nIn) =
      some (paddedRows layer nIn) := by
    refine mapM_eq_some.mpr (List.forall₂_map_right_iff.mpr (List.forall₂_same.mpr ?_))
    intro row hmem
    rw [← hshape.rows row hmem, mapM_entries]
    rfl
  have hbiases : quantizeBiases layer.biases layer.weights.length =
      some (layer.biases.map quantizeBias) := by
    rw [quantizeBiases, ← hshape.biases, mapM_entries]
    rfl
  rw [mlpLayer, hfirst]
  dsimp only [Option.bind_eq_bind, Option.bind_some]
  rw [hrow, hquantized, hbiases, resize_of_length hactivations]
  rfl

/-- The values of the neurons of a layer, with checks and without. -/
private theorem neurons_on_iff (hshape : LayerShape layer nIn) (hcore : core.length = nIn)
    {zs : List ℤ} :
    ((paddedRows layer nIn).zip (layer.biases.map quantizeBias)).mapM
        (neuron .on (resize core (nextPowerOfTwo nIn) 0)) = some zs ↔
      IntegersFit layer core ∧ zs = exactValues layer core := by
  have hneuron : ∀ p ∈ layer.weights.zip layer.biases, ∀ z,
      neuron .on (resize core (nextPowerOfTwo nIn) 0)
          (resize (p.1.map quantize) (nextPowerOfTwo nIn) 0, quantizeBias p.2) = some z ↔
        (SumsFit FitsI64 0 ((p.1.map quantize).zip core) ∧
          FitsI64 (sumProducts (p.1.map quantize) core + quantizeBias p.2)) ∧
            z = sumProducts (p.1.map quantize) core + quantizeBias p.2 := by
    intro p hp z
    refine neuron_on_iff ?_ (hcore ▸ le_nextPowerOfTwo _)
    rw [List.length_map, hshape.rows p.1 (List.of_mem_zip hp).1, hcore]
  rw [mapM_eq_some, paddedRows, List.zip_map, List.forall₂_map_left_iff, IntegersFit, exactValues]
  generalize layer.weights.zip layer.biases = ps at hneuron ⊢
  induction ps generalizing zs with
  | nil => simp
  | cons p ps ih =>
    rw [List.forall₂_cons_left_iff, List.forall_mem_cons, List.map_cons]
    have hrest := fun zs => @ih zs fun q hq => hneuron q (List.mem_cons_of_mem _ hq)
    constructor
    · rintro ⟨z, zs, hz, hzs, rfl⟩
      obtain ⟨hfit, rfl⟩ := (hneuron p List.mem_cons_self z).mp hz
      obtain ⟨hfits, rfl⟩ := (hrest zs).mp hzs
      exact ⟨⟨hfit, hfits⟩, rfl⟩
    · rintro ⟨⟨hfit, hfits⟩, rfl⟩
      exact ⟨_, _, (hneuron p List.mem_cons_self _).mpr ⟨hfit, rfl⟩, (hrest _).mpr ⟨hfits, rfl⟩,
        rfl⟩

/-- The values behind an activation, as the loop computes them. -/
private def activated (zs : List ℤ) : Activation → List ℤ
  | .relu => zs.map fun z => if 0 ≤ z then z else 0
  | .none => zs
  | .sigmoid => zs

omit [Field K] [LinearOrder K] [FloorRing K] in
private theorem map_resize {α β : Type} (f : α → β) (xs : List α) (n : ℕ) (default : α) :
    (resize xs n default).map f = resize (xs.map f) n (f default) := by
  rw [resize, resize, List.map_append, List.map_take, List.map_replicate, List.length_map]

omit [Field K] [LinearOrder K] [FloorRing K] in
private theorem activate_spec {next : ForwardState} {zs : List ℤ} {k : ℕ} {activation : Activation}
    (h : activate next layerIdx (resize zs k 0) activation = some state') :
    state'.activations = resize (activated zs activation) k 0 ∧ state'.nPadded = next.nPadded := by
  cases activation with
  | relu =>
    obtain ⟨decomp, -, hstate⟩ := Option.bind_eq_some_iff.mp h
    obtain rfl := Option.some.inj hstate
    exact ⟨map_resize _ zs k 0, rfl⟩
  | none =>
    obtain rfl := Option.some.inj h
    exact ⟨rfl, rfl⟩
  | sigmoid =>
    obtain rfl := Option.some.inj h
    exact ⟨rfl, rfl⟩

/-- The integers of a state stand for numbers at the scale of layer `l`. -/
def Carries (l : ℕ) (state : ForwardState) (xs : List K) : Prop :=
  ∃ core, state.activations = resize core (nextPowerOfTwo core.length) 0 ∧
    state.nPadded = nextPowerOfTwo core.length ∧
      ScaledBy ((FIXED_POINT_SCALE : K) ^ (l + 1)) core xs

variable [IsStrictOrderedRing K]

omit [FloorRing K] in
private theorem pow_scale_pos (e : ℕ) : (0 : K) < (FIXED_POINT_SCALE : K) ^ e :=
  pow_pos scale_pos e

private theorem value_scaled (hscaled : ScaledBy ((FIXED_POINT_SCALE : K) ^ (l + 1)) core xs)
    (row : List K) (bias : K) :
    ((sumProducts (row.map quantize) core + quantizeBias bias : ℤ) : K) =
      (sumProducts (row.map fun w => (quantize w : K) / FIXED_POINT_SCALE) xs +
        (quantizeBias bias : K) / FIXED_POINT_SCALE ^ (l + 2)) * FIXED_POINT_SCALE ^ (l + 2) := by
  rw [Int.cast_add, sumProducts_scaled (scaledBy_map quantize scale_pos.ne' row) hscaled,
    ← pow_succ', add_mul, div_mul_cancel₀ _ (pow_scale_pos _).ne']

private theorem integersFit_iff (hscaled : ScaledBy ((FIXED_POINT_SCALE : K) ^ (l + 1)) core xs) :
    IntegersFit layer core ↔
      ∀ p ∈ (carriedLayer l layer).weights.zip (carriedLayer l layer).biases,
        NeuronFits ((FIXED_POINT_SCALE : K) ^ (l + 2)) xs p := by
  rw [carriedLayer, List.zip_map, IntegersFit, List.forall_mem_map]
  refine forall₂_congr fun p _ => and_congr ?_ ?_
  · have hzip := zip_scaled (scaledBy_map quantize scale_pos.ne' p.1) hscaled
    rw [← pow_succ'] at hzip
    exact (sumsFit_scaled hzip (by rw [Int.cast_zero, zero_mul])).symm
  · exact (fitsScaled_iff (value_scaled hscaled p.1 p.2)).symm

private theorem exactValues_scaled (hshape : LayerShape layer nIn)
    (hscaled : ScaledBy ((FIXED_POINT_SCALE : K) ^ (l + 1)) core xs) :
    ScaledBy ((FIXED_POINT_SCALE : K) ^ (l + 2)) (exactValues layer core)
      (preActivations (carriedLayer l layer) xs) := by
  have hvalues : preActivations (carriedLayer l layer) xs =
      (layer.weights.zip layer.biases).map fun p =>
        sumProducts (p.1.map fun w => (quantize w : K) / FIXED_POINT_SCALE) xs +
          (quantizeBias p.2 : K) / FIXED_POINT_SCALE ^ (l + 2) := by
    rw [preActivations, resize_of_length]
    · rw [carriedLayer, List.zipWith_map, List.map_zip_eq_zipWith]
      rfl
    · simp [carriedLayer, hshape.biases]
  rw [hvalues, exactValues]
  refine List.forall₂_map_left_iff.mpr (List.forall₂_map_right_iff.mpr (List.forall₂_same.mpr ?_))
  exact fun p _ => value_scaled hscaled p.1 p.2

private theorem activated_scaled (exp : K → K) {e : ℕ} {zs : List ℤ} {ys : List K}
    (h : ScaledBy ((FIXED_POINT_SCALE : K) ^ e) zs ys) :
    ScaledBy ((FIXED_POINT_SCALE : K) ^ e) (activated zs layer.activation)
      (applyActivation exp (carriedLayer l layer).activation ys) := by
  rw [carriedLayer]
  cases layer.activation with
  | relu =>
    refine List.forall₂_map_left_iff.mpr (List.forall₂_map_right_iff.mpr (h.imp ?_))
    intro z y hzy
    have hsign : 0 ≤ z ↔ 0 ≤ y := by
      rw [← mul_nonneg_iff_of_pos_right (@pow_scale_pos K _ _ _ e), ← hzy]
      exact Int.cast_nonneg_iff.symm
    by_cases hz : 0 ≤ z
    · rw [if_pos hz, if_neg (not_lt.mpr (hsign.mp hz)), hzy]
    · rw [if_neg hz, if_pos (not_le.mp (mt hsign.mpr hz)), Int.cast_zero, zero_mul]
  | none => exact h
  | sigmoid => exact h

/-- A round of the loop: with checks it needs all products and sums in range, and then its integers
stand for the values of the layer. -/
theorem mlpLayer_on (exp : K → K) (hshape : LayerShape layer nIn) (hcarries : Carries l state xs)
    (hlength : xs.length = nIn) :
    (mlpLayer .on state (layer, layerIdx) = some state' ↔
      (∀ p ∈ (carriedLayer l layer).weights.zip (carriedLayer l layer).biases,
        NeuronFits ((FIXED_POINT_SCALE : K) ^ (l + 2)) xs p) ∧
          mlpLayer .off state (layer, layerIdx) = some state') ∧
      (mlpLayer .on state (layer, layerIdx) = some state' →
        Carries (l + 1) state' (forwardLayer exp xs (carriedLayer l layer))) := by
  obtain ⟨core, hactivations, -, hscaled⟩ := hcarries
  have hcore : core.length = nIn := hscaled.length_eq.trans hlength
  rw [hcore] at hactivations
  have hround := @mlpLayer_eq K _ _ _ layer nIn state layerIdx hshape
    (by rw [hactivations, length_resize])
  rw [hactivations] at hround
  have hneurons := fun zs => @neurons_on_iff K _ _ _ layer nIn core hshape hcore zs
  rw [← integersFit_iff hscaled]
  refine ⟨⟨fun h => ?_, fun ⟨hfits, h⟩ => ?_⟩, fun h => ?_⟩
  · rw [hround] at h
    obtain ⟨zs, hzs, hnext⟩ := Option.bind_eq_some_iff.mp h
    refine ⟨((hneurons zs).mp hzs).1, ?_⟩
    rw [hround]
    refine Option.bind_eq_some_iff.mpr ⟨zs, mapM_eq_some.mpr ?_, hnext⟩
    exact (mapM_eq_some.mp hzs).imp fun _ _ => neuron_off_of_on
  · have hon := (hneurons _).mpr ⟨hfits, rfl⟩
    have hoff := mapM_eq_some.mpr ((mapM_eq_some.mp hon).imp fun _ _ => neuron_off_of_on)
    rw [hround, hoff] at h
    rw [hround, hon]
    exact h
  · rw [hround] at h
    obtain ⟨zs, hzs, hnext⟩ := Option.bind_eq_some_iff.mp h
    obtain ⟨-, rfl⟩ := (hneurons zs).mp hzs
    obtain ⟨hresult, hpadded⟩ := activate_spec hnext
    have hvalues := @activated_scaled K _ _ _ layer l _ exp _ _ _
      (exactValues_scaled hshape hscaled)
    have hcount : (activated (exactValues layer core) layer.activation).length =
        layer.weights.length := by
      rw [hvalues.length_eq]
      exact (length_forwardLayer exp _ xs).trans (List.length_map _)
    refine ⟨_, ?_, ?_, hvalues⟩
    · rw [hresult, hcount]
    · rw [hpadded, hcount]
      rfl

end Layers

/-! ## The whole pass -/

section Pass

variable {K : Type} [Field K] [LinearOrder K] [IsStrictOrderedRing K] [FloorRing K] (exp : K → K)
  {mlp : MLPModel K} {features : List K} {inputs : MLPCircuitInputs}

theorem layers_on {layers : List (MLPLayer K)} {nIn nOut start l : ℕ} {state state' : ForwardState}
    {xs : List K} (hwidths : WidthsFit nIn layers nOut) (hcarries : Carries l state xs)
    (hlength : xs.length = nIn) :
    ((layers.zipIdx start).foldlM (mlpLayer .on) state = some state' ↔
      LayersFit exp l (carriedLayers l layers) xs ∧
        (layers.zipIdx start).foldlM (mlpLayer .off) state = some state') ∧
      ((layers.zipIdx start).foldlM (mlpLayer .on) state = some state' →
        Carries (l + layers.length) state'
          ((carriedLayers l layers).foldl (forwardLayer exp) xs)) := by
  induction layers generalizing nIn start l state xs with
  | nil =>
    refine ⟨⟨fun h => ⟨trivial, h⟩, fun h => h.2⟩, fun h => ?_⟩
    obtain rfl := Option.some.inj h
    exact hcarries
  | cons layer layers ih =>
    obtain ⟨hbiases, hnonempty, hrows, hrest⟩ := hwidths
    have hshape : LayerShape layer nIn := ⟨hbiases, hnonempty, hrows⟩
    have hround := fun mid => @mlpLayer_on K _ _ _ layer nIn state mid xs l start _ exp hshape
      hcarries hlength
    have hcount : (forwardLayer exp xs (carriedLayer l layer)).length = layer.weights.length :=
      (length_forwardLayer exp _ xs).trans (List.length_map _)
    rw [List.zipIdx_cons, List.foldlM_cons, List.foldlM_cons, Option.bind_eq_bind,
      Option.bind_eq_some_iff, Option.bind_eq_some_iff, carriedLayers, LayersFit]
    refine ⟨⟨?_, ?_⟩, ?_⟩
    · rintro ⟨mid, hmid, hend⟩
      obtain ⟨hfits, hoff⟩ := (hround mid).1.mp hmid
      obtain ⟨hfitsRest, hoffRest⟩ := (ih hrest ((hround mid).2 hmid) hcount).1.mp hend
      exact ⟨⟨hfits, hfitsRest⟩, mid, hoff, hoffRest⟩
    · rintro ⟨⟨hfits, hfitsRest⟩, mid, hoff, hoffRest⟩
      have hmid := (hround mid).1.mpr ⟨hfits, hoff⟩
      exact ⟨mid, hmid, (ih hrest ((hround mid).2 hmid) hcount).1.mpr ⟨hfitsRest, hoffRest⟩⟩
    · rintro ⟨mid, hmid, hend⟩
      have hcarried := (ih hrest ((hround mid).2 hmid) hcount).2 hend
      rwa [Nat.add_assoc, Nat.add_comm 1] at hcarried

omit [IsStrictOrderedRing K] in
private theorem widthsFit_carried {layers : List (MLPLayer K)} {nIn nOut l : ℕ}
    (h : WidthsFit nIn layers nOut) : WidthsFit nIn (carriedLayers l layers) nOut := by
  induction layers generalizing nIn l with
  | nil => exact h
  | cons layer layers ih =>
    obtain ⟨hbiases, hnonempty, hrows, hrest⟩ := h
    refine ⟨?_, ?_, ?_, ?_⟩
    · rw [carriedLayer, List.length_map, List.length_map, hbiases]
    · simpa [carriedLayer] using hnonempty
    · simpa [carriedLayer] using hrows
    · rw [carriedLayer, List.length_map]
      exact ih hrest

omit [LinearOrder K] [IsStrictOrderedRing K] [FloorRing K] in
private theorem resize_inj {xs ys : List K} {n : ℕ} (hlength : xs.length = ys.length)
    (hn : xs.length ≤ n) : resize xs n 0 = resize ys n 0 ↔ xs = ys := by
  rw [resize, resize, List.take_of_length_le hn, List.take_of_length_le (hlength ▸ hn), hlength,
    List.append_left_inj]

omit [IsStrictOrderedRing K] in
@[simp] theorem length_carriedInput (features : List K) :
    (carriedInput features).length = features.length := List.length_map _

private theorem carries_features (features : List K) {nFeatures : ℕ}
    (hlength : features.length = nFeatures) :
    Carries 0 ⟨resize (features.map quantize) (nextPowerOfTwo nFeatures) 0,
      nextPowerOfTwo nFeatures, [], [], [], [], [], []⟩ (carriedInput features) := by
  refine ⟨features.map quantize, ?_, ?_, ?_⟩
  · rw [List.length_map, hlength]
  · rw [List.length_map, hlength]
  · rw [zero_add, pow_one]
    exact scaledBy_map quantize scale_pos.ne' features

omit [LinearOrder K] [IsStrictOrderedRing K] [FloorRing K] in
private theorem expected_scaled {state : ForwardState} {l : ℕ} {ys : List K}
    (h : Carries l state ys) : ys.length ≤ state.nPadded ∧
      state.activations.map (Int.cast : ℤ → K) =
        resize (ys.map (· * (FIXED_POINT_SCALE : K) ^ (l + 1))) state.nPadded 0 := by
  obtain ⟨core, hactivations, hpadded, hscaled⟩ := h
  have hcast : core.map (Int.cast : ℤ → K) = ys.map (· * (FIXED_POINT_SCALE : K) ^ (l + 1)) := by
    rw [← List.forall₂_eq_eq_eq, List.forall₂_map_left_iff, List.forall₂_map_right_iff]
    exact hscaled
  rw [hactivations, hpadded, map_resize, hcast, Int.cast_zero, ← hscaled.length_eq]
  exact ⟨le_nextPowerOfTwo _, rfl⟩

omit [FloorRing K] in
/-- The expected outputs are those of a network whose outputs the integers stand for. -/
private theorem expected_iff {state : ForwardState} {l : ℕ} {ys outputs : List K}
    (h : Carries l state ys) (hlength : ys.length = outputs.length) :
    state.activations.map (Int.cast : ℤ → K) =
        resize (outputs.map (· * (FIXED_POINT_SCALE : K) ^ (l + 1))) state.nPadded 0 ↔
      ys = outputs := by
  obtain ⟨hle, hexpected⟩ := expected_scaled h
  have hscale : Function.Injective (· * (FIXED_POINT_SCALE : K) ^ (l + 1)) :=
    mul_left_injective₀ (pow_scale_pos _).ne'
  rw [hexpected, resize_inj (by rw [List.length_map, List.length_map, hlength])
    (by rwa [List.length_map]), hscale.list_map.eq_iff]

/-- Numbers without loss in fixed point, no sigmoid, and biases in the first layer only. -/
structure IsPlain (mlp : MLPModel K) (features : List K) : Prop where
  features : ∀ x ∈ features, ∃ k : ℤ, FitsI64 k ∧ x * FIXED_POINT_SCALE = k
  weights : ∀ layer ∈ mlp.layers, ∀ row ∈ layer.weights, ∀ w ∈ row,
    ∃ k : ℤ, FitsI64 k ∧ w * FIXED_POINT_SCALE = k
  activations : ∀ layer ∈ mlp.layers, layer.activation ≠ .sigmoid
  firstBiases : ∀ layer, mlp.layers.head? = some layer → ∀ bias ∈ layer.biases,
    ∃ k : ℤ, FitsI64 k ∧ bias * FIXED_POINT_SCALE * FIXED_POINT_SCALE = k
  laterBiases : ∀ layer ∈ mlp.layers.tail, ∀ bias ∈ layer.biases, bias = 0

private theorem map_quantize_of_exact {xs : List K}
    (h : ∀ x ∈ xs, ∃ k : ℤ, FitsI64 k ∧ x * FIXED_POINT_SCALE = k) :
    xs.map (fun x => (quantize x : K) / FIXED_POINT_SCALE) = xs := by
  refine (List.map_congr_left fun x hx => ?_).trans (List.map_id xs)
  obtain ⟨k, hk, hx⟩ := h x hx
  rw [quantize_of_fits hk hx, ← hx, mul_div_cancel_right₀ _ scale_pos.ne', id_eq]

private theorem carriedLayer_of_exact {l : ℕ} {layer : MLPLayer K}
    (hweights : ∀ row ∈ layer.weights, ∀ w ∈ row,
      ∃ k : ℤ, FitsI64 k ∧ w * FIXED_POINT_SCALE = k)
    (hactivation : layer.activation ≠ .sigmoid)
    (hbiases : ∀ bias ∈ layer.biases,
      (quantizeBias bias : K) / FIXED_POINT_SCALE ^ (l + 2) = bias) :
    carriedLayer l layer = layer := by
  have hrows : layer.weights.map
      (fun row => row.map fun w => (quantize w : K) / FIXED_POINT_SCALE) = layer.weights :=
    (List.map_congr_left fun row hrow => map_quantize_of_exact (hweights row hrow)).trans
      (List.map_id _)
  have hbias := (List.map_congr_left hbiases).trans (List.map_id layer.biases)
  obtain ⟨weights, biases, activation⟩ := layer
  rw [carriedLayer, hrows, hbias]
  cases activation with
  | relu => rfl
  | none => rfl
  | sigmoid => exact absurd rfl hactivation

private theorem carriedLayers_of_zero {layers : List (MLPLayer K)} {l : ℕ}
    (hweights : ∀ layer ∈ layers, ∀ row ∈ layer.weights, ∀ w ∈ row,
      ∃ k : ℤ, FitsI64 k ∧ w * FIXED_POINT_SCALE = k)
    (hactivation : ∀ layer ∈ layers, layer.activation ≠ .sigmoid)
    (hbiases : ∀ layer ∈ layers, ∀ bias ∈ layer.biases, bias = 0) :
    carriedLayers l layers = layers := by
  induction layers generalizing l with
  | nil => rfl
  | cons layer layers ih =>
    have hzero : quantizeBias (0 : K) = 0 :=
      quantizeBias_of_fits (by decide) (by rw [zero_mul, zero_mul, Int.cast_zero])
    rw [List.forall_mem_cons] at hweights hactivation hbiases
    rw [carriedLayers, ih hweights.2 hactivation.2 hbiases.2,
      carriedLayer_of_exact hweights.1 hactivation.1]
    intro bias hbias
    rw [hbiases.1 bias hbias, hzero, Int.cast_zero, zero_div]

theorem carried_of_isPlain (h : IsPlain mlp features) :
    carriedNetwork mlp = mlp ∧ carriedInput features = features := by
  refine ⟨?_, map_quantize_of_exact h.features⟩
  obtain ⟨nFeatures, nClasses, layers⟩ := mlp
  cases layers with
  | nil => rfl
  | cons layer layers =>
    have hweights := List.forall_mem_cons.mp h.weights
    have hactivations := List.forall_mem_cons.mp h.activations
    rw [carriedNetwork, carriedLayers,
      carriedLayers_of_zero hweights.2 hactivations.2 h.laterBiases,
      carriedLayer_of_exact hweights.1 hactivations.1]
    intro bias hbias
    obtain ⟨k, hk, hscaled⟩ := h.firstBiases layer rfl bias hbias
    have hscale := (@scale_pos K _ _ _).ne'
    rw [quantizeBias_of_fits hk hscaled, ← hscaled, zero_add, sq, mul_assoc,
      mul_div_cancel_right₀ _ (mul_ne_zero hscale hscale)]

private theorem forwardExact_iff (hvalid : validateMlp mlp = .ok ())
    (haccepted : prepareMlpCircuitInputs .off mlp features = some inputs) :
    ForwardExact exp mlp features inputs ↔ CarriedExact exp mlp features := by
  obtain ⟨-, -, -, -, hwidths⟩ := validateMlp_eq_ok.mp hvalid
  have hlength : features.length = mlp.nFeatures := by
    by_contra hne
    rw [prepareMlpCircuitInputs, if_pos hne] at haccepted
    cases haccepted
  rw [prepareMlpCircuitInputs, if_neg (not_not_intro hlength), Option.bind_eq_bind,
    Option.bind_eq_some_iff] at haccepted
  obtain ⟨state, hoff, hinputs⟩ := haccepted
  obtain rfl := Option.some.inj hinputs
  have hcarried : (carriedInput features).length = mlp.nFeatures := by
    rw [length_carriedInput, hlength]
  have hpass := fun state' => @layers_on K _ _ _ _ exp mlp.layers mlp.nFeatures mlp.nClasses 0 0 _
    state' _ hwidths (carries_features features hlength) hcarried
  rw [ForwardExact, CarriedExact, predictMlp_eq_ok exp hlength,
    predictMlp_eq_ok exp (show (carriedInput features).length = (carriedNetwork mlp).nFeatures from
      hcarried), prepareMlpCircuitInputs, if_neg (not_not_intro hlength), Option.bind_eq_bind,
    Option.bind_eq_some_iff]
  have hcount := (length_forward exp (@widthsFit_carried K _ _ _ _ _ _ 0 hwidths) hcarried).trans
    (length_forward exp hwidths hlength).symm
  constructor
  · rintro ⟨⟨state', hon, hstate'⟩, outputs, houtputs, hexpected⟩
    obtain ⟨hfits, hoff'⟩ := (hpass state').1.mp hon
    obtain rfl := Option.some.inj (hoff.symm.trans hoff')
    obtain rfl := Except.ok.inj houtputs
    have hcarries := (hpass state).2 hon
    rw [Nat.zero_add] at hcarries
    exact ⟨congrArg _ ((expected_iff hcarries hcount).mp hexpected), hfits⟩
  · rintro ⟨houtputs, hfits⟩
    have hon := (hpass state).1.mpr ⟨hfits, hoff⟩
    have hcarries := (hpass state).2 hon
    rw [Nat.zero_add] at hcarries
    exact ⟨⟨state, hon, rfl⟩, _, rfl, (expected_iff hcarries hcount).mpr (Except.ok.inj houtputs)⟩

/-- Where an input is accepted, the pass is exact if and only if the network that its integers stand
for has the same outputs and no product or sum out of range. A plain network has the same
outputs. -/
theorem forward_pass_iff (hvalid : validateMlp mlp = .ok ())
    (haccepted : prepareMlpCircuitInputs .off mlp features = some inputs) :
    (ForwardExact exp mlp features inputs ↔ CarriedExact exp mlp features) ∧
      (IsPlain mlp features → predictMlp exp (carriedNetwork mlp) (carriedInput features) =
        predictMlp exp mlp features) := by
  refine ⟨forwardExact_iff exp hvalid haccepted, fun hplain => ?_⟩
  obtain ⟨hnetwork, hinput⟩ := carried_of_isPlain hplain
  rw [hnetwork, hinput]

end Pass

/-! ## Networks of one feature -/

section Runs

/-- Layers of one neuron with the weight 1. -/
private def chain (biases : List ℝ) : MLPModel ℝ :=
  ⟨1, 1, biases.map fun bias => ⟨[[1]], [bias], .none⟩⟩

private theorem quantize_one : quantize (1 : ℝ) = 65536 :=
  quantize_of_fits (by decide) (by norm_num [FIXED_POINT_SCALE])

private theorem quantizeBias_zero : quantizeBias (0 : ℝ) = 0 :=
  quantizeBias_of_fits (by decide) (by rw [zero_mul, zero_mul, Int.cast_zero])

private theorem quantizeBias_one : quantizeBias (1 : ℝ) = 4294967296 :=
  quantizeBias_of_fits (by decide) (by norm_num [FIXED_POINT_SCALE])

private theorem accepted_chain (bias bias' : ℝ) :
    ∃ inputs, prepareMlpCircuitInputs .off (chain [bias, bias']) [1] = some inputs := by
  have hpadded : nextPowerOfTwo 1 = 1 := nextPowerOfTwo_two_pow 0
  simp [prepareMlpCircuitInputs, chain, mlpLayer, quantizeRows, quantizeBiases, neuron, activate,
    addProducts, i64, resize, hpadded]

private theorem valid_chain (bias bias' : ℝ) : validateMlp (chain [bias, bias']) = .ok () :=
  validateMlp_eq_ok.mpr ⟨by simp [chain], by simp [chain], by simp [chain], by simp [chain],
    by simp [chain, WidthsFit]⟩

private theorem predict_chain (bias bias' : ℝ) :
    predictMlp Real.exp (chain [bias, bias']) [1] = .ok [1 + bias + bias'] := by
  simp [predictMlp, chain, forwardLayer, preActivations, applyActivation, resize]

/-- The bias of the second layer counts for `2 ^ -16` of itself. -/
theorem second_bias_lost : ¬ ∀ (mlp : MLPModel ℝ) (features : List ℝ) (inputs : MLPCircuitInputs),
    validateMlp mlp = .ok () → prepareMlpCircuitInputs .off mlp features = some inputs →
      ForwardExact Real.exp mlp features inputs := by
  intro h
  obtain ⟨inputs, hinputs⟩ := accepted_chain 0 1
  have hexact := h _ _ inputs (valid_chain 0 1) hinputs
  obtain ⟨hsame, -⟩ := (forwardExact_iff Real.exp (valid_chain 0 1) hinputs).mp hexact
  have hcarried : predictMlp Real.exp (carriedNetwork (chain [0, 1])) (carriedInput [1]) =
      .ok [1 + 1 / 65536] := by
    simp [predictMlp, chain, carriedNetwork, carriedLayers, carriedLayer, carriedInput,
      forwardLayer, preActivations, applyActivation, resize, quantize_one, quantizeBias_zero,
      quantizeBias_one, FIXED_POINT_SCALE]
    norm_num
  rw [hcarried, predict_chain] at hsame
  norm_num at hsame

/-- With a bias in the first layer only, two layers are exact. -/
theorem first_bias_kept : ∃ inputs, validateMlp (chain [1, 0]) = .ok () ∧
    prepareMlpCircuitInputs .off (chain [1, 0]) [1] = some inputs ∧
      ForwardExact Real.exp (chain [1, 0]) [1] inputs := by
  obtain ⟨inputs, hinputs⟩ := accepted_chain 1 0
  have hone : ∃ k : ℤ, FitsI64 k ∧ (1 : ℝ) * FIXED_POINT_SCALE = k :=
    ⟨65536, by decide, by norm_num [FIXED_POINT_SCALE]⟩
  have hplain : IsPlain (chain [1, 0]) [1] :=
    { features := by simpa using hone
      weights := by simpa [chain] using hone
      activations := by simp [chain]
      firstBiases := by
        have hbias : ∃ k : ℤ, FitsI64 k ∧ (1 : ℝ) * FIXED_POINT_SCALE * FIXED_POINT_SCALE = k :=
          ⟨4294967296, by decide, by norm_num [FIXED_POINT_SCALE]⟩
        simpa [chain] using hbias
      laterBiases := by simp [chain] }
  obtain ⟨hiff, hsame⟩ := forward_pass_iff Real.exp (valid_chain 1 0) hinputs
  refine ⟨inputs, valid_chain 1 0, hinputs, hiff.mpr ⟨hsame hplain, ?_⟩⟩
  obtain ⟨hnetwork, hinput⟩ := carried_of_isPlain hplain
  rw [hnetwork, hinput]
  simp [chain, LayersFit, NeuronFits, SumsFit, FitsScaled, forwardLayer, preActivations,
    applyActivation, resize, FIXED_POINT_SCALE]
  norm_num

end Runs

end WorldZk.MlpForward
