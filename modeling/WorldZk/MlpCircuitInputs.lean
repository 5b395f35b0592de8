import WorldZk.MlpModel

/-!
# Inputs of the native circuit of a network

`prepare_mlp_circuit_inputs`: the forward pass in integers, with the quantized weights and biases of
each layer and the bits that witness the signs.
-/

namespace WorldZk.MlpCircuitInputs

open CircuitPreparation I64Arithmetic InferenceCircuit MlpModel TreeEnsemble

def MLP_DECOMP_K : ℕ := 48

structure MLPCircuitInputs where
  featuresQuantized : List ℤ
  nInputsPadded : ℕ
  /-- The rows of each layer, one after the other. -/
  layerWeights : List (List ℤ)
  layerBiases : List (List ℤ)
  reluDecompBits : List (List Bool)
  reluSignBits : List (List Bool)
  expectedOutputs : List ℤ
  nOutputsPadded : ℕ
  decompK : ℕ
  layerDims : List (ℕ × ℕ)
  reluLayerIndices : List ℕ
deriving DecidableEq

/-- What the loop over the layers has so far. -/
structure ForwardState where
  activations : List ℤ
  nPadded : ℕ
  layerWeights : List (List ℤ)
  layerBiases : List (List ℤ)
  layerDims : List (ℕ × ℕ)
  reluDecompBits : List (List Bool)
  reluSignBits : List (List Bool)
  reluLayerIndices : List ℕ

section Layers

variable {K : Type} [Field K] [LinearOrder K] [FloorRing K] (checks : OverflowChecks)

/-- The first `nIn` weights of each row, quantized and padded. -/
def quantizeRows (weights : List (List K)) (nIn nInPadded : ℕ) : Option (List (List ℤ)) :=
  weights.mapM fun row => do
    let entries ← (List.range nIn).mapM fun i => row[i]?
    pure (resize (entries.map quantize) nInPadded 0)

/-- The biases of the neurons, at the scale of the products of the first layer. -/
def quantizeBiases (biases : List K) (nOut : ℕ) : Option (List ℤ) := do
  let entries ← (List.range nOut).mapM fun j => biases[j]?
  pure (entries.map quantizeBias)

/-- The value of a neuron with its weights and bias. -/
def neuron (activations : List ℤ) (p : List ℤ × ℤ) : Option ℤ := do
  let dot ← addProducts checks 0 (p.1.zip activations)
  i64 checks (dot + p.2)

/-- The activation of a layer; a sigmoid passes values through. -/
def activate (state : ForwardState) (layerIdx : ℕ) (zValues : List ℤ) :
    Activation → Option ForwardState
  | .relu => do
    let signBits := zValues.map fun z => decide (0 ≤ z)
    let offset := 2 ^ (MLP_DECOMP_K - 1)
    let decomp ← zValues.mapM fun z => decompose MLP_DECOMP_K (z + offset)
    pure
      { state with
        reluLayerIndices := state.reluLayerIndices ++ [layerIdx]
        reluDecompBits := state.reluDecompBits ++ [decomp.flatten]
        reluSignBits := state.reluSignBits ++ [signBits]
        activations := zValues.map fun z => if 0 ≤ z then z else 0 }
  | .none => pure { state with activations := zValues }
  | .sigmoid => pure { state with activations := zValues }

/-- One round of the loop over the layers. -/
def mlpLayer (state : ForwardState) (layer : MLPLayer K × ℕ) : Option ForwardState := do
  let firstRow ← layer.1.weights[0]?
  let nIn := firstRow.length
  let nOut := layer.1.weights.length
  let nInPadded := nextPowerOfTwo nIn
  let nOutPadded := nextPowerOfTwo nOut
  let rows ← quantizeRows layer.1.weights nIn nInPadded
  let weightsFlat := rows.flatten ++ List.replicate ((nOutPadded - nOut) * nInPadded) 0
  let biases ← quantizeBiases layer.1.biases nOut
  let currentActivations := resize state.activations nInPadded 0
  let zs ← (rows.zip biases).mapM (neuron checks currentActivations)
  activate
    { state with
      nPadded := nOutPadded
      layerWeights := state.layerWeights ++ [weightsFlat]
      layerBiases := state.layerBiases ++ [resize biases nOutPadded 0]
      layerDims := state.layerDims ++ [(nInPadded, nOutPadded)] }
    layer.2 (resize zs nOutPadded 0) layer.1.activation

/-- `prepare_mlp_circuit_inputs`; its assertions and checked overflows give `none`. -/
def prepareMlpCircuitInputs (mlp : MLPModel K) (features : List K) : Option MLPCircuitInputs :=
  if features.length ≠ mlp.nFeatures then none
  else do
    let nInputsPadded := nextPowerOfTwo mlp.nFeatures
    let featuresQ := resize (features.map quantize) nInputsPadded 0
    let state ← mlp.layers.zipIdx.foldlM (mlpLayer checks)
      ⟨featuresQ, nInputsPadded, [], [], [], [], [], []⟩
    pure
      { featuresQuantized := featuresQ
        nInputsPadded := nInputsPadded
        layerWeights := state.layerWeights
        layerBiases := state.layerBiases
        reluDecompBits := state.reluDecompBits
        reluSignBits := state.reluSignBits
        expectedOutputs := state.activations
        nOutputsPadded := state.nPadded
        decompK := MLP_DECOMP_K
        layerDims := state.layerDims
        reluLayerIndices := state.reluLayerIndices }

end Layers

end WorldZk.MlpCircuitInputs
