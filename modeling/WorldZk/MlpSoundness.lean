import WorldZk.InferenceWitness
import WorldZk.MlpCircuit
import Mathlib.Tactic.LinearCombination

/-!
# Soundness of the circuit of a network

When all outputs are zero, each layer has the weighted sums of the layer before it, and each sign is
that of a number in the range of the bits. Indices of gates are `u32`: a table of weights beyond
that size is not read to its end.
-/

namespace WorldZk.MlpSoundness

open Bn254Moduli GateWirings InferenceWitness MlpCircuit
open InferenceCircuit hiding AllZero weightedSum

/-! ## Shapes and their inferences -/

/-- The shape of a padded network with layers of at least two neurons. -/
structure WellFormed (s : MlpShape) : Prop where
  layers : s.layerDims ≠ []
  dims : ∀ d ∈ s.layerDims, ∃ a b, d = (2 ^ (a + 1), 2 ^ (b + 1))
  chained : ∀ l d e, s.layerDims[l]? = some d → s.layerDims[l + 1]? = some e → e.1 = d.2
  increasing : s.reluLayerIndices.Pairwise (· < ·)
  indices : ∀ l ∈ s.reluLayerIndices, l < s.layerDims.length
  decompK : 0 < s.decompK

/-- The weights of each layer are within the range of the indices, or meet activations that can only
be zero, since one bit has room for no positive number. -/
def TablesFit (s : MlpShape) : Prop :=
  ∀ l nIn nOut, s.layerDims[l]? = some (nIn, nOut) →
    nOut * nIn ≤ 2 ^ 32 ∨ s.decompK = 1 ∧ ∃ k ∈ s.reluLayerIndices, l = k + 1

section Sound

variable {F : Type} [CommRing F]

/-- A value with its committed bits and sign, and the activation that follows from them. -/
structure SignedValue (decomp sign : ℕ → F) (decompK j : ℕ) (v activation : F) (bits : ℕ → Bool)
    (d : ℤ) : Prop where
  decomp : ∀ i < decompK, decomp (j * decompK + i) = bitValue (bits i)
  recomposed : (suffixValue bits decompK : ℤ) = d + 2 ^ (decompK - 1)
  lower : -2 ^ (decompK - 1) ≤ d
  upper : d < 2 ^ (decompK - 1)
  sign : sign j = bitValue (decide (0 ≤ d))
  value : v = (d : F)
  activation : activation = if 0 ≤ d then v else 0

variable (s : MlpShape) (vals : MlpValues F)

/-- The value of a neuron before its activation. -/
def neuronValue (l nIn j : ℕ) : F :=
  ∑ i ∈ Finset.range nIn, vals.weights l (j * nIn + i) * (stateAt s vals l).activations i +
    vals.biases l j

/-- The values at the layers are an inference. -/
structure Sound : Prop where
  neuron : ∀ l nIn nOut, s.layerDims[l]? = some (nIn, nOut) → ∀ j < nOut,
    if l ∈ s.reluLayerIndices then
      ∃ bits d, SignedValue (vals.decompBits (stateAt s vals l).reluCounter)
        (vals.signBits (stateAt s vals l).reluCounter) s.decompK j (neuronValue s vals l nIn j)
        ((stateAt s vals (l + 1)).activations j) bits d
    else (stateAt s vals (l + 1)).activations j = neuronValue s vals l nIn j
  outputs : ∀ j < lastNOut s,
    (stateAt s vals s.layerDims.length).activations j = vals.expectedOutputs j

end Sound

/-! ## Checks that pass -/

section Checks

variable {F : Type} [CommRing F]

/-- The checks of a layer make each sign that of the neuron. -/
theorem signedValue_of_checks [IsDomain F] {decomp sign pre : ℕ → F} {e decompK : ℕ}
    (hK : 0 < decompK) (hfits : 2 ^ e * decompK ≤ 2 ^ 32)
    (h : ∀ c ∈ reluChecks decomp sign pre (2 ^ e) decompK, ∀ i < c.2, c.1 i = 0) {j : ℕ}
    (hj : j < 2 ^ e) :
    ∃ bits d, SignedValue decomp sign decompK j (pre j) (pre j * sign j) bits d := by
  obtain ⟨k, rfl⟩ : ∃ k, decompK = k + 1 := ⟨decompK - 1, by omega⟩
  simp only [reluChecks, List.forall_mem_cons, List.not_mem_nil, false_imp_iff, implies_true,
    and_true] at h
  obtain ⟨hbinary, -, hrecon, hsign⟩ := h
  obtain ⟨flat, hflat⟩ := exists_bits hbinary
  have hbits : ∀ i < k + 1, decomp (j * (k + 1) + i) = bitValue (flat (j * (k + 1) + i)) := by
    intro i hi
    exact hflat _ ((rowPlace_lt hj hi).trans_le (le_two_pow_nextLog2 _))
  have hvalue := hrecon j hj
  rw [reconResidual, weightedSum_eq hfits hK _ hj, bitsSum_eq hbits] at hvalue
  have htop := hsign j hj
  rw [signFromDecomp_eq hfits hK _ hj, Nat.add_sub_cancel, hbits k (by omega), sub_eq_zero] at htop
  have hrange := suffixValue_lt (fun i => flat (j * (k + 1) + i)) (k + 1)
  have hhalf := suffixValue_top (fun i => flat (j * (k + 1) + i)) k
  have hpow : (2 : ℤ) ^ (k + 1) = 2 * 2 ^ k := pow_succ' 2 k
  zify at hrange hhalf
  refine ⟨fun i => flat (j * (k + 1) + i),
    (suffixValue (fun i => flat (j * (k + 1) + i)) (k + 1) : ℤ) - 2 ^ k, ?_⟩
  have hsigned : flat (j * (k + 1) + k) =
      decide (0 ≤ (suffixValue (fun i => flat (j * (k + 1) + i)) (k + 1) : ℤ) - 2 ^ k) := by
    rw [Bool.eq_iff_iff, hhalf, decide_eq_true_eq, sub_nonneg]
  rw [hsigned] at htop
  refine ⟨hbits, ?_, ?_, ?_, htop.symm, ?_, ?_⟩
  · rw [Nat.add_sub_cancel, sub_add_cancel]
  · rw [Nat.add_sub_cancel]
    omega
  · rw [Nat.add_sub_cancel]
    omega
  · rw [Nat.add_sub_cancel] at hvalue
    push_cast at hvalue ⊢
    linear_combination -hvalue
  · rw [← htop]
    simp only [bitValue, decide_eq_true_eq, mul_ite, mul_one, mul_zero]

theorem dims_eq {s : MlpShape} (hs : WellFormed s) {l nIn nOut : ℕ}
    (hl : s.layerDims[l]? = some (nIn, nOut)) : ∃ a b, nIn = 2 ^ (a + 1) ∧ nOut = 2 ^ (b + 1) := by
  obtain ⟨a, b, hab⟩ := hs.dims _ (List.mem_of_getElem? hl)
  exact ⟨a, b, (Prod.ext_iff.mp hab).1, (Prod.ext_iff.mp hab).2⟩

theorem bits_le_outputCount {s : MlpShape} {l nIn nOut : ℕ}
    (hl : s.layerDims[l]? = some (nIn, nOut)) (hrelu : l ∈ s.reluLayerIndices) :
    nOut * s.decompK ≤ outputCount s := by
  have hlayer : ((nIn, nOut), l) ∈ s.layerDims.zipIdx := by
    rw [List.mem_zipIdx_iff_getElem?]
    exact hl
  have hle := List.le_sum_of_mem (List.mem_map_of_mem
    (f := fun layer : (ℕ × ℕ) × ℕ => if layer.2 ∈ s.reluLayerIndices then
      2 ^ nextLog2 (layer.1.2 * s.decompK) + 3 * layer.1.2 else 0) hlayer)
  rw [if_pos hrelu] at hle
  calc nOut * s.decompK ≤ 2 ^ nextLog2 (nOut * s.decompK) := le_two_pow_nextLog2 _
    _ ≤ 2 ^ nextLog2 (nOut * s.decompK) + 3 * nOut := Nat.le_add_right _ _
    _ ≤ outputCount s := hle.trans (Nat.le_add_right _ _)

theorem stateAt_relu {s : MlpShape} {vals : MlpValues F} {l nIn nOut : ℕ}
    (hl : s.layerDims[l]? = some (nIn, nOut)) (hrelu : l ∈ s.reluLayerIndices) :
    let state := stateAt s vals l
    let pre := preActivations (vals.weights l) (vals.biases l) state.activations nIn nOut
    stateAt s vals (l + 1) =
      { activations := fun z => pre z * vals.signBits state.reluCounter z
        reluCounter := state.reluCounter + 1
        allChecks := state.allChecks ++ reluChecks (vals.decompBits state.reluCounter)
          (vals.signBits state.reluCounter) pre nOut s.decompK } := by
  rw [stateAt_succ hl, layerStep]
  exact if_pos hrelu

theorem stateAt_linear {s : MlpShape} {vals : MlpValues F} {l nIn nOut : ℕ}
    (hl : s.layerDims[l]? = some (nIn, nOut)) (hrelu : l ∉ s.reluLayerIndices) :
    stateAt s vals (l + 1) =
      { stateAt s vals l with
        activations := preActivations (vals.weights l) (vals.biases l)
          (stateAt s vals l).activations nIn nOut } := by
  rw [stateAt_succ hl, layerStep]
  exact if_neg hrelu

/-- The nodes before an activation have the weighted sums if all weights are read, or if there are
no activations to weigh. -/
theorem preActivations_eq_neuronValue {s : MlpShape} {vals : MlpValues F} {l e nOut : ℕ}
    (h : nOut * 2 ^ e ≤ 2 ^ 32 ∨ ∀ i < 2 ^ e, (stateAt s vals l).activations i = 0) {j : ℕ}
    (hj : j < nOut) :
    preActivations (vals.weights l) (vals.biases l) (stateAt s vals l).activations (2 ^ e) nOut j =
      neuronValue s vals l (2 ^ e) j := by
  rcases h with hfits | hzero
  · exact preActivations_eq hfits _ _ _ hj
  · have hproducts : ∀ z,
        products (vals.weights l) (stateAt s vals l).activations (2 ^ e) nOut z = 0 := by
      intro z
      simp only [products]
      rw [identityGate_of_forall_eq_zero, zero_mul]
      intro g hg
      rw [gridGates, List.mem_flatMap] at hg
      obtain ⟨v, -, hg⟩ := hg
      obtain ⟨i, hi, rfl⟩ := List.mem_map.mp hg
      exact hzero _ ((Nat.mod_le _ _).trans_lt (List.mem_range.mp hi))
    rw [preActivations, sumPerNeuron_eq_zero hproducts, neuronValue, Finset.sum_eq_zero]
    intro i hi
    rw [hzero i (Finset.mem_range.mp hi), mul_zero]

theorem SignedValue.activation_eq_zero {decomp sign : ℕ → F} {j : ℕ} {v activation : F}
    {bits : ℕ → Bool} {d : ℤ} (h : SignedValue decomp sign 1 j v activation bits d) :
    activation = 0 := by
  have hupper := h.upper
  rw [h.activation]
  split
  · next hd =>
    obtain rfl : d = 0 := by
      rw [Nat.sub_self, pow_zero] at hupper
      omega
    rw [h.value, Int.cast_zero]
  · rfl

end Checks

/-! ## Soundness -/

section Soundness

variable {F : Type} [CommRing F] {s : MlpShape} {vals : MlpValues F}

/-- The neurons of one layer. -/
private theorem neuron_of_checks [IsDomain F] (hs : WellFormed s) (hfits : outputCount s ≤ 2 ^ 32)
    (hzero : ∀ c ∈ allChecks s vals, ∀ i < c.2, c.1 i = 0) {l nIn nOut : ℕ}
    (hl : s.layerDims[l]? = some (nIn, nOut))
    (htable : nOut * nIn ≤ 2 ^ 32 ∨ ∀ i < nIn, (stateAt s vals l).activations i = 0) {j : ℕ}
    (hj : j < nOut) :
    if l ∈ s.reluLayerIndices then
      ∃ bits d, SignedValue (vals.decompBits (stateAt s vals l).reluCounter)
        (vals.signBits (stateAt s vals l).reluCounter) s.decompK j (neuronValue s vals l nIn j)
        ((stateAt s vals (l + 1)).activations j) bits d
    else (stateAt s vals (l + 1)).activations j = neuronValue s vals l nIn j := by
  obtain ⟨a, b, rfl, rfl⟩ := dims_eq hs hl
  have hlength := (List.getElem?_eq_some_iff.mp hl).1
  rw [← preActivations_eq_neuronValue htable hj]
  split
  · next hrelu =>
    have hstate := @stateAt_relu F _ s vals _ _ _ hl hrelu
    rw [hstate]
    refine signedValue_of_checks hs.decompK ((bits_le_outputCount hl hrelu).trans hfits) ?_ hj
    intro c hc
    refine hzero c (mem_allChecks (show l + 1 ≤ s.layerDims.length from hlength) ?_)
    rw [hstate]
    exact List.mem_append_right _ hc
  · next hrelu => rw [stateAt_linear hl hrelu]

/-- Zero outputs make the values an inference, as long as the indices fit. -/
theorem sound_of_allZero [IsDomain F] (hs : WellFormed s) (hfits : outputCount s ≤ 2 ^ 32)
    (htables : TablesFit s) (hzero : AllZero s vals) : Sound s vals := by
  rw [allZero_iff hfits] at hzero
  constructor
  · intro l
    induction l with
    | zero =>
      intro nIn nOut hl j hj
      rcases htables 0 nIn nOut hl with htable | ⟨-, k, -, hk⟩
      · exact neuron_of_checks hs hfits hzero hl (.inl htable) hj
      · omega
    | succ l ih =>
      intro nIn nOut hl j hj
      refine neuron_of_checks hs hfits hzero hl ?_ hj
      rcases htables (l + 1) nIn nOut hl with htable | ⟨hK, k, hk, hlk⟩
      · exact .inl htable
      -- the layer before has the signs of single bits
      · obtain rfl : l = k := by omega
        obtain ⟨dims, hdims⟩ : ∃ dims, s.layerDims[l]? = some dims :=
          ⟨_, List.getElem?_eq_getElem (hs.indices l hk)⟩
        refine .inr ?_
        intro i hi
        have hchain : nIn = dims.2 := hs.chained l _ _ hdims hl
        have hneuron := ih dims.1 dims.2 hdims i (hchain ▸ hi)
        rw [if_pos hk, hK] at hneuron
        obtain ⟨bits, d, hsigned⟩ := hneuron
        exact hsigned.activation_eq_zero
  · intro j hj
    have h := hzero _ (List.mem_append_right _ (List.mem_singleton_self _)) j hj
    exact sub_eq_zero.mp h

end Soundness

/-! ## Tables that are not read to their end -/

section Unread

variable {F : Type} [CommRing F] (s : MlpShape)

/-- The value of all neurons of a layer when no weight is read. -/
def unreadValue (l : ℕ) : F := if l ∈ s.reluLayerIndices ∧ s.decompK = 1 then 0 else 1

/-- Inputs for which one weight matters, the first one that the gates of its layer do not read. -/
def unreadValues (layer : ℕ) : MlpValues F where
  features _ := 1
  weights l z := if l = layer ∧ z = 2 ^ 32 then 1 else 0
  biases l _ := unreadValue s l
  decompBits _ z := if z % s.decompK = 0 ∨ z % s.decompK = s.decompK - 1 then 1 else 0
  signBits _ _ := 1
  expectedOutputs _ := unreadValue s (s.layerDims.length - 1)

variable {s}

private theorem preActivations_unread {layer l e nOut : ℕ} (inputs : ℕ → F) :
    preActivations ((unreadValues s layer : MlpValues F).weights l)
      ((unreadValues s layer : MlpValues F).biases l) inputs (2 ^ e) nOut =
        fun _ => unreadValue s l := by
  funext z
  have hproducts : ∀ z, products ((unreadValues s layer : MlpValues F).weights l) inputs (2 ^ e)
      nOut z = 0 := by
    intro z
    simp only [products]
    rw [mul_comm, identityGate_of_forall_eq_zero, zero_mul]
    intro g hg
    obtain ⟨i, -, rfl⟩ := List.mem_map.mp hg
    have hplace : asU32 i < 2 ^ 32 := Nat.mod_lt _ (Nat.two_pow_pos 32)
    exact if_neg fun h => by omega
  rw [preActivations, sumPerNeuron_eq_zero hproducts, zero_add]
  rfl

theorem stateAt_unread (hs : WellFormed s) {layer l : ℕ} (hl : l < s.layerDims.length) :
    (stateAt s (unreadValues s layer : MlpValues F) (l + 1)).activations =
      fun _ => unreadValue s l := by
  have hdims := List.getElem?_eq_getElem hl
  obtain ⟨a, b, hnIn, hnOut⟩ := dims_eq hs hdims
  by_cases hrelu : l ∈ s.reluLayerIndices
  · rw [stateAt_relu hdims hrelu]
    funext z
    simp only [hnIn]
    rw [preActivations_unread]
    exact mul_one _
  · rw [stateAt_linear hdims hrelu]
    simp only [hnIn]
    exact preActivations_unread _

private theorem decompBits_unread (layer r j : ℕ) :
    ∀ i < s.decompK, (unreadValues s layer : MlpValues F).decompBits r (j * s.decompK + i) =
      bitValue (decide (i = 0 ∨ i = s.decompK - 1)) := by
  intro i hi
  have hmod : (j * s.decompK + i) % s.decompK = i := by
    rw [Nat.mul_comm, Nat.mul_add_mod, Nat.mod_eq_of_lt hi]
  simp only [unreadValues, hmod, bitValue, decide_eq_true_eq]

private theorem suffixValue_unread (hs : WellFormed s) {l : ℕ} (hl : l ∈ s.reluLayerIndices) :
    (suffixValue (fun i => decide (i = 0 ∨ i = s.decompK - 1)) s.decompK : F) =
      unreadValue s l + ((2 ^ (s.decompK - 1) : ℕ) : F) := by
  have hK := hs.decompK
  obtain h | ⟨k, hk⟩ : s.decompK = 1 ∨ ∃ k, s.decompK = k + 2 := by
    by_cases h : s.decompK = 1
    · exact .inl h
    · exact .inr ⟨s.decompK - 2, by omega⟩
  · rw [unreadValue, if_pos ⟨hl, h⟩, h, suffixValue, Finset.sum_range_one]
    simp
  · have hlow : suffixValue (fun i => decide (i = 0 ∨ i = k + 1)) (k + 1) = 1 := by
      rw [suffixValue, Finset.sum_eq_single 0]
      · rfl
      · intro i hi hne
        rw [Finset.mem_range] at hi
        rw [decide_eq_false (by omega), Bool.toNat_false, Nat.zero_mul]
      · intro h
        exact absurd (Finset.mem_range.mpr (Nat.succ_pos k)) h
    rw [unreadValue, if_neg (fun h => by omega), hk, suffixValue_succ,
      show k + 2 - 1 = k + 1 by omega, hlow, decide_eq_true (Or.inr rfl), Bool.toNat_true]
    push_cast
    ring

private theorem reluChecks_unread (hs : WellFormed s) {layer l r e : ℕ}
    (hl : l ∈ s.reluLayerIndices) (hfits : 2 ^ e * s.decompK ≤ 2 ^ 32) :
    ∀ c ∈ reluChecks ((unreadValues s layer : MlpValues F).decompBits r)
        ((unreadValues s layer : MlpValues F).signBits r) (fun _ => unreadValue s l) (2 ^ e)
        s.decompK, ∀ i < c.2, c.1 i = 0 := by
  have hbits := @decompBits_unread F _ s layer r
  simp only [reluChecks, List.forall_mem_cons, List.not_mem_nil, false_imp_iff, implies_true,
    and_true]
  refine ⟨?_, ?_, ?_, ?_⟩
  · intro i _
    simp only [binaryCheck, unreadValues, mul_ite, mul_one, mul_zero]
    split
    · exact sub_self _
    · exact sub_self _
  · intro i _
    rw [binaryCheck, unreadValues, mul_one, sub_self]
  · intro j hj
    rw [reconResidual, weightedSum_eq hfits hs.decompK _ hj, bitsSum_eq (hbits j),
      suffixValue_unread hs hl, sub_self]
  · intro j hj
    rw [signFromDecomp_eq hfits hs.decompK _ hj, hbits j _ (by have := hs.decompK; omega),
      decide_eq_true (Or.inr rfl), bitValue, if_pos rfl]
    exact sub_self _

theorem allZero_unread (hs : WellFormed s) (hfits : outputCount s ≤ 2 ^ 32) (layer : ℕ) :
    AllZero s (unreadValues s layer : MlpValues F) := by
  have hrounds : ∀ l ≤ s.layerDims.length,
      ∀ c ∈ (stateAt s (unreadValues s layer : MlpValues F) l).allChecks, ∀ i < c.2, c.1 i = 0 := by
    intro l
    induction l with
    | zero =>
      intro _ c hc
      exact absurd hc List.not_mem_nil
    | succ l ih =>
      intro hl c hc
      have hdims := List.getElem?_eq_getElem (show l < s.layerDims.length from hl)
      obtain ⟨a, b, hnIn, hnOut⟩ := dims_eq hs hdims
      by_cases hrelu : l ∈ s.reluLayerIndices
      · rw [stateAt_relu hdims hrelu] at hc
        rcases List.mem_append.mp hc with hc | hc
        · exact ih (by omega) c hc
        · simp only [hnIn, preActivations_unread] at hc
          have hbits := (bits_le_outputCount hdims hrelu).trans hfits
          rw [hnOut] at hc hbits
          exact reluChecks_unread hs hrelu hbits c hc
      · rw [stateAt_linear hdims hrelu] at hc
        exact ih (by omega) c hc
  rw [allZero_iff hfits]
  intro c hc i hi
  rcases List.mem_append.mp hc with hc | hc
  · exact hrounds _ le_rfl c hc i hi
  · obtain ⟨n, hn⟩ : ∃ n, s.layerDims.length = n + 1 :=
      ⟨s.layerDims.length - 1, by have := List.length_pos_of_ne_nil hs.layers; omega⟩
    obtain rfl := List.mem_singleton.mp hc
    rw [hn, stateAt_unread hs (show n < s.layerDims.length by omega)]
    simp only [unreadValues, hn, Nat.add_sub_cancel, sub_self]

/-- The weight meets an activation unless the layer before has the signs of single bits. -/
private theorem activations_unread (hs : WellFormed s) {layer : ℕ}
    (hl : layer < s.layerDims.length)
    (hactive : ¬ (s.decompK = 1 ∧ ∃ k ∈ s.reluLayerIndices, layer = k + 1)) :
    (stateAt s (unreadValues s layer : MlpValues F) layer).activations = fun _ => 1 := by
  rcases Nat.eq_zero_or_pos layer with rfl | hpos
  · rfl
  · obtain ⟨k, rfl⟩ : ∃ k, layer = k + 1 := ⟨layer - 1, by omega⟩
    rw [stateAt_unread hs (by omega)]
    funext _
    exact if_neg fun h => hactive ⟨h.2, k, h.1, rfl⟩

/-- The weighted sum of the neuron that has the weight. -/
private theorem neuronValue_unread {layer e : ℕ}
    (hactivations : (stateAt s (unreadValues s layer : MlpValues F) layer).activations =
      fun _ => 1) :
    neuronValue s (unreadValues s layer : MlpValues F) layer (2 ^ e) (2 ^ 32 / 2 ^ e) =
      1 + unreadValue s layer := by
  rw [neuronValue, hactivations, Finset.sum_eq_single (2 ^ 32 % 2 ^ e)]
  · rw [Nat.mul_comm, Nat.div_add_mod]
    simp [unreadValues]
  · intro i hi hne
    rw [mul_one]
    refine if_neg ?_
    rintro ⟨-, heq⟩
    refine hne ?_
    rw [← heq, Nat.mul_comm, Nat.mul_add_mod, Nat.mod_eq_of_lt (Finset.mem_range.mp hi)]
  · intro h
    exact absurd (Finset.mem_range.mpr (Nat.mod_lt _ (Nat.two_pow_pos _))) h

/-- The values are no inference where the weight meets an activation. -/
theorem not_sound_unread [Nontrivial F] (hs : WellFormed s) {layer nIn nOut : ℕ}
    (hl : s.layerDims[layer]? = some (nIn, nOut)) (htable : 2 ^ 32 < nOut * nIn)
    (hactive : ¬ (s.decompK = 1 ∧ ∃ k ∈ s.reluLayerIndices, layer = k + 1)) :
    ¬ Sound s (unreadValues s layer : MlpValues F) := by
  intro hsound
  obtain ⟨a, b, rfl, rfl⟩ := dims_eq hs hl
  have hlength := (List.getElem?_eq_some_iff.mp hl).1
  have hj : 2 ^ 32 / 2 ^ (a + 1) < 2 ^ (b + 1) := by
    rw [Nat.div_lt_iff_lt_mul (Nat.two_pow_pos _)]
    exact htable
  have hneuron := hsound.neuron layer _ _ hl _ hj
  rw [neuronValue_unread (activations_unread hs hlength hactive), stateAt_unread hs hlength]
    at hneuron
  have hwrong : (1 : F) + unreadValue s layer ≠ unreadValue s layer := by
    rw [Ne, add_eq_right]
    exact one_ne_zero
  split at hneuron
  · next hrelu =>
    obtain ⟨bits, d, hsigned⟩ := hneuron
    -- the committed bits spell the value that the gates see
    have hbits := @decompBits_unread F _ s layer
      (stateAt s (unreadValues s layer : MlpValues F) layer).reluCounter (2 ^ 32 / 2 ^ (a + 1))
    have hsum := (bitsSum_eq hsigned.decomp).symm.trans (bitsSum_eq hbits)
    rw [suffixValue_unread hs hrelu] at hsum
    have hrecomposed := congrArg (Int.cast : ℤ → F) hsigned.recomposed
    push_cast at hrecomposed hsum
    rw [hsum, add_right_cancel_iff, ← hsigned.value] at hrecomposed
    exact hwrong hrecomposed.symm
  · exact hwrong hneuron.symm

/-- Provided that the outputs fit the indices, zero outputs show an inference for all inputs of a
shape exactly when its tables are read to their end. -/
theorem sound_iff_tablesFit (hs : WellFormed s) (hfits : outputCount s ≤ 2 ^ 32) :
    (∀ vals : MlpValues Fr, AllZero s vals → Sound s vals) ↔ TablesFit s := by
  constructor
  · intro hsound l nIn nOut hl
    by_contra hfit
    rw [not_or, Nat.not_le] at hfit
    exact not_sound_unread hs hl hfit.1 hfit.2 (hsound _ (allZero_unread hs hfits l))
  · intro htables vals hzero
    exact sound_of_allZero hs hfits htables hzero

/-- Two layers of two neurons, the first one with signs of three bits. -/
def smallShape : MlpShape := ⟨[(2, 2), (2, 2)], [0], 3⟩

/-- A layer of `2 ^ 17` neurons with `2 ^ 16` inputs each. -/
def wideShape : MlpShape := ⟨[(2 ^ 16, 2 ^ 17)], [], 3⟩

theorem smallShape_wellFormed : WellFormed smallShape where
  layers := by decide
  dims := by
    intro d hd
    obtain rfl : d = (2, 2) := by simpa [smallShape] using hd
    exact ⟨0, 0, rfl⟩
  chained := by
    intro l d e hd he
    have hd := List.mem_of_getElem? hd
    have he := List.mem_of_getElem? he
    obtain rfl : d = (2, 2) := by simpa [smallShape] using hd
    obtain rfl : e = (2, 2) := by simpa [smallShape] using he
    rfl
  increasing := by decide
  indices := by decide
  decompK := by decide

theorem wideShape_wellFormed : WellFormed wideShape where
  layers := List.cons_ne_nil _ _
  dims := by
    intro d hd
    exact ⟨15, 16, List.mem_singleton.mp hd⟩
  chained := by
    intro l d e _ he
    exact absurd (List.getElem?_eq_some_iff.mp he).1 (Nat.not_lt.mpr (Nat.le_add_left 1 l))
  increasing := List.Pairwise.nil
  indices := fun l hl => absurd hl List.not_mem_nil
  decompK := Nat.succ_pos 2

theorem small_network_sound : Sound smallShape (unreadValues smallShape 0 : MlpValues Fr) := by
  have hfits : outputCount smallShape ≤ 2 ^ 32 := by decide +kernel
  refine (sound_iff_tablesFit smallShape_wellFormed hfits).mpr ?_ _
    (allZero_unread smallShape_wellFormed hfits 0)
  intro l nIn nOut hl
  obtain ⟨rfl, rfl⟩ : nIn = 2 ∧ nOut = 2 := by
    simpa [smallShape] using List.mem_of_getElem? hl
  exact .inl (by decide)

/-- Beyond `2 ^ 32` weights, a layer can have other values than the weighted sums. -/
theorem wide_layer_unsound : AllZero wideShape (unreadValues wideShape 0 : MlpValues Fr) ∧
    ¬ Sound wideShape (unreadValues wideShape 0 : MlpValues Fr) := by
  constructor
  · refine allZero_unread wideShape_wellFormed ?_ 0
    change (0 + 0) + 2 ^ 17 ≤ 2 ^ 32
    decide
  · refine not_sound_unread wideShape_wellFormed rfl (by decide) ?_
    rintro ⟨-, k, hk, -⟩
    exact List.not_mem_nil hk

end Unread

end WorldZk.MlpSoundness
