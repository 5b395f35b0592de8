import WorldZk.InferenceCircuit

/-!
# The circuit of a network

`build_mlp_circuit` as a function of its inputs: the nodes of each layer, the checks that the layers
add, and the layer of outputs.
-/

namespace WorldZk.MlpCircuit

open GateWirings InferenceCircuit

/-- The arguments of `build_mlp_circuit`. -/
structure MlpShape where
  /-- The padded numbers of inputs and neurons of each layer. -/
  layerDims : List (ℕ × ℕ)
  reluLayerIndices : List ℕ
  decompK : ℕ

/-- The values of the input shreds. -/
structure MlpValues (F : Type) where
  features : ℕ → F
  weights : ℕ → ℕ → F
  biases : ℕ → ℕ → F
  decompBits : ℕ → ℕ → F
  signBits : ℕ → ℕ → F
  expectedOutputs : ℕ → F

section Circuit

variable {F : Type} [CommRing F]

/-! ## Matrix products -/

/-- A level of `sum_per_neuron`, with the length of the blocks. -/
def sumLevel (nOut : ℕ) (state : (ℕ → F) × ℕ) : (ℕ → F) × ℕ :=
  let (current, block) := state
  let half := block / 2
  let newNv := nextLog2 (nOut * half)
  let target := fun j i => asU32 (j * half + i)
  let evenGates := gridGates nOut half target fun j i => asU32 (j * block + 2 * i)
  let oddGates := gridGates nOut half target fun j i => asU32 (j * block + 2 * i + 1)
  (fun z => identityGate evenGates newNv current z + identityGate oddGates newNv current z, half)

/-- `sum_per_neuron`. -/
def sumPerNeuron (products : ℕ → F) (nOut nIn : ℕ) : ℕ → F :=
  ((List.range (trailingZeros nIn)).reverse.foldl (fun state _ => sumLevel nOut state)
    (products, nIn)).1

/-- The inputs times the weights, for each neuron. -/
def products (weights inputs : ℕ → F) (nIn nOut : ℕ) (z : ℕ) : F :=
  let totalNv := nextLog2 (nOut * nIn)
  let inputExpandGates := gridGates nOut nIn (fun j i => asU32 (j * nIn + i)) fun _ i => asU32 i
  let weightGates := rowGates (nOut * nIn) asU32 asU32
  identityGate inputExpandGates totalNv inputs z * identityGate weightGates totalNv weights z

def preActivations (weights biases inputs : ℕ → F) (nIn nOut : ℕ) (z : ℕ) : F :=
  sumPerNeuron (products weights inputs nIn nOut) nOut nIn z + biases z

/-! ## Signs -/

/-- The number that the bits of a neuron spell. -/
def weightedSum (decomp : ℕ → F) (nOut decompK : ℕ) (z : ℕ) : F :=
  (List.range nOut).foldl (fun acc j =>
    (List.range decompK).foldl (fun acc bit =>
      acc + identityGate [(asU32 j, asU32 (j * decompK + bit))] (trailingZeros nOut) decomp z *
        ((2 ^ bit : ℕ) : F)) acc) 0

def reconResidual (decomp preActivation : ℕ → F) (nOut decompK : ℕ) (z : ℕ) : F :=
  weightedSum decomp nOut decompK z - (preActivation z + ((2 ^ (decompK - 1) : ℕ) : F))

def signFromDecomp (decomp : ℕ → F) (nOut decompK : ℕ) : ℕ → F :=
  identityGate (rowGates nOut asU32 fun j => asU32 (j * decompK + (decompK - 1)))
    (trailingZeros nOut) decomp

/-- The checks of a layer with signs, each with the number of its entries. -/
def reluChecks (decomp sign preActivation : ℕ → F) (nOut decompK : ℕ) : List ((ℕ → F) × ℕ) :=
  [(binaryCheck decomp, 2 ^ nextLog2 (nOut * decompK)), (binaryCheck sign, nOut),
    (reconResidual decomp preActivation nOut decompK, nOut),
    (fun z => signFromDecomp decomp nOut decompK z - sign z, nOut)]

/-! ## Layers -/

/-- What the loop over the layers has so far. -/
structure LayerState (F : Type) where
  activations : ℕ → F
  reluCounter : ℕ
  allChecks : List ((ℕ → F) × ℕ)

variable (s : MlpShape) (vals : MlpValues F)

/-- One round of the loop over the layers. -/
def layerStep (state : LayerState F) (layer : (ℕ × ℕ) × ℕ) : LayerState F :=
  let ((nIn, nOut), l) := layer
  let pre := preActivations (vals.weights l) (vals.biases l) state.activations nIn nOut
  if l ∈ s.reluLayerIndices then
    let decomp := vals.decompBits state.reluCounter
    let sign := vals.signBits state.reluCounter
    { activations := fun z => pre z * sign z
      reluCounter := state.reluCounter + 1
      allChecks := state.allChecks ++ reluChecks decomp sign pre nOut s.decompK }
  else { state with activations := pre }

/-- The state before a layer. -/
def stateAt (l : ℕ) : LayerState F :=
  (s.layerDims.zipIdx.take l).foldl (layerStep s vals)
    { activations := vals.features, reluCounter := 0, allChecks := [] }

/-! ## Outputs -/

def lastNOut : ℕ := (s.layerDims.getLastD (0, 0)).2

/-- All checks, the one of the outputs last. -/
def allChecks : List ((ℕ → F) × ℕ) :=
  let state := stateAt s vals s.layerDims.length
  state.allChecks ++ [(fun z => state.activations z - vals.expectedOutputs z, lastNOut s)]

/-- The checks one after the other, in a layer of `2 ^ nv` values. -/
def combine (checks : List ((ℕ → F) × ℕ)) (nv : ℕ) : ℕ → F :=
  (checks.foldl (fun (state : (ℕ → F) × ℕ) check =>
    let gates := rowGates check.2 (fun i => asU32 (state.2 + i)) asU32
    (fun z => state.1 z + identityGate gates nv check.1 z, state.2 + check.2)) (fun _ => 0, 0)).1

def totalChecks (checks : List ((ℕ → F) × ℕ)) : ℕ := (checks.map Prod.snd).sum

/-- All outputs of the circuit are zero. -/
def AllZero : Prop :=
  let checks := allChecks s vals
  let outputTotalNv := nextLog2 (totalChecks checks)
  ∀ z < 2 ^ outputTotalNv, combine checks outputTotalNv z = 0

/-- The number of outputs that the checks of a shape take. -/
def outputCount : ℕ :=
  (s.layerDims.zipIdx.map fun layer =>
    if layer.2 ∈ s.reluLayerIndices then
      2 ^ nextLog2 (layer.1.2 * s.decompK) + 3 * layer.1.2
    else 0).sum + lastNOut s

end Circuit

/-! ## What the nodes compute -/

section Nodes

variable {F : Type} [CommRing F]

private theorem sumLevel_eq {nOut half : ℕ} (hfits : nOut * (2 * half) ≤ 2 ^ 32) (current : ℕ → F)
    {j i : ℕ} (hj : j < nOut) (hi : i < half) :
    (sumLevel nOut (current, 2 * half)).1 (j * half + i) =
      current (j * (2 * half) + 2 * i) + current (j * (2 * half) + 2 * i + 1) := by
  have hhalf : 2 * half / 2 = half := by omega
  have hplace : ∀ v < nOut, ∀ n < 2 * half, v * (2 * half) + n < 2 ^ 32 :=
    fun v hv n hn => (rowPlace_lt hv hn).trans_le hfits
  have hle : nOut * half ≤ nOut * (2 * half) := Nat.mul_le_mul_left _ (by omega)
  have htarget : ∀ v < nOut, ∀ n < half, asU32 (v * half + n) = v * half + n :=
    fun v hv n hn => asU32_of_lt ((rowPlace_lt hv hn).trans_le (hle.trans hfits))
  have hz : j * half + i < 2 ^ nextLog2 (nOut * half) :=
    (rowPlace_lt hj hi).trans_le (le_two_pow_nextLog2 _)
  have hodd := hplace j hj (2 * i + 1) (by omega)
  rw [← Nat.add_assoc] at hodd
  simp only [sumLevel, hhalf]
  rw [identityGate_gridGates htarget hj hi hz, identityGate_gridGates htarget hj hi hz,
    asU32_of_lt (hplace j hj _ (by omega)), asU32_of_lt hodd]

private theorem sumPerNeuron_succ (p : ℕ → F) (nOut e : ℕ) :
    sumPerNeuron p nOut (2 ^ (e + 1)) =
      sumPerNeuron (sumLevel nOut (p, 2 ^ (e + 1))).1 nOut (2 ^ e) := by
  have hhalf : (sumLevel nOut (p, 2 ^ (e + 1))).2 = 2 ^ e := by
    change 2 ^ (e + 1) / 2 = 2 ^ e
    rw [Nat.pow_succ, Nat.mul_div_cancel _ Nat.two_pos]
  rw [sumPerNeuron, sumPerNeuron, trailingZeros, trailingZeros, Nat.log_pow Nat.one_lt_two,
    Nat.log_pow Nat.one_lt_two, List.range_succ, List.reverse_append, List.reverse_singleton,
    List.singleton_append, List.foldl_cons, ← hhalf]

theorem sumPerNeuron_eq {e nOut : ℕ} (hfits : nOut * 2 ^ e ≤ 2 ^ 32) (p : ℕ → F) {j : ℕ}
    (hj : j < nOut) :
    sumPerNeuron p nOut (2 ^ e) j = ∑ i ∈ Finset.range (2 ^ e), p (j * 2 ^ e + i) := by
  induction e generalizing p with
  | zero =>
    rw [Nat.pow_zero, Nat.mul_one, Finset.sum_range_one, Nat.add_zero, sumPerNeuron, trailingZeros,
      Nat.log_one_right]
    rfl
  | succ e ih =>
    have hpow : 2 ^ (e + 1) = 2 * 2 ^ e := Nat.pow_succ'
    have hle : nOut * 2 ^ e ≤ nOut * 2 ^ (e + 1) := Nat.mul_le_mul_left _ (by omega)
    rw [sumPerNeuron_succ, ih (hle.trans hfits), hpow, sum_range_two_mul]
    refine Finset.sum_congr rfl ?_
    intro i hi
    rw [Finset.mem_range] at hi
    exact sumLevel_eq (hpow ▸ hfits) p hj hi

theorem sumPerNeuron_eq_zero {p : ℕ → F} (h : ∀ z, p z = 0) (nOut e z : ℕ) :
    sumPerNeuron p nOut (2 ^ e) z = 0 := by
  induction e generalizing p with
  | zero =>
    rw [sumPerNeuron, trailingZeros, Nat.pow_zero, Nat.log_one_right]
    exact h z
  | succ e ih =>
    rw [sumPerNeuron_succ]
    refine ih ?_
    intro z
    simp only [sumLevel]
    rw [identityGate_of_forall_eq_zero fun g _ => h _,
      identityGate_of_forall_eq_zero fun g _ => h _, add_zero]

theorem preActivations_eq {e nOut : ℕ} (hfits : nOut * 2 ^ e ≤ 2 ^ 32)
    (weights biases inputs : ℕ → F) {j : ℕ} (hj : j < nOut) :
    preActivations weights biases inputs (2 ^ e) nOut j =
      ∑ i ∈ Finset.range (2 ^ e), weights (j * 2 ^ e + i) * inputs i + biases j := by
  rw [preActivations, sumPerNeuron_eq hfits _ hj]
  congr 1
  refine Finset.sum_congr rfl ?_
  intro i hi
  rw [Finset.mem_range] at hi
  have hlt := rowPlace_lt hj hi
  have htarget : ∀ v < nOut, ∀ n < 2 ^ e, asU32 (v * 2 ^ e + n) = v * 2 ^ e + n :=
    fun v hv n hn => asU32_of_lt ((rowPlace_lt hv hn).trans_le hfits)
  have hinput : asU32 i = i := by
    refine asU32_of_lt ?_
    calc i ≤ j * 2 ^ e + i := Nat.le_add_left _ _
      _ < 2 ^ 32 := hlt.trans_le hfits
  simp only [products]
  rw [identityGate_gridGates htarget hj hi (hlt.trans_le (le_two_pow_nextLog2 _)), hinput,
    routed_eq hfits (le_two_pow_nextLog2 _) _ hlt, asU32_of_lt (hlt.trans_le hfits), mul_comm]

private theorem gateAt_eq {decomp : ℕ → F} {e j place z : ℕ} (hfits : 2 ^ e ≤ 2 ^ 32)
    (hj : j < 2 ^ e) (hz : z < 2 ^ e) :
    identityGate [(asU32 j, asU32 place)] (trailingZeros (2 ^ e)) decomp z =
      if j = z then decomp (asU32 place) else 0 := by
  rw [trailingZeros, Nat.log_pow Nat.one_lt_two, asU32_of_lt (hj.trans_le hfits)]
  split
  · next hjz =>
    subst hjz
    exact identityGate_of_mem (by simp) List.mem_cons_self hz
  · next hjz =>
    refine identityGate_of_notMem ?_
    rw [List.map_singleton, List.mem_singleton]
    exact Ne.symm hjz

theorem weightedSum_eq {e decompK z : ℕ} (hfits : 2 ^ e * decompK ≤ 2 ^ 32) (hK : 0 < decompK)
    (decomp : ℕ → F) (hz : z < 2 ^ e) :
    weightedSum decomp (2 ^ e) decompK z =
      ∑ bit ∈ Finset.range decompK, decomp (z * decompK + bit) * ((2 ^ bit : ℕ) : F) := by
  have hle : 2 ^ e ≤ 2 ^ e * decompK := Nat.le_mul_of_pos_right _ hK
  have hgate : ∀ j < 2 ^ e, ∀ place, identityGate [(asU32 j, asU32 place)] (trailingZeros (2 ^ e))
      decomp z = if j = z then decomp (asU32 place) else 0 :=
    fun j hj place => gateAt_eq (hle.trans hfits) hj hz
  simp only [weightedSum, foldl_range_add, zero_add]
  rw [Finset.sum_eq_single z]
  · refine Finset.sum_congr rfl ?_
    intro bit hbit
    rw [Finset.mem_range] at hbit
    rw [hgate z hz, if_pos rfl, asU32_of_lt ((rowPlace_lt hz hbit).trans_le hfits)]
  · intro j hj hjz
    refine Finset.sum_eq_zero ?_
    intro bit _
    rw [hgate j (Finset.mem_range.mp hj), if_neg hjz, zero_mul]
  · intro hmem
    exact absurd (Finset.mem_range.mpr hz) hmem

theorem signFromDecomp_eq {e decompK z : ℕ} (hfits : 2 ^ e * decompK ≤ 2 ^ 32) (hK : 0 < decompK)
    (decomp : ℕ → F) (hz : z < 2 ^ e) :
    signFromDecomp decomp (2 ^ e) decompK z = decomp (z * decompK + (decompK - 1)) := by
  have hle : 2 ^ e ≤ 2 ^ e * decompK := Nat.le_mul_of_pos_right _ hK
  rw [signFromDecomp, trailingZeros, Nat.log_pow Nat.one_lt_two,
    routed_eq (hle.trans hfits) le_rfl _ hz,
    asU32_of_lt ((rowPlace_lt hz (by omega)).trans_le hfits)]

end Nodes

/-! ## Outputs that are zero -/

section Outputs

variable {F : Type} [CommRing F]

/-- The value of an output, when the checks stand one after the other from an offset. -/
private def valueAt : List ((ℕ → F) × ℕ) → ℕ → ℕ → F
  | [], _, _ => 0
  | (check, count) :: checks, offset, z =>
    (if offset ≤ z ∧ z < offset + count then check (z - offset) else 0) +
      valueAt checks (offset + count) z

private theorem valueAt_of_lt {checks : List ((ℕ → F) × ℕ)} {offset z : ℕ} (hz : z < offset) :
    valueAt checks offset z = 0 := by
  induction checks generalizing offset with
  | nil => rfl
  | cons c checks ih =>
    rw [valueAt, if_neg (by omega), ih (by omega), add_zero]

private theorem valueAt_of_ge {checks : List ((ℕ → F) × ℕ)} {offset z : ℕ}
    (hz : offset + totalChecks checks ≤ z) : valueAt checks offset z = 0 := by
  induction checks generalizing offset with
  | nil => rfl
  | cons c checks ih =>
    obtain ⟨check, count⟩ := c
    have htotal : totalChecks ((check, count) :: checks) = count + totalChecks checks := rfl
    rw [valueAt, if_neg (by omega), ih (by omega), add_zero]

private theorem valueAt_eq_zero_iff {checks : List ((ℕ → F) × ℕ)} {offset : ℕ} :
    (∀ z < offset + totalChecks checks, valueAt checks offset z = 0) ↔
      ∀ c ∈ checks, ∀ i < c.2, c.1 i = 0 := by
  induction checks generalizing offset with
  | nil => simp [valueAt]
  | cons c checks ih =>
    obtain ⟨check, count⟩ := c
    have htotal : totalChecks ((check, count) :: checks) = count + totalChecks checks := rfl
    rw [List.forall_mem_cons, ← @ih (offset + count), htotal, ← Nat.add_assoc]
    constructor
    · intro h
      have hfirst : ∀ i < count, check i = 0 := by
        intro i hi
        have := h (offset + i) (by omega)
        rwa [valueAt, if_pos (by omega), valueAt_of_lt (by omega), add_zero,
          Nat.add_sub_cancel_left] at this
      refine ⟨hfirst, ?_⟩
      intro z hz
      have hvalue := h z hz
      rw [valueAt] at hvalue
      split at hvalue
      · exact valueAt_of_lt (by omega)
      · rwa [zero_add] at hvalue
    · rintro ⟨hfirst, hrest⟩ z hz
      rw [valueAt, hrest z hz, add_zero]
      split
      · exact hfirst _ (by omega)
      · rfl

private theorem combine_eq {checks : List ((ℕ → F) × ℕ)} {nv : ℕ}
    (hfits : totalChecks checks ≤ 2 ^ 32) (hnv : totalChecks checks ≤ 2 ^ nv) (z : ℕ) :
    combine checks nv z = valueAt checks 0 z := by
  have hrun : ∀ (checks : List ((ℕ → F) × ℕ)) (acc : ℕ → F) (offset : ℕ),
      offset + totalChecks checks ≤ 2 ^ 32 → offset + totalChecks checks ≤ 2 ^ nv →
      (checks.foldl (fun (state : (ℕ → F) × ℕ) check =>
        let gates := rowGates check.2 (fun i => asU32 (state.2 + i)) asU32
        (fun z => state.1 z + identityGate gates nv check.1 z, state.2 + check.2))
          (acc, offset)).1 z = acc z + valueAt checks offset z := by
    intro checks
    induction checks with
    | nil =>
      intro acc offset _ _
      rw [valueAt, add_zero]
      rfl
    | cons c checks ih =>
      obtain ⟨check, count⟩ := c
      intro acc offset hfits hnv
      have htotal : totalChecks ((check, count) :: checks) = count + totalChecks checks := rfl
      rw [htotal, ← Nat.add_assoc] at hfits hnv
      rw [List.foldl_cons, ih _ _ hfits hnv, valueAt, routedAt_eq (by omega) (by omega), add_assoc]
  have h := hrun checks (fun _ => 0) 0 (by rwa [Nat.zero_add]) (by rwa [Nat.zero_add])
  rwa [zero_add] at h

theorem combine_eq_zero_iff {checks : List ((ℕ → F) × ℕ)} (hfits : totalChecks checks ≤ 2 ^ 32) :
    (∀ z < 2 ^ nextLog2 (totalChecks checks),
        combine checks (nextLog2 (totalChecks checks)) z = 0) ↔
      ∀ c ∈ checks, ∀ i < c.2, c.1 i = 0 := by
  have hnv : totalChecks checks ≤ 2 ^ nextLog2 (totalChecks checks) := le_two_pow_nextLog2 _
  simp only [combine_eq hfits hnv]
  rw [← @valueAt_eq_zero_iff F _ checks 0, Nat.zero_add]
  constructor
  · exact fun h z hz => h z (hz.trans_le hnv)
  · intro h z _
    rcases Nat.lt_or_ge z (totalChecks checks) with hz | hz
    · exact h z hz
    · exact valueAt_of_ge (by rwa [Nat.zero_add])

end Outputs

/-! ## Rounds of the loop -/

section Rounds

variable {F : Type} [CommRing F] {s : MlpShape} {vals : MlpValues F}

theorem stateAt_succ {l : ℕ} {dims : ℕ × ℕ} (h : s.layerDims[l]? = some dims) :
    stateAt s vals (l + 1) = layerStep s vals (stateAt s vals l) (dims, l) := by
  have hlayer : s.layerDims.zipIdx[l]? = some (dims, l) := by
    rw [List.getElem?_zipIdx, h]
    simp
  rw [stateAt, List.take_add_one, hlayer, Option.toList_some, List.foldl_append, List.foldl_cons,
    List.foldl_nil]
  rfl

private theorem layerStep_allChecks (state : LayerState F) (layer : (ℕ × ℕ) × ℕ) :
    ∃ added, (layerStep s vals state layer).allChecks = state.allChecks ++ added ∧
      totalChecks added = if layer.2 ∈ s.reluLayerIndices then
        2 ^ nextLog2 (layer.1.2 * s.decompK) + 3 * layer.1.2 else 0 := by
  simp only [layerStep]
  split
  · refine ⟨_, rfl, ?_⟩
    simp only [totalChecks, reluChecks, List.map_cons, List.map_nil, List.sum_cons, List.sum_nil]
    ring
  · exact ⟨[], (List.append_nil _).symm, rfl⟩

private theorem totalChecks_foldl (layers : List ((ℕ × ℕ) × ℕ)) (state : LayerState F) :
    totalChecks (layers.foldl (layerStep s vals) state).allChecks =
      totalChecks state.allChecks + (layers.map fun layer =>
        if layer.2 ∈ s.reluLayerIndices then
          2 ^ nextLog2 (layer.1.2 * s.decompK) + 3 * layer.1.2
        else 0).sum := by
  induction layers generalizing state with
  | nil => rfl
  | cons layer layers ih =>
    obtain ⟨added, hadded, htotal⟩ := @layerStep_allChecks F _ s vals state layer
    have happend : totalChecks (state.allChecks ++ added) =
        totalChecks state.allChecks + totalChecks added := by
      rw [totalChecks, List.map_append, List.sum_append]
      rfl
    rw [List.foldl_cons, ih, hadded, happend, htotal, List.map_cons, List.sum_cons, Nat.add_assoc]

theorem totalChecks_allChecks : totalChecks (allChecks s vals) = outputCount s := by
  have hlayers : s.layerDims.zipIdx.take s.layerDims.length = s.layerDims.zipIdx :=
    List.take_of_length_le (by rw [List.length_zipIdx])
  have hrun := @totalChecks_foldl F _ s vals s.layerDims.zipIdx ⟨vals.features, 0, []⟩
  rw [allChecks, totalChecks, List.map_append, List.sum_append, outputCount]
  congr 1
  rw [stateAt, hlayers]
  rw [totalChecks, totalChecks, List.map_nil, List.sum_nil, Nat.zero_add] at hrun
  exact hrun

theorem allZero_iff (hfits : outputCount s ≤ 2 ^ 32) :
    AllZero s vals ↔ ∀ c ∈ allChecks s vals, ∀ i < c.2, c.1 i = 0 :=
  combine_eq_zero_iff (by rwa [totalChecks_allChecks])

theorem mem_allChecks {l : ℕ} (hl : l ≤ s.layerDims.length) {c : (ℕ → F) × ℕ}
    (hc : c ∈ (stateAt s vals l).allChecks) : c ∈ allChecks s vals := by
  have hrounds : ∀ n, l + n ≤ s.layerDims.length → c ∈ (stateAt s vals (l + n)).allChecks := by
    intro n
    induction n with
    | zero => exact fun _ => hc
    | succ n ih =>
      intro hn
      have hround := @stateAt_succ F _ s vals _ _
        (List.getElem?_eq_getElem (show l + n < s.layerDims.length by omega))
      obtain ⟨added, hadded, -⟩ := @layerStep_allChecks F _ s vals (stateAt s vals (l + n))
        (s.layerDims[l + n], l + n)
      rw [← Nat.add_assoc, hround, hadded]
      exact List.mem_append_left _ (ih (by omega))
  refine List.mem_append_left _ ?_
  have h := hrounds (s.layerDims.length - l) (by omega)
  rwa [Nat.add_sub_cancel' hl] at h

end Rounds

end WorldZk.MlpCircuit
