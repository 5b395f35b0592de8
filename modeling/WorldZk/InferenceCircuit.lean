import WorldZk.GateWirings
import Mathlib.Algebra.Ring.Commute
import Mathlib.Data.Nat.Log
import Mathlib.Data.Nat.Size

/-!
# The inference circuit

`build_full_inference_circuit` as a function of its inputs: the values of its nodes over any
commutative ring, and the layer of outputs that a proof shows to be zero. Gates hold `u32` indices,
so the sizes of the tables decide what they connect.
-/

namespace WorldZk.InferenceCircuit

open GateWirings

/-- `as u32`. -/
def asU32 (n : ℕ) : ℕ := n % 2 ^ 32

def nextPowerOfTwo (n : ℕ) : ℕ := 2 ^ Nat.clog 2 n

/-- `trailing_zeros` of a power of two. -/
def trailingZeros (n : ℕ) : ℕ := Nat.log 2 n

/-- `next_log2`: the bits of `n - 1`. -/
def nextLog2 (n : ℕ) : ℕ := if n ≤ 1 then 1 else Nat.size (n - 1)

theorem asU32_of_lt {n : ℕ} (h : n < 2 ^ 32) : asU32 n = n := Nat.mod_eq_of_lt h

theorem le_nextPowerOfTwo (n : ℕ) : n ≤ nextPowerOfTwo n := Nat.le_pow_clog Nat.one_lt_two n

theorem nextPowerOfTwo_two_pow (e : ℕ) : nextPowerOfTwo (2 ^ e) = 2 ^ e := by
  rw [nextPowerOfTwo, Nat.clog_pow 2 e Nat.one_lt_two]

@[simp] theorem two_pow_trailingZeros (n : ℕ) :
    2 ^ trailingZeros (nextPowerOfTwo n) = nextPowerOfTwo n := by
  rw [trailingZeros, nextPowerOfTwo, Nat.log_pow Nat.one_lt_two]

theorem le_two_pow_nextLog2 (n : ℕ) : n ≤ 2 ^ nextLog2 n := by
  rw [nextLog2]
  split
  · omega
  · have := Nat.lt_size_self (n - 1)
    omega

/-! ## Nodes -/

section Nodes

variable {F : Type} [CommRing F]

/-- One level of `fold_table_with_bits`. -/
def foldLevel (pathBits : ℕ → F) (vt maxDepth : ℕ) (bitMap : ℕ → ℕ) (current : ℕ → F) (k : ℕ) :
    ℕ → F :=
  let full := 2 ^ (maxDepth - k)
  let half := full / 2
  let newNv := trailingZeros vt + maxDepth - k - 1
  let target := fun v i => asU32 (v * half + i)
  let first := identityGate (gridGates vt half target fun v i => asU32 (v * full + i)) newNv current
  let second :=
    identityGate (gridGates vt half target fun v i => asU32 (v * full + half + i)) newNv current
  let bExp :=
    identityGate (gridGates vt half target fun v _ => asU32 (bitMap v * maxDepth + k)) newNv pathBits
  fun z => first z + bExp z * (second z - first z)

/-- `fold_table_with_bits`. -/
def foldTableWithBits (table pathBits : ℕ → F) (vt maxDepth : ℕ) (bitMap : ℕ → ℕ) : ℕ → F :=
  (List.range maxDepth).foldl (foldLevel pathBits vt maxDepth bitMap) table

/-- `aggregate_sum`. -/
def aggregateSum (values : ℕ → F) (nv : ℕ) : ℕ → F :=
  (List.range nv).reverse.foldl (fun agg level =>
    let even := identityGate (rowGates (2 ^ level) asU32 fun i => asU32 (2 * i)) level agg
    let odd := identityGate (rowGates (2 ^ level) asU32 fun i => asU32 (2 * i + 1)) level agg
    fun z => even z + odd z) values

end Nodes

/-- The arguments of `build_full_inference_circuit`. -/
structure CircuitShape where
  numTreesPadded : ℕ
  maxDepth : ℕ
  featureIndicesPadded : List ℕ
  decompK : ℕ

namespace CircuitShape

variable (s : CircuitShape)

def pbCount : ℕ := s.numTreesPadded * s.maxDepth

/-- The number of virtual trees, one for each tree and level, padded. -/
def vtPadded : ℕ := nextPowerOfTwo (s.maxDepth * s.numTreesPadded)

def vtNv : ℕ := trailingZeros s.vtPadded

def decompTotal : ℕ := s.vtPadded * s.decompK

def threshTableNv : ℕ := s.vtNv + s.maxDepth

def totalChecks : ℕ := 1 + s.pbCount + s.decompTotal + s.vtPadded + s.vtPadded

def outputNv : ℕ := nextLog2 s.totalChecks

end CircuitShape

/-- The values of the input shreds. -/
structure CircuitValues (F : Type) where
  pathBits : ℕ → F
  features : ℕ → F
  decompBits : ℕ → F
  leafValues : ℕ → F
  expectedSum : F
  thresholds : ℕ → F
  isReal : ℕ → F

section Circuit

variable {F : Type} [CommRing F] (s : CircuitShape) (vals : CircuitValues F)

/-! ### Leaf selection -/

/-- The check that a value is a bit. -/
def binaryCheck (bits : ℕ → F) (z : ℕ) : F := bits z * bits z - bits z

def leafSelected : ℕ → F :=
  foldTableWithBits vals.leafValues vals.pathBits s.numTreesPadded s.maxDepth fun v => v

def sumResidual (z : ℕ) : F :=
  aggregateSum (leafSelected s vals) (trailingZeros s.numTreesPadded) z - vals.expectedSum

/-! ### Comparisons -/

def featureTable : ℕ → F :=
  identityGate
    ((s.featureIndicesPadded.zipIdx.take (s.vtPadded * 2 ^ s.maxDepth)).map fun p =>
      (asU32 p.2, asU32 p.1)) s.threshTableNv vals.features

/-- A table folded for the virtual trees. -/
def selected (table : ℕ → F) : ℕ → F :=
  foldTableWithBits table vals.pathBits s.vtPadded s.maxDepth fun v => v % s.numTreesPadded

def bitRouted (i : ℕ) : ℕ → F :=
  identityGate (rowGates s.vtPadded asU32 fun v => asU32 (v * s.decompK + i)) s.vtNv vals.decompBits

def weightedSum (z : ℕ) : F :=
  (List.range s.decompK).foldl (fun acc i => acc + bitRouted s vals i z * ((2 ^ i : ℕ) : F)) 0

def shiftedDiff (z : ℕ) : F :=
  selected s vals (featureTable s vals) z - selected s vals vals.thresholds z +
    ((2 ^ (s.decompK - 1) : ℕ) : F)

def maskedRecon (z : ℕ) : F :=
  (weightedSum s vals z - shiftedDiff s vals z) * selected s vals vals.isReal z

/-- The path bit that decides at a virtual tree. -/
def signPlace (v : ℕ) : ℕ :=
  if v / s.numTreesPadded < s.maxDepth then
    v % s.numTreesPadded * s.maxDepth + v / s.numTreesPadded
  else 0

def signPathBits : ℕ → F :=
  identityGate (rowGates s.vtPadded asU32 fun v => asU32 (signPlace s v)) s.vtNv vals.pathBits

def maskedSign (z : ℕ) : F :=
  (bitRouted s vals (s.decompK - 1) z - signPathBits s vals z) * selected s vals vals.isReal z

/-! ### Outputs -/

/-- A layer of checks in its place among the outputs. -/
def outputRoute (offset count : ℕ) (checks : ℕ → F) : ℕ → F :=
  identityGate (rowGates count (fun i => asU32 (offset + i)) asU32) s.outputNv checks

def combined (z : ℕ) : F :=
  outputRoute s 0 1 (sumResidual s vals) z +
    outputRoute s 1 s.pbCount (binaryCheck vals.pathBits) z +
    outputRoute s (1 + s.pbCount) s.decompTotal (binaryCheck vals.decompBits) z +
    outputRoute s (1 + s.pbCount + s.decompTotal) s.vtPadded (maskedRecon s vals) z +
    outputRoute s (1 + s.pbCount + s.decompTotal + s.vtPadded) s.vtPadded (maskedSign s vals) z

/-- All outputs of the circuit are zero. -/
def AllZero : Prop := ∀ z < 2 ^ s.outputNv, combined s vals z = 0

end Circuit

/-! ## What the nodes compute -/

section Values

variable {F : Type} [CommRing F]

/-- A bit as a value. -/
def bitValue (b : Bool) : F := if b then 1 else 0

theorem bitsSum_eq {values : ℕ → F} {k : ℕ} {bits : ℕ → Bool}
    (hbits : ∀ i < k, values i = bitValue (bits i)) :
    ∑ i ∈ Finset.range k, values i * ((2 ^ i : ℕ) : F) = (suffixValue bits k : F) := by
  rw [suffixValue, Nat.cast_sum]
  refine Finset.sum_congr rfl ?_
  intro i hi
  rw [hbits i (Finset.mem_range.mp hi), Nat.cast_mul]
  cases bits i <;> simp [bitValue]

/-- The tables fit the gates, and the arguments are those that the function asserts. -/
structure FitsGates (s : CircuitShape) : Prop where
  trees : ∃ e, s.numTreesPadded = 2 ^ e
  maxDepth : 0 < s.maxDepth
  decompK : 0 < s.decompK
  indices : s.featureIndicesPadded.length = s.vtPadded * 2 ^ s.maxDepth
  features : ∀ f ∈ s.featureIndicesPadded, f < 2 ^ 32
  tables : s.vtPadded * 2 ^ s.maxDepth ≤ 2 ^ 32
  checks : s.totalChecks ≤ 2 ^ 32

/-- A level keeps, for each virtual tree, the half of its entries that the bit selects. -/
private theorem foldLevel_eq {pathBits current : ℕ → F} {e maxDepth k : ℕ} {bitMap : ℕ → ℕ}
    {b : Bool} (hk : k < maxDepth) (hsize : 2 ^ e * 2 ^ maxDepth ≤ 2 ^ 32) {v i : ℕ}
    (hv : v < 2 ^ e) (hi : i < 2 ^ (maxDepth - (k + 1)))
    (hbit : pathBits (asU32 (bitMap v * maxDepth + k)) = bitValue b) :
    foldLevel pathBits (2 ^ e) maxDepth bitMap current k (v * 2 ^ (maxDepth - (k + 1)) + i) =
      current (v * 2 ^ (maxDepth - k) + b.toNat * 2 ^ (maxDepth - (k + 1)) + i) := by
  obtain ⟨r, hr⟩ : ∃ r, maxDepth - k = r + 1 := ⟨maxDepth - k - 1, by omega⟩
  have hr' : maxDepth - (k + 1) = r := by omega
  have hfull : 2 ^ (r + 1) = 2 * 2 ^ r := Nat.pow_succ'
  have hhalf : 2 ^ (r + 1) / 2 = 2 ^ r := by omega
  have hnv : trailingZeros (2 ^ e) + maxDepth - k - 1 = e + r := by
    rw [trailingZeros, Nat.log_pow Nat.one_lt_two]
    omega
  have hpow : 2 ^ (r + 1) ≤ 2 ^ maxDepth := Nat.pow_le_pow_right (by decide) (by omega)
  have hbound : 2 ^ e * 2 ^ (r + 1) ≤ 2 ^ 32 := (Nat.mul_le_mul_left _ hpow).trans hsize
  -- positions of a virtual tree stay within the table
  have hrow : ∀ w < 2 ^ e, ∀ n m, n < m → w * m + n < 2 ^ e * m :=
    fun w hw n m hnm => rowPlace_lt hw hnm
  have htarget : ∀ w < 2 ^ e, ∀ n < 2 ^ r, asU32 (w * 2 ^ r + n) = w * 2 ^ r + n := by
    intro w hw n hn
    refine asU32_of_lt ((hrow w hw n _ hn).trans_le (le_trans ?_ hbound))
    exact Nat.mul_le_mul_left _ (by omega)
  rw [hr'] at hi
  have hz : v * 2 ^ r + i < 2 ^ (e + r) := by
    rw [Nat.pow_add]
    exact hrow v hv i _ hi
  simp only [foldLevel, hr, hr', hhalf, hnv]
  rw [identityGate_gridGates htarget hv hi hz, identityGate_gridGates htarget hv hi hz,
    identityGate_gridGates htarget hv hi hz, hbit,
    asU32_of_lt ((hrow v hv i (2 ^ (r + 1)) (by omega)).trans_le hbound)]
  have hsecond : v * 2 ^ (r + 1) + 2 ^ r + i < 2 ^ 32 := by
    have := hrow v hv (2 ^ r + i) (2 ^ (r + 1)) (by omega)
    omega
  rw [asU32_of_lt hsecond]
  cases b with
  | false => simp [bitValue]
  | true => simp [bitValue]

/-- Folding selects, for each virtual tree, the entry that its bits spell. -/
theorem foldTableWithBits_eq {table pathBits : ℕ → F} {e maxDepth : ℕ} {bitMap : ℕ → ℕ}
    {b : ℕ → ℕ → Bool} (hsize : 2 ^ e * 2 ^ maxDepth ≤ 2 ^ 32)
    (hbits : ∀ v < 2 ^ e, ∀ k < maxDepth,
      pathBits (asU32 (bitMap v * maxDepth + k)) = bitValue (b v k)) {v : ℕ} (hv : v < 2 ^ e) :
    foldTableWithBits table pathBits (2 ^ e) maxDepth bitMap v =
      table (v * 2 ^ maxDepth + prefixValue (b v) maxDepth) := by
  -- after `k` levels the first `k` bits are used up
  have hlevels : ∀ k ≤ maxDepth, ∀ i < 2 ^ (maxDepth - k),
      (List.range k).foldl (foldLevel pathBits (2 ^ e) maxDepth bitMap) table
          (v * 2 ^ (maxDepth - k) + i) =
        table (v * 2 ^ maxDepth + prefixValue (b v) k * 2 ^ (maxDepth - k) + i) := by
    intro k
    induction k with
    | zero =>
      intro _ i _
      rw [List.range_zero, List.foldl_nil, prefixValue, Nat.zero_mul, Nat.sub_zero, Nat.add_zero]
    | succ k ih =>
      intro hk i hi
      have hpow : 2 ^ (maxDepth - k) = 2 * 2 ^ (maxDepth - (k + 1)) := by
        rw [← Nat.pow_succ']
        congr 1
        omega
      have hentry : (b v k).toNat * 2 ^ (maxDepth - (k + 1)) + i < 2 ^ (maxDepth - k) := by
        rw [hpow]
        cases b v k <;> simp only [Bool.toNat_false, Bool.toNat_true] <;> omega
      rw [List.range_succ, List.foldl_append, List.foldl_cons, List.foldl_nil,
        foldLevel_eq hk hsize hv hi (hbits v hv k hk), Nat.add_assoc, ih (by omega) _ hentry,
        prefixValue, Nat.bit_val, hpow]
      congr 1
      ring
  have hend := hlevels maxDepth le_rfl 0 (by rw [Nat.sub_self]; decide)
  rw [Nat.sub_self, Nat.pow_zero, Nat.mul_one, Nat.mul_one, Nat.add_zero, Nat.add_zero] at hend
  exact hend

private theorem foldLevel_eq_zero {pathBits current : ℕ → F} {vt maxDepth k z : ℕ} {bitMap : ℕ → ℕ}
    (h : ∀ i < 2 ^ 32, current i = 0) :
    foldLevel pathBits vt maxDepth bitMap current k z = 0 := by
  have hgate : ∀ (gates : List (ℕ × ℕ)) (nv : ℕ), (∀ g ∈ gates, g.2 < 2 ^ 32) →
      identityGate gates nv current z = 0 :=
    fun gates nv hgates => identityGate_of_forall_eq_zero fun g hg => h _ (hgates g hg)
  have hgrid : ∀ (rows columns : ℕ) (target place : ℕ → ℕ → ℕ),
      ∀ g ∈ gridGates rows columns target fun v i => asU32 (place v i), g.2 < 2 ^ 32 := by
    intro rows columns target place g hg
    rw [gridGates, List.mem_flatMap] at hg
    obtain ⟨v, -, hg⟩ := hg
    obtain ⟨i, -, rfl⟩ := List.mem_map.mp hg
    exact Nat.mod_lt _ (Nat.two_pow_pos 32)
  simp only [foldLevel]
  rw [hgate _ _ (hgrid _ _ _ fun v i => _), hgate _ _ (hgrid _ _ _ fun v i => _)]
  simp

/-- The gates read no entry beyond the first `2 ^ 32`. -/
theorem foldTableWithBits_eq_zero {table pathBits : ℕ → F} {vt maxDepth : ℕ} {bitMap : ℕ → ℕ}
    (h : ∀ i < 2 ^ 32, table i = 0) (hdepth : 0 < maxDepth) (z : ℕ) :
    foldTableWithBits table pathBits vt maxDepth bitMap z = 0 := by
  have hlevels : ∀ k, ∀ i < 2 ^ 32,
      (List.range k).foldl (foldLevel pathBits vt maxDepth bitMap) table i = 0 := by
    intro k
    induction k with
    | zero => exact h
    | succ k ih =>
      intro i _
      rw [List.range_succ, List.foldl_append, List.foldl_cons, List.foldl_nil]
      exact foldLevel_eq_zero ih
  obtain ⟨n, rfl⟩ : ∃ n, maxDepth = n + 1 := ⟨maxDepth - 1, by omega⟩
  rw [foldTableWithBits, List.range_succ, List.foldl_append, List.foldl_cons, List.foldl_nil]
  exact foldLevel_eq_zero (hlevels n)

theorem aggregateSum_eq {nv : ℕ} (hnv : 2 ^ nv ≤ 2 ^ 32) (values : ℕ → F) :
    aggregateSum values nv 0 = ∑ i ∈ Finset.range (2 ^ nv), values i := by
  induction nv generalizing values with
  | zero => rw [Nat.pow_zero, Finset.sum_range_one]; rfl
  | succ nv ih =>
    have hsucc : 2 ^ (nv + 1) = 2 * 2 ^ nv := Nat.pow_succ'
    have hinj : ∀ i < 2 ^ nv, ∀ j < 2 ^ nv, asU32 i = asU32 j → i = j := by
      intro i hi j hj hij
      rwa [asU32_of_lt (by omega), asU32_of_lt (by omega)] at hij
    rw [aggregateSum, List.range_succ, List.reverse_append, List.reverse_singleton,
      List.singleton_append, List.foldl_cons]
    refine (ih (by omega) _).trans ?_
    rw [hsucc, sum_range_two_mul]
    refine Finset.sum_congr rfl ?_
    intro i hi
    rw [Finset.mem_range] at hi
    have hplace : asU32 i = i := asU32_of_lt (by omega)
    have hroute : ∀ place : ℕ → ℕ,
        identityGate (rowGates (2 ^ nv) asU32 place) nv values i = values (place i) := by
      intro place
      have h := @identityGate_rowGates F _ nv values (2 ^ nv) asU32 place hinj i hi
        (by rw [hplace]; exact hi)
      rwa [hplace] at h
    simp only [hroute]
    rw [asU32_of_lt (by omega), asU32_of_lt (by omega)]

/-- A route of a loop whose counter fits. -/
theorem routed_eq {source : ℕ → F} {count nv : ℕ} (hfits : count ≤ 2 ^ 32)
    (hnv : count ≤ 2 ^ nv) (place : ℕ → ℕ) {v : ℕ} (hv : v < count) :
    identityGate (rowGates count asU32 place) nv source v = source (place v) := by
  have hplace : ∀ i < count, asU32 i = i := fun i hi => asU32_of_lt (by omega)
  have h := @identityGate_rowGates F _ nv source count asU32 place
    (fun i hi j hj hij => by rwa [hplace i hi, hplace j hj] at hij) v hv
    (by rw [hplace v hv]; omega)
  rwa [hplace v hv] at h

/-- A layer of checks routed to its place among the outputs. -/
theorem routedAt_eq {checks : ℕ → F} {offset count nv : ℕ} (hfits : offset + count ≤ 2 ^ 32)
    (hnv : offset + count ≤ 2 ^ nv) (z : ℕ) :
    identityGate (rowGates count (fun i => asU32 (offset + i)) asU32) nv checks z =
      if offset ≤ z ∧ z < offset + count then checks (z - offset) else 0 := by
  have hplace : ∀ i < count, asU32 (offset + i) = offset + i := fun i hi => asU32_of_lt (by omega)
  split
  · next hz =>
    have h := @identityGate_rowGates F _ nv checks count (fun i => asU32 (offset + i)) asU32
      (fun i hi j hj hij => by
        simp only [hplace i hi, hplace j hj] at hij
        omega) (z - offset) (by omega) (by rw [hplace _ (by omega)]; omega)
    rw [hplace _ (by omega), asU32_of_lt (show z - offset < 2 ^ 32 by omega)] at h
    rwa [show offset + (z - offset) = z by omega] at h
  · next hz =>
    refine identityGate_rowGates_of_notMem ?_
    intro i hi heq
    rw [hplace i hi] at heq
    omega

private theorem outputRoute_eq {s : CircuitShape} (hs : FitsGates s) {offset count : ℕ}
    (hfits : offset + count ≤ s.totalChecks) (checks : ℕ → F) (z : ℕ) :
    outputRoute s offset count checks z =
      if offset ≤ z ∧ z < offset + count then checks (z - offset) else 0 := by
  rw [outputRoute]
  exact routedAt_eq (hfits.trans hs.checks) (hfits.trans (le_two_pow_nextLog2 _)) z

/-- The outputs are zero exactly when every check is. -/
private theorem allZero_iff {s : CircuitShape} (hs : FitsGates s) {vals : CircuitValues F} :
    AllZero s vals ↔ sumResidual s vals 0 = 0 ∧
      (∀ i < s.pbCount, binaryCheck vals.pathBits i = 0) ∧
      (∀ i < s.decompTotal, binaryCheck vals.decompBits i = 0) ∧
      (∀ v < s.vtPadded, maskedRecon s vals v = 0) ∧ ∀ v < s.vtPadded, maskedSign s vals v = 0 := by
  have hnv : s.totalChecks ≤ 2 ^ s.outputNv := le_two_pow_nextLog2 _
  have htotal : s.totalChecks = 1 + s.pbCount + s.decompTotal + s.vtPadded + s.vtPadded := rfl
  have hvalue : ∀ z, combined s vals z =
      (if 0 ≤ z ∧ z < 0 + 1 then sumResidual s vals (z - 0) else 0) +
      (if 1 ≤ z ∧ z < 1 + s.pbCount then binaryCheck vals.pathBits (z - 1) else 0) +
      (if 1 + s.pbCount ≤ z ∧ z < 1 + s.pbCount + s.decompTotal then
        binaryCheck vals.decompBits (z - (1 + s.pbCount)) else 0) +
      (if 1 + s.pbCount + s.decompTotal ≤ z ∧ z < 1 + s.pbCount + s.decompTotal + s.vtPadded then
        maskedRecon s vals (z - (1 + s.pbCount + s.decompTotal)) else 0) +
      (if 1 + s.pbCount + s.decompTotal + s.vtPadded ≤ z ∧
          z < 1 + s.pbCount + s.decompTotal + s.vtPadded + s.vtPadded then
        maskedSign s vals (z - (1 + s.pbCount + s.decompTotal + s.vtPadded)) else 0) := by
    intro z
    rw [combined, outputRoute_eq hs (by omega), outputRoute_eq hs (by omega),
      outputRoute_eq hs (by omega), outputRoute_eq hs (by omega), outputRoute_eq hs (by omega)]
  constructor
  · intro h
    have hat : ∀ z < s.totalChecks, combined s vals z = 0 := fun z hz => h z (by omega)
    refine ⟨?_, ?_, ?_, ?_, ?_⟩
    · have := hat 0 (by omega)
      rw [hvalue, if_pos (by omega), if_neg (by omega), if_neg (by omega), if_neg (by omega),
        if_neg (by omega)] at this
      simpa using this
    · intro i hi
      have := hat (1 + i) (by omega)
      rw [hvalue, if_neg (by omega), if_pos (by omega), if_neg (by omega), if_neg (by omega),
        if_neg (by omega)] at this
      simpa using this
    · intro i hi
      have := hat (1 + s.pbCount + i) (by omega)
      rw [hvalue, if_neg (by omega), if_neg (by omega), if_pos (by omega), if_neg (by omega),
        if_neg (by omega)] at this
      simpa using this
    · intro v hv
      have := hat (1 + s.pbCount + s.decompTotal + v) (by omega)
      rw [hvalue, if_neg (by omega), if_neg (by omega), if_neg (by omega), if_pos (by omega),
        if_neg (by omega)] at this
      simpa using this
    · intro v hv
      have := hat (1 + s.pbCount + s.decompTotal + s.vtPadded + v) (by omega)
      rw [hvalue, if_neg (by omega), if_neg (by omega), if_neg (by omega), if_neg (by omega),
        if_pos (by omega)] at this
      simpa using this
  · rintro ⟨hsum, hpath, hdecomp, hrecon, hsign⟩ z _
    rw [hvalue]
    have hone : (if 0 ≤ z ∧ z < 0 + 1 then sumResidual s vals (z - 0) else 0) = 0 := by
      split
      · next hz => rwa [show z - 0 = 0 by omega]
      · rfl
    rw [hone, ite_eq_right_iff.mpr fun hz => hpath _ (by omega),
      ite_eq_right_iff.mpr fun hz => hdecomp _ (by omega),
      ite_eq_right_iff.mpr fun hz => hrecon _ (by omega),
      ite_eq_right_iff.mpr fun hz => hsign _ (by omega)]
    simp

/-! ## Checks that pass -/

namespace CircuitShape

variable (s : CircuitShape) (path : ℕ → Bool)

/-- The bits that a tree's entries are folded with. -/
def treeBits (t k : ℕ) : Bool := path (t * s.maxDepth + k)

/-- The entry that a tree's bits select among those of a virtual tree. -/
def selectedPlace (v t : ℕ) : ℕ := v * 2 ^ s.maxDepth + prefixValue (s.treeBits path t) s.maxDepth

end CircuitShape

/-- The checks of the circuit, for given path bits and digits of the comparisons. -/
structure Passes (s : CircuitShape) (vals : CircuitValues F) (path : ℕ → Bool)
    (digits : ℕ → ℕ → Bool) : Prop where
  pathBit : ∀ i < s.pbCount, vals.pathBits i = bitValue (path i)
  decompBit : ∀ v < s.vtPadded, ∀ i < s.decompK,
    vals.decompBits (v * s.decompK + i) = bitValue (digits v i)
  sum : ∑ t ∈ Finset.range s.numTreesPadded, vals.leafValues (s.selectedPlace path t t) =
    vals.expectedSum
  recon : ∀ v < s.vtPadded,
    ((suffixValue (digits v) s.decompK : F) -
      (vals.features (s.featureIndicesPadded.getD (s.selectedPlace path v (v % s.numTreesPadded)) 0) -
        vals.thresholds (s.selectedPlace path v (v % s.numTreesPadded)) +
          ((2 ^ (s.decompK - 1) : ℕ) : F))) *
      vals.isReal (s.selectedPlace path v (v % s.numTreesPadded)) = 0
  sign : ∀ v < s.vtPadded,
    (bitValue (digits v (s.decompK - 1)) - bitValue (path (signPlace s v))) *
      vals.isReal (s.selectedPlace path v (v % s.numTreesPadded)) = 0

section Sizes

variable {s : CircuitShape} (hs : FitsGates s)

include hs

private theorem trees_pos : 0 < s.numTreesPadded := by
  obtain ⟨e, he⟩ := hs.trees
  rw [he]
  exact Nat.two_pow_pos e

private theorem trees_le_vtPadded : s.numTreesPadded ≤ s.vtPadded :=
  calc s.numTreesPadded ≤ s.maxDepth * s.numTreesPadded := Nat.le_mul_of_pos_left _ hs.maxDepth
    _ ≤ s.vtPadded := le_nextPowerOfTwo _

private theorem pbCount_le : s.pbCount ≤ 2 ^ 32 := by
  have := hs.checks
  rw [CircuitShape.totalChecks] at this
  omega

omit hs in
private theorem place_lt_pbCount {t k : ℕ} (ht : t < s.numTreesPadded) (hk : k < s.maxDepth) :
    t * s.maxDepth + k < s.pbCount := rowPlace_lt ht hk

private theorem signPlace_lt (v : ℕ) : signPlace s v < s.pbCount := by
  rw [signPlace]
  split
  · next hk => exact place_lt_pbCount (Nat.mod_lt _ (trees_pos hs)) hk
  · exact Nat.mul_pos (trees_pos hs) hs.maxDepth

private theorem vtPadded_le : s.vtPadded ≤ 2 ^ 32 :=
  (Nat.le_mul_of_pos_right _ (Nat.two_pow_pos _)).trans hs.tables

omit hs in
theorem selectedPlace_lt {path : ℕ → Bool} {v : ℕ} (hv : v < s.vtPadded) (t : ℕ) :
    s.selectedPlace path v t < s.vtPadded * 2 ^ s.maxDepth := by
  rw [CircuitShape.selectedPlace]
  exact rowPlace_lt hv (prefixValue_lt (s.treeBits path t) s.maxDepth)

omit hs in
private theorem two_pow_vtNv : 2 ^ s.vtNv = s.vtPadded := two_pow_trailingZeros _

end Sizes

section Nodes

variable {s : CircuitShape} (hs : FitsGates s) {vals : CircuitValues F} {path : ℕ → Bool}
  (hpath : ∀ i < s.pbCount, vals.pathBits i = bitValue (path i))

include hs hpath

private theorem pathBits_asU32 {t k : ℕ} (ht : t < s.numTreesPadded) (hk : k < s.maxDepth) :
    vals.pathBits (asU32 (t * s.maxDepth + k)) = bitValue (s.treeBits path t k) := by
  have hlt := place_lt_pbCount ht hk
  rw [asU32_of_lt (hlt.trans_le (pbCount_le hs)), hpath _ hlt]
  rfl

private theorem selected_eq (table : ℕ → F) {v : ℕ} (hv : v < s.vtPadded) :
    selected s vals table v = table (s.selectedPlace path v (v % s.numTreesPadded)) := by
  have hsize := hs.tables
  rw [← two_pow_vtNv] at hv hsize
  rw [selected, ← two_pow_vtNv]
  exact foldTableWithBits_eq (b := fun w => s.treeBits path (w % s.numTreesPadded)) hsize
    (fun w _ k hk => pathBits_asU32 hs hpath (Nat.mod_lt _ (trees_pos hs)) hk) hv

private theorem sumResidual_eq : sumResidual s vals 0 =
    ∑ t ∈ Finset.range s.numTreesPadded, vals.leafValues (s.selectedPlace path t t) -
      vals.expectedSum := by
  obtain ⟨e, he⟩ := hs.trees
  have hle := (trees_le_vtPadded hs).trans (vtPadded_le hs)
  have hsize : s.numTreesPadded * 2 ^ s.maxDepth ≤ 2 ^ 32 :=
    (Nat.mul_le_mul_right _ (trees_le_vtPadded hs)).trans hs.tables
  have hlog : trailingZeros s.numTreesPadded = e := by
    rw [he, trailingZeros, Nat.log_pow Nat.one_lt_two]
  rw [he] at hle
  rw [sumResidual, hlog, aggregateSum_eq hle, ← he]
  congr 1
  refine Finset.sum_congr rfl ?_
  intro t ht
  rw [Finset.mem_range] at ht
  rw [leafSelected]
  rw [he] at ht hsize ⊢
  refine foldTableWithBits_eq (b := s.treeBits path) hsize ?_ ht
  intro w hw k hk
  exact pathBits_asU32 hs hpath (by rw [he]; exact hw) hk

private theorem signPathBits_eq {v : ℕ} (hv : v < s.vtPadded) :
    signPathBits s vals v = bitValue (path (signPlace s v)) := by
  have hlt := signPlace_lt hs v
  rw [signPathBits, routed_eq (vtPadded_le hs) two_pow_vtNv.ge _ hv,
    asU32_of_lt (hlt.trans_le (pbCount_le hs)), hpath _ hlt]

end Nodes

private theorem featureTable_eq {s : CircuitShape} (hs : FitsGates s) {vals : CircuitValues F}
    {idx : ℕ} (hidx : idx < s.vtPadded * 2 ^ s.maxDepth) :
    featureTable s vals idx = vals.features (s.featureIndicesPadded.getD idx 0) := by
  have hlength := hs.indices
  have htables := hs.tables
  have hget : s.featureIndicesPadded[idx]? = some (s.featureIndicesPadded.get ⟨idx, by omega⟩) :=
    List.getElem?_eq_getElem _
  have hpow : 2 ^ s.threshTableNv = s.vtPadded * 2 ^ s.maxDepth := by
    rw [CircuitShape.threshTableNv, Nat.pow_add, two_pow_vtNv]
  rw [featureTable, List.take_of_length_le (by rw [List.length_zipIdx]; omega)]
  have hfeature := hs.features _ (List.mem_of_getElem? hget)
  have hdefault : s.featureIndicesPadded.getD idx 0 = s.featureIndicesPadded.get ⟨idx, by omega⟩ := by
    rw [List.getD_eq_getElem?_getD, hget, Option.getD_some]
  have hmem : (idx, s.featureIndicesPadded.getD idx 0) ∈
      s.featureIndicesPadded.zipIdx.map fun p => (asU32 p.2, asU32 p.1) := by
    refine List.mem_map.mpr ⟨(s.featureIndicesPadded.getD idx 0, idx), ?_, ?_⟩
    · rw [List.mem_zipIdx_iff_getElem?, hget, hdefault]
    · rw [asU32_of_lt (by omega), asU32_of_lt (by rw [hdefault]; exact hfeature)]
  refine identityGate_of_mem ?_ hmem (by rw [hpow]; exact hidx)
  have htargets : (s.featureIndicesPadded.zipIdx.map fun p => (asU32 p.2, asU32 p.1)).map Prod.fst =
      (List.range s.featureIndicesPadded.length).map asU32 := by
    rw [List.map_map, List.range_eq_range', ← List.zipIdx_map_snd 0, List.map_map]
    rfl
  rw [htargets]
  refine List.Nodup.map_on ?_ List.nodup_range
  intro a ha c hc hac
  rw [List.mem_range] at ha hc
  rwa [asU32_of_lt (by omega), asU32_of_lt (by omega)] at hac

section Digits

variable {s : CircuitShape} (hs : FitsGates s) {vals : CircuitValues F} {v : ℕ}
  (hv : v < s.vtPadded)

include hs hv

omit hs in
private theorem place_lt_decompTotal {i : ℕ} (hi : i < s.decompK) :
    v * s.decompK + i < s.decompTotal := rowPlace_lt hv hi

private theorem bitRouted_eq {i : ℕ} (hi : i < s.decompK) :
    bitRouted s vals i v = vals.decompBits (v * s.decompK + i) := by
  have hlt := place_lt_decompTotal hv hi
  have hchecks := hs.checks
  rw [CircuitShape.totalChecks] at hchecks
  rw [bitRouted, routed_eq (vtPadded_le hs) two_pow_vtNv.ge _ hv, asU32_of_lt (by omega)]

private theorem weightedSum_eq {digits : ℕ → Bool}
    (hdigits : ∀ i < s.decompK, vals.decompBits (v * s.decompK + i) = bitValue (digits i)) :
    weightedSum s vals v = (suffixValue digits s.decompK : F) := by
  rw [weightedSum, foldl_range_add, zero_add]
  refine bitsSum_eq ?_
  intro i hi
  rw [bitRouted_eq hs hv hi, hdigits i hi]

end Digits

theorem exists_bits [IsDomain F] {values : ℕ → F} {count : ℕ}
    (h : ∀ i < count, binaryCheck values i = 0) :
    ∃ bits : ℕ → Bool, ∀ i < count, values i = bitValue (bits i) := by
  classical
  refine ⟨fun i => decide (values i = 1), ?_⟩
  intro i hi
  have hbit : values i * (values i - 1) = 0 := by
    rw [mul_sub, mul_one]
    exact h i hi
  rcases mul_eq_zero.mp hbit with hzero | hone
  · simp [hzero, bitValue]
  · simp [sub_eq_zero.mp hone, bitValue]

theorem binaryCheck_bitValue {values : ℕ → F} {i : ℕ} {b : Bool}
    (h : values i = bitValue b) : binaryCheck values i = 0 := by
  rw [binaryCheck, h]
  cases b <;> simp [bitValue]

theorem allZero_iff_passes [IsDomain F] {s : CircuitShape} (hs : FitsGates s)
    {vals : CircuitValues F} : AllZero s vals ↔ ∃ path digits, Passes s vals path digits := by
  have hK := hs.decompK
  rw [allZero_iff hs]
  constructor
  · rintro ⟨hsum, hpath, hdecomp, hrecon, hsign⟩
    obtain ⟨path, hpath⟩ := exists_bits hpath
    obtain ⟨flat, hflat⟩ := exists_bits hdecomp
    have hdigits : ∀ v < s.vtPadded, ∀ i < s.decompK,
        vals.decompBits (v * s.decompK + i) = bitValue (flat (v * s.decompK + i)) :=
      fun v hv i hi => hflat _ (place_lt_decompTotal hv hi)
    refine ⟨path, fun v i => flat (v * s.decompK + i), hpath, hdigits, ?_, ?_, ?_⟩
    · rw [sumResidual_eq hs hpath, sub_eq_zero] at hsum
      exact hsum
    · intro v hv
      have := hrecon v hv
      rwa [maskedRecon, shiftedDiff, weightedSum_eq hs hv (hdigits v hv),
        selected_eq hs hpath _ hv, selected_eq hs hpath _ hv, selected_eq hs hpath _ hv,
        featureTable_eq hs (selectedPlace_lt hv _)] at this
    · intro v hv
      have := hsign v hv
      rwa [maskedSign, bitRouted_eq hs hv (by omega), hdigits v hv _ (by omega),
        signPathBits_eq hs hpath hv, selected_eq hs hpath _ hv] at this
  · rintro ⟨path, digits, hpath, hdigits, hsum, hrecon, hsign⟩
    refine ⟨?_, ?_, ?_, ?_, ?_⟩
    · rw [sumResidual_eq hs hpath, sub_eq_zero]
      exact hsum
    · exact fun i hi => binaryCheck_bitValue (hpath i hi)
    · intro i hi
      have hv : i / s.decompK < s.vtPadded := by
        rw [Nat.div_lt_iff_lt_mul hK]
        exact hi
      have hbit := hdigits _ hv _ (Nat.mod_lt i hK)
      rw [Nat.mul_comm, Nat.div_add_mod] at hbit
      exact binaryCheck_bitValue hbit
    · intro v hv
      rw [maskedRecon, shiftedDiff, weightedSum_eq hs hv (hdigits v hv),
        selected_eq hs hpath _ hv, selected_eq hs hpath _ hv, selected_eq hs hpath _ hv,
        featureTable_eq hs (selectedPlace_lt hv _)]
      exact hrecon v hv
    · intro v hv
      rw [maskedSign, bitRouted_eq hs hv (by omega), hdigits v hv _ (by omega),
        signPathBits_eq hs hpath hv, selected_eq hs hpath _ hv]
      exact hsign v hv

end Values

end WorldZk.InferenceCircuit
