import Mathlib.Algebra.BigOperators.Intervals
import Mathlib.Algebra.BigOperators.Ring.Finset
import Mathlib.Data.Nat.Bits
import Mathlib.Data.List.Nodup
import Mathlib.Tactic.Ring

/-!
# Wirings and tables

Layers of values, indexed from zero, and the gates that route values from one layer to the next: a
gate `(z, x)` adds the value at `x` to the result at `z`. Beside them stand the numbers that a list
of bits spells, the halving of a table by such bits, and sums.
-/

namespace WorldZk.GateWirings

/-! ## Identity gates -/

section Gates

variable {F : Type} [AddCommMonoid F] {gates : List (ℕ × ℕ)} {numVars z x : ℕ} {source : ℕ → F}

/-- The layer of `2 ^ numVars` values that the gates route from a source. -/
def identityGate (gates : List (ℕ × ℕ)) (numVars : ℕ) (source : ℕ → F) (z : ℕ) : F :=
  if z < 2 ^ numVars then ((gates.filter fun g => g.1 = z).map fun g => source g.2).sum else 0

theorem identityGate_of_forall_eq_zero (h : ∀ g ∈ gates, source g.2 = 0) :
    identityGate gates numVars source z = 0 := by
  rw [identityGate]
  split
  · refine List.sum_eq_zero ?_
    intro value hvalue
    obtain ⟨g, hg, rfl⟩ := List.mem_map.mp hvalue
    exact h g (List.mem_filter.mp hg).1
  · rfl

theorem identityGate_of_notMem (h : z ∉ gates.map Prod.fst) :
    identityGate gates numVars source z = 0 := by
  have hfilter : gates.filter (fun g => g.1 = z) = [] := by
    rw [List.filter_eq_nil_iff]
    intro g hg hz
    rw [decide_eq_true_eq] at hz
    exact h (List.mem_map.mpr ⟨g, hg, hz⟩)
  rw [identityGate, hfilter]
  split <;> rfl

private theorem filter_fst_eq (hnodup : (gates.map Prod.fst).Nodup) (hmem : (z, x) ∈ gates) :
    gates.filter (fun g => g.1 = z) = [(z, x)] := by
  induction gates with
  | nil => cases hmem
  | cons g gates ih =>
    rw [List.map_cons, List.nodup_cons] at hnodup
    rcases List.mem_cons.mp hmem with rfl | hmem
    · have hrest : gates.filter (fun g => g.1 = z) = [] := by
        rw [List.filter_eq_nil_iff]
        intro g hg hz
        rw [decide_eq_true_eq] at hz
        exact hnodup.1 (List.mem_map.mpr ⟨g, hg, hz⟩)
      rw [List.filter_cons_of_pos (by simp), hrest]
    · have hne : g.1 ≠ z := by
        rintro rfl
        exact hnodup.1 (List.mem_map.mpr ⟨_, hmem, rfl⟩)
      rw [List.filter_cons_of_neg (by simpa using hne), ih hnodup.2 hmem]

theorem identityGate_of_mem (hnodup : (gates.map Prod.fst).Nodup) (hmem : (z, x) ∈ gates)
    (hz : z < 2 ^ numVars) : identityGate gates numVars source z = source x := by
  rw [identityGate, if_pos hz, filter_fst_eq hnodup hmem]
  exact List.sum_singleton

/-- The gates of a loop. -/
def rowGates (count : ℕ) (target place : ℕ → ℕ) : List (ℕ × ℕ) :=
  (List.range count).map fun i => (target i, place i)

/-- The gates of two nested loops. -/
def gridGates (rows columns : ℕ) (target place : ℕ → ℕ → ℕ) : List (ℕ × ℕ) :=
  (List.range rows).flatMap fun v => (List.range columns).map fun i => (target v i, place v i)

theorem identityGate_rowGates {count : ℕ} {target place : ℕ → ℕ}
    (hinj : ∀ i < count, ∀ j < count, target i = target j → i = j) {i : ℕ} (hi : i < count)
    (hz : target i < 2 ^ numVars) :
    identityGate (rowGates count target place) numVars source (target i) = source (place i) := by
  refine identityGate_of_mem ?_ ?_ hz
  · rw [rowGates, List.map_map]
    refine List.Nodup.map_on ?_ List.nodup_range
    intro a ha c hc hac
    exact hinj a (List.mem_range.mp ha) c (List.mem_range.mp hc) hac
  · exact List.mem_map.mpr ⟨i, List.mem_range.mpr hi, rfl⟩

theorem identityGate_rowGates_of_notMem {count : ℕ} {target place : ℕ → ℕ}
    (h : ∀ i < count, target i ≠ z) :
    identityGate (rowGates count target place) numVars source z = 0 := by
  refine identityGate_of_notMem ?_
  rw [rowGates, List.map_map]
  intro hmem
  obtain ⟨i, hi, hz⟩ := List.mem_map.mp hmem
  exact h i (List.mem_range.mp hi) hz

theorem rowPlace_lt {rows columns v i : ℕ} (hv : v < rows) (hi : i < columns) :
    v * columns + i < rows * columns :=
  calc v * columns + i < v * columns + columns := by omega
    _ = (v + 1) * columns := by ring
    _ ≤ rows * columns := Nat.mul_le_mul_right _ hv

private theorem flatMap_range_grid (rows columns : ℕ) :
    (List.range rows).flatMap (fun v => (List.range columns).map fun i => v * columns + i) =
      List.range (rows * columns) := by
  induction rows with
  | zero => rw [Nat.zero_mul]; rfl
  | succ rows ih =>
    rw [List.range_succ, List.flatMap_append, ih, Nat.succ_mul, List.range_add,
      List.flatMap_singleton]

/-- Gates whose targets run through the layer row by row copy their sources. -/
theorem identityGate_gridGates {rows columns : ℕ} {target place : ℕ → ℕ → ℕ}
    (htarget : ∀ v < rows, ∀ i < columns, target v i = v * columns + i) {v i : ℕ} (hv : v < rows)
    (hi : i < columns) (hz : v * columns + i < 2 ^ numVars) :
    identityGate (gridGates rows columns target place) numVars source (v * columns + i) =
      source (place v i) := by
  refine identityGate_of_mem ?_ ?_ hz
  · have htargets : (gridGates rows columns target place).map Prod.fst =
        List.range (rows * columns) := by
      rw [gridGates, List.map_flatMap, ← flatMap_range_grid]
      refine List.flatMap_congr ?_
      intro v hv
      rw [List.map_map]
      refine List.map_congr_left ?_
      intro i hi
      exact htarget v (List.mem_range.mp hv) i (List.mem_range.mp hi)
    rw [htargets]
    exact List.nodup_range
  · rw [gridGates, List.mem_flatMap]
    refine ⟨v, List.mem_range.mpr hv, List.mem_map.mpr ⟨i, List.mem_range.mpr hi, ?_⟩⟩
    rw [htarget v hv i hi]

end Gates

/-! ## Numbers spelled by bits -/

section Bits

/-- The number that the first `k` bits spell, the first one at the top. -/
def prefixValue (bits : ℕ → Bool) : ℕ → ℕ
  | 0 => 0
  | k + 1 => Nat.bit (bits k) (prefixValue bits k)

theorem prefixValue_lt (bits : ℕ → Bool) (k : ℕ) : prefixValue bits k < 2 ^ k := by
  induction k with
  | zero => exact Nat.one_pos
  | succ k ih =>
    rw [prefixValue, Nat.bit_val, Nat.pow_succ]
    cases bits k <;> simp only [Bool.toNat_false, Bool.toNat_true] <;> omega

theorem testBit_prefixValue (bits : ℕ → Bool) {k i : ℕ} (hi : i < k) :
    (prefixValue bits k).testBit (k - 1 - i) = bits i := by
  induction k with
  | zero => omega
  | succ k ih =>
    rcases Nat.lt_or_ge i k with hlt | hge
    · have hplace : k + 1 - 1 - i = (k - 1 - i) + 1 := by omega
      rw [prefixValue, hplace, Nat.testBit_bit_succ, ih hlt]
    · obtain rfl : i = k := by omega
      have hplace : i + 1 - 1 - i = 0 := by omega
      rw [prefixValue, hplace, Nat.testBit_bit_zero]

theorem prefixValue_testBit {n k : ℕ} (hn : n < 2 ^ k) :
    prefixValue (fun i => n.testBit (k - 1 - i)) k = n := by
  refine Nat.eq_of_testBit_eq ?_
  intro j
  rcases Nat.lt_or_ge j k with hlt | hge
  · have h := testBit_prefixValue (fun i => n.testBit (k - 1 - i)) (show k - 1 - j < k by omega)
    rwa [show k - 1 - (k - 1 - j) = j by omega] at h
  · have hpow : 2 ^ k ≤ 2 ^ j := Nat.pow_le_pow_right (by decide) hge
    rw [Nat.testBit_lt_two_pow (hn.trans_le hpow),
      Nat.testBit_lt_two_pow ((prefixValue_lt _ k).trans_le hpow)]

theorem prefixValue_succ_eq (bits : ℕ → Bool) (k : ℕ) :
    prefixValue bits (k + 1) = (bits 0).toNat * 2 ^ k + prefixValue (fun i => bits (i + 1)) k := by
  induction k with
  | zero =>
    rw [prefixValue, prefixValue, prefixValue, Nat.bit_val]
    omega
  | succ k ih =>
    rw [prefixValue, ih, prefixValue, Nat.bit_val, Nat.bit_val, Nat.pow_succ]
    ring

/-- The number that the first `k` bits spell, the first one at the bottom. -/
def suffixValue (bits : ℕ → Bool) (k : ℕ) : ℕ := ∑ i ∈ Finset.range k, (bits i).toNat * 2 ^ i

theorem suffixValue_succ (bits : ℕ → Bool) (k : ℕ) :
    suffixValue bits (k + 1) = suffixValue bits k + (bits k).toNat * 2 ^ k :=
  Finset.sum_range_succ _ _

theorem suffixValue_lt (bits : ℕ → Bool) (k : ℕ) : suffixValue bits k < 2 ^ k := by
  induction k with
  | zero => exact Nat.one_pos
  | succ k ih =>
    rw [suffixValue_succ, Nat.pow_succ]
    cases bits k <;> simp only [Bool.toNat_false, Bool.toNat_true] <;> omega

theorem suffixValue_top (bits : ℕ → Bool) (k : ℕ) :
    bits k = true ↔ 2 ^ k ≤ suffixValue bits (k + 1) := by
  have hlt := suffixValue_lt bits k
  rw [suffixValue_succ]
  cases bits k <;> simp only [Bool.toNat_false, Bool.toNat_true, Bool.false_eq_true, false_iff,
    true_iff] <;> omega

theorem suffixValue_testBit {n k : ℕ} (hn : n < 2 ^ k) : suffixValue n.testBit k = n := by
  have hmod : ∀ k, suffixValue n.testBit k = n % 2 ^ k := by
    intro k
    induction k with
    | zero => rw [Nat.pow_zero, Nat.mod_one]; rfl
    | succ k ih =>
      have hbit : (n.testBit k).toNat = n / 2 ^ k % 2 := by
        rw [Nat.testBit_eq_decide_div_mod_eq]
        rcases Nat.mod_two_eq_zero_or_one (n / 2 ^ k) with h | h <;> rw [h] <;> rfl
      rw [suffixValue_succ, ih, hbit, Nat.pow_succ, Nat.mod_mul, Nat.mul_comm]
  rw [hmod, Nat.mod_eq_of_lt hn]

end Bits

/-! ## Sums -/

theorem foldl_range_add {F : Type} [AddCommMonoid F] (f : ℕ → F) (n : ℕ) (acc : F) :
    (List.range n).foldl (fun acc i => acc + f i) acc = acc + ∑ i ∈ Finset.range n, f i := by
  induction n with
  | zero => rw [Finset.sum_range_zero, add_zero]; rfl
  | succ n ih =>
    rw [List.range_succ, List.foldl_append, ih, List.foldl_cons, List.foldl_nil,
      Finset.sum_range_succ, add_assoc]

theorem sum_range_two_mul {F : Type} [AddCommMonoid F] (f : ℕ → F) (n : ℕ) :
    ∑ i ∈ Finset.range (2 * n), f i = ∑ i ∈ Finset.range n, (f (2 * i) + f (2 * i + 1)) := by
  induction n with
  | zero => rfl
  | succ n ih =>
    rw [Nat.mul_succ, Finset.sum_range_succ, Finset.sum_range_succ, ih, Finset.sum_range_succ,
      add_assoc]

/-! ## Blocks and writes -/

section Tables

variable {α : Type}

theorem getElem?_flatten {blocks : List (List α)} {len : ℕ} (h : ∀ b ∈ blocks, b.length = len)
    (i : ℕ) {j : ℕ} (hj : j < len) :
    blocks.flatten[i * len + j]? = blocks[i]?.bind fun b => b[j]? := by
  induction blocks generalizing i with
  | nil => simp
  | cons b blocks ih =>
    have hb := h b List.mem_cons_self
    rw [List.flatten_cons]
    cases i with
    | zero =>
      rw [Nat.zero_mul, Nat.zero_add, List.getElem?_append_left (by omega)]
      rfl
    | succ i =>
      have hplace : (i + 1) * len + j - b.length = i * len + j := by
        rw [hb, Nat.succ_mul]
        omega
      rw [List.getElem?_append_right (by rw [hb, Nat.succ_mul]; omega), hplace,
        ih (fun b hb => h b (List.mem_cons_of_mem _ hb)) i]
      rfl

/-- The writes of a loop into a table. -/
def writeAll (writes : List (ℕ × α)) (table : List α) : List α :=
  writes.foldl (fun table w => table.set w.1 w.2) table

theorem length_writeAll (writes : List (ℕ × α)) (table : List α) :
    (writeAll writes table).length = table.length := by
  rw [writeAll]
  induction writes generalizing table with
  | nil => rfl
  | cons w writes ih => rw [List.foldl_cons, ih, List.length_set]

theorem getElem?_writeAll_of_notMem {writes : List (ℕ × α)} {i : ℕ}
    (h : i ∉ writes.map Prod.fst) (table : List α) : (writeAll writes table)[i]? = table[i]? := by
  rw [writeAll]
  induction writes generalizing table with
  | nil => rfl
  | cons w writes ih =>
    rw [List.map_cons, List.mem_cons, not_or] at h
    rw [List.foldl_cons, ih h.2, List.getElem?_set_ne (Ne.symm h.1)]

theorem mem_writeAll {writes : List (ℕ × α)} {table : List α} {a : α}
    (h : a ∈ writeAll writes table) : a ∈ table ∨ a ∈ writes.map Prod.snd := by
  rw [writeAll] at h
  induction writes generalizing table with
  | nil => exact .inl h
  | cons w writes ih =>
    rw [List.foldl_cons] at h
    rw [List.map_cons, List.mem_cons]
    rcases ih h with hset | hwrites
    · rcases List.mem_or_eq_of_mem_set hset with htable | rfl
      · exact .inl htable
      · exact .inr (.inl rfl)
    · exact .inr (.inr hwrites)

theorem getElem?_writeAll_of_mem {writes : List (ℕ × α)} {i : ℕ} {a : α} {table : List α}
    (hnodup : (writes.map Prod.fst).Nodup) (hmem : (i, a) ∈ writes) (hi : i < table.length) :
    (writeAll writes table)[i]? = some a := by
  induction writes generalizing table with
  | nil => cases hmem
  | cons w writes ih =>
    rw [List.map_cons, List.nodup_cons] at hnodup
    rcases List.mem_cons.mp hmem with rfl | hmem
    · have hrest := getElem?_writeAll_of_notMem hnodup.1 (table.set i a)
      rw [writeAll, List.foldl_cons]
      rw [writeAll] at hrest
      rw [hrest, List.getElem?_set_self hi]
    · exact ih hnodup.2 hmem (by rwa [List.length_set])

end Tables

end WorldZk.GateWirings
