import WorldZk.PedersenCommitments
import Mathlib.Algebra.Polynomial.Roots
import Mathlib.Data.Set.Card
import Mathlib.LinearAlgebra.Dual.Lemmas

/-!
# Equations batched with the powers of a challenge

Equations between vectors are checked together: their differences are added up with the powers of
one challenge as coefficients. A functional that does not vanish on one of the differences makes the
sum a polynomial in the challenge that is not zero, so few challenges hide a wrong equation. A
second batch may go on with the powers after those of the first.
-/

namespace WorldZk.BatchedEquations

open Polynomial PedersenCommitments

variable {F : Type} [Field F] {V : Type*} [AddCommGroup V] [Module F V]

theorem combine_map_range (es : List V) (f : ℕ → F) (n : ℕ) :
    combine es ((List.range n).map f) = ∑ i ∈ Finset.range n, f i • es.getD i 0 := by
  induction n with
  | zero => rfl
  | succ n ih =>
    have hlast : combine (es.drop n) [f n] = f n • es.getD n 0 := by
      cases hdrop : es.drop n with
      | nil =>
        have hle : es.length ≤ n := List.drop_eq_nil_iff.mp hdrop
        rw [List.getD_eq_getElem?_getD, List.getElem?_eq_none hle]
        simp [combine]
      | cons e rest =>
        have hget : es[n]? = some e := by
          rw [← List.head?_drop, hdrop]
          rfl
        rw [List.getD_eq_getElem?_getD, hget, combine_cons, combine_nil, add_zero]
        rfl
    rw [List.range_succ, List.map_append, combine_append_right, ih, List.length_map,
      List.length_range, List.map_singleton, hlast, Finset.sum_range_succ]

section Roots

variable [Finite F]

/-- A sum of wrong equations vanishes for fewer challenges than there are equations. -/
theorem ncard_roots_le (e : ℕ → V) {n : ℕ} (hwrong : ∃ i < n, e i ≠ 0) :
    {c : F | ∑ i ∈ Finset.range n, c ^ i • e i = 0}.ncard ≤ n - 1 := by
  classical
  obtain ⟨k, hk, hne⟩ := hwrong
  obtain ⟨φ, hφ⟩ : ∃ φ : Module.Dual F V, φ (e k) ≠ 0 := by
    rw [← not_forall, Module.forall_dual_apply_eq_zero_iff]
    exact hne
  set p : F[X] := ∑ i ∈ Finset.range n, C (φ (e i)) * X ^ i with hp
  have hcoeff : p.coeff k = φ (e k) := by
    simp [hp, coeff_C_mul, coeff_X_pow, hk]
  have hzero : p ≠ 0 := by
    intro hzero
    rw [hzero, coeff_zero] at hcoeff
    exact hφ hcoeff.symm
  have hdegree : p.natDegree ≤ n - 1 := by
    refine natDegree_sum_le_of_forall_le _ _ fun i hi => ?_
    have hlt := Finset.mem_range.mp hi
    exact (natDegree_C_mul_X_pow_le _ _).trans (by omega)
  -- Under the functional the sum is the value of a polynomial.
  have hsubset : {c : F | ∑ i ∈ Finset.range n, c ^ i • e i = 0} ⊆ ↑p.roots.toFinset := by
    intro c hc
    have hvalue : p.eval c = φ (∑ i ∈ Finset.range n, c ^ i • e i) := by
      rw [hp, eval_finsetSum, map_sum]
      refine Finset.sum_congr rfl fun i _ => ?_
      rw [eval_mul, eval_C, eval_pow, eval_X, map_smul, smul_eq_mul, mul_comm]
    rw [show ∑ i ∈ Finset.range n, c ^ i • e i = 0 from hc, map_zero] at hvalue
    simpa [hzero] using hvalue
  calc {c : F | ∑ i ∈ Finset.range n, c ^ i • e i = 0}.ncard
      ≤ (↑p.roots.toFinset : Set F).ncard := Set.ncard_le_ncard hsubset
    _ = p.roots.toFinset.card := Set.ncard_coe_finset _
    _ ≤ Multiset.card p.roots := Multiset.toFinset_card_le _
    _ ≤ p.natDegree := card_roots' p
    _ ≤ n - 1 := hdegree

/-- With the powers after the first `m` there is one challenge more, zero, if there is a first
one. -/
theorem ncard_shifted_roots_le (e : ℕ → V) (m : ℕ) {n : ℕ} (hwrong : ∃ i < n, e i ≠ 0) :
    {c : F | ∑ i ∈ Finset.range n, c ^ (m + i) • e i = 0}.ncard ≤ m + n - 1 := by
  have hroots := ncard_roots_le (F := F) e hwrong
  have hpos : 0 < n := Exists.elim hwrong fun i hi => (Nat.zero_le i).trans_lt hi.1
  have hshift : ∀ c : F, ∑ i ∈ Finset.range n, c ^ (m + i) • e i =
      c ^ m • ∑ i ∈ Finset.range n, c ^ i • e i := by
    intro c
    rw [Finset.smul_sum]
    exact Finset.sum_congr rfl fun i _ => by rw [pow_add, mul_smul]
  simp only [hshift]
  rcases Nat.eq_zero_or_pos m with rfl | hm
  · simpa using hroots
  · have hsubset : {c : F | c ^ m • ∑ i ∈ Finset.range n, c ^ i • e i = 0} ⊆
        insert 0 {c : F | ∑ i ∈ Finset.range n, c ^ i • e i = 0} := by
      intro c hc
      rcases smul_eq_zero.mp hc with hpow | hsum
      · exact .inl (eq_zero_of_pow_eq_zero hpow)
      · exact .inr hsum
    calc {c : F | c ^ m • ∑ i ∈ Finset.range n, c ^ i • e i = 0}.ncard
        ≤ (insert 0 {c : F | ∑ i ∈ Finset.range n, c ^ i • e i = 0}).ncard :=
          Set.ncard_le_ncard hsubset
      _ ≤ {c : F | ∑ i ∈ Finset.range n, c ^ i • e i = 0}.ncard + 1 := Set.ncard_insert_le _ _
      _ ≤ m + n - 1 := by omega

/-- Two batches with the powers of one challenge, the second one after the first: when an equation
of either is wrong, fewer challenges satisfy both than there are equations. -/
theorem ncard_batches_le (e f : ℕ → V) (m n : ℕ)
    (hwrong : (∃ i < m, e i ≠ 0) ∨ ∃ j < n, f j ≠ 0) :
    {c : F | ∑ i ∈ Finset.range m, c ^ i • e i = 0 ∧
      ∑ j ∈ Finset.range n, c ^ (m + j) • f j = 0}.ncard ≤ m + n - 1 := by
  rcases hwrong with hleft | hright
  · have hsubset : {c : F | ∑ i ∈ Finset.range m, c ^ i • e i = 0 ∧
        ∑ j ∈ Finset.range n, c ^ (m + j) • f j = 0} ⊆
        {c : F | ∑ i ∈ Finset.range m, c ^ i • e i = 0} := fun c hc => hc.1
    have hroots := ncard_roots_le (F := F) e hleft
    exact (Set.ncard_le_ncard hsubset).trans (hroots.trans (by omega))
  · have hsubset : {c : F | ∑ i ∈ Finset.range m, c ^ i • e i = 0 ∧
        ∑ j ∈ Finset.range n, c ^ (m + j) • f j = 0} ⊆
        {c : F | ∑ j ∈ Finset.range n, c ^ (m + j) • f j = 0} := fun c hc => hc.2
    exact (Set.ncard_le_ncard hsubset).trans (ncard_shifted_roots_le f m hright)

end Roots

end WorldZk.BatchedEquations
