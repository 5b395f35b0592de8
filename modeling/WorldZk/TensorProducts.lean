import Mathlib.Algebra.BigOperators.Group.Finset.Sigma
import Mathlib.Algebra.BigOperators.Ring.Finset
import Mathlib.Algebra.BigOperators.Ring.List
import Mathlib.Algebra.Field.Basic
import Mathlib.Data.List.Forall2
import Mathlib.Tactic.Ring

/-!
# Tensors of points and inner products

The tensor of a point has an entry for every vertex of the hypercube: the product of the
coordinates at the ones of the vertex and of their complements at its zeros, the first coordinate
for the most significant bit. Lists of values are weighed with it by the inner product.
-/

namespace WorldZk.TensorProducts

section Dot

variable {R : Type} [CommSemiring R]

def dot (as bs : List R) : R := (as.zipWith (· * ·) bs).sum

@[simp] theorem dot_nil_left (bs : List R) : dot [] bs = 0 := rfl

@[simp] theorem dot_cons (a b : R) (as bs : List R) :
    dot (a :: as) (b :: bs) = a * b + dot as bs := by
  rw [dot, List.zipWith_cons_cons, List.sum_cons, dot]

theorem dot_append {as bs : List R} (h : as.length = bs.length) (as' bs' : List R) :
    dot (as ++ as') (bs ++ bs') = dot as bs + dot as' bs' := by
  rw [dot, List.zipWith_append h, List.sum_append, dot, dot]

theorem dot_append_right {as bs : List R} (h : as.length ≤ bs.length) (cs : List R) :
    dot as (bs ++ cs) = dot as bs := by
  induction as generalizing bs with
  | nil => rfl
  | cons a as ih =>
    cases bs with
    | nil => simp at h
    | cons b bs =>
      rw [List.cons_append, dot_cons, dot_cons, ih (by simpa using h)]

end Dot

section Factors

variable {R : Type} [CommSemiring R]

/-- The tensor of pairs of factors: the first factor of a pair for a zero, the second for a
one. -/
def factorTensor : List (R × R) → List R
  | [] => [1]
  | f :: fs => (factorTensor fs).map (fun t => t * f.1) ++ (factorTensor fs).map (fun t => t * f.2)

/-- The weight of the vertex with number `w`. -/
def factorWeight : List (R × R) → ℕ → R
  | [], _ => 1
  | f :: fs, w => (if w / 2 ^ fs.length % 2 = 1 then f.2 else f.1) * factorWeight fs w

@[simp] theorem length_factorTensor (fs : List (R × R)) :
    (factorTensor fs).length = 2 ^ fs.length := by
  induction fs with
  | nil => rfl
  | cons f fs ih =>
    rw [factorTensor, List.length_append, List.length_map, List.length_map, ih, List.length_cons,
      pow_succ]
    omega

theorem factorWeight_add_mul (fs : List (R × R)) (w k : ℕ) :
    factorWeight fs (w + 2 ^ fs.length * k) = factorWeight fs w := by
  induction fs generalizing k with
  | nil => rfl
  | cons f fs ih =>
    have hshift : w + 2 ^ (f :: fs).length * k = w + 2 ^ fs.length * (2 * k) := by
      rw [List.length_cons, pow_succ]
      ring
    have hbit : (w + 2 ^ fs.length * (2 * k)) / 2 ^ fs.length % 2 = w / 2 ^ fs.length % 2 := by
      rw [Nat.add_mul_div_left _ _ (Nat.two_pow_pos _)]
      omega
    rw [hshift, factorWeight, hbit, ih, factorWeight]

theorem factorTensor_eq_map_weight (fs : List (R × R)) :
    factorTensor fs = (List.range (2 ^ fs.length)).map (factorWeight fs) := by
  induction fs with
  | nil => rfl
  | cons f fs ih =>
    have hpow : 2 ^ (f :: fs).length = 2 ^ fs.length + 2 ^ fs.length := by
      rw [List.length_cons, pow_succ]
      omega
    have hpos := Nat.two_pow_pos fs.length
    rw [factorTensor, ih, List.map_map, List.map_map, hpow, List.range_add, List.map_append,
      List.map_map]
    congr 1
    · apply List.map_congr_left
      intro w hw
      have hbit : w / 2 ^ fs.length = 0 := Nat.div_eq_of_lt (List.mem_range.mp hw)
      simp only [Function.comp_apply, factorWeight, hbit, Nat.zero_mod, zero_ne_one, if_false]
      exact mul_comm _ _
    · apply List.map_congr_left
      intro w hw
      have hbit : (2 ^ fs.length + w) / 2 ^ fs.length = 1 := by
        rw [Nat.add_div_left _ hpos, Nat.div_eq_of_lt (List.mem_range.mp hw)]
      have hlow : factorWeight fs (2 ^ fs.length + w) = factorWeight fs w := by
        have hadd := factorWeight_add_mul fs w 1
        rwa [mul_one, Nat.add_comm] at hadd
      simp only [Function.comp_apply, factorWeight, hbit, hlow, Nat.one_mod, if_true]
      exact mul_comm _ _

/-- The bits of a number above the last pairs weigh the first pairs, the others the last. -/
theorem factorWeight_append (ls rs : List (R × R)) (i : ℕ) {j : ℕ} (hj : j < 2 ^ rs.length) :
    factorWeight (ls ++ rs) (i * 2 ^ rs.length + j) = factorWeight ls i * factorWeight rs j := by
  induction ls with
  | nil =>
    rw [List.nil_append, factorWeight, one_mul, Nat.add_comm, Nat.mul_comm, factorWeight_add_mul]
  | cons f ls ih =>
    have hbit : (i * 2 ^ rs.length + j) / 2 ^ (ls ++ rs).length = i / 2 ^ ls.length := by
      rw [List.length_append, Nat.add_comm ls.length, pow_add, ← Nat.div_div_eq_div_mul,
        Nat.add_comm, Nat.add_mul_div_right _ _ (Nat.two_pow_pos _), Nat.div_eq_of_lt hj,
        Nat.zero_add]
    rw [List.cons_append, factorWeight, hbit, ih, factorWeight, mul_assoc]

/-- The rows of a matrix, given row by row, combined with weights. -/
def combinedRow (data ls : List R) (columns j : ℕ) : R :=
  dot ((List.range ls.length).map fun i => data.getD (i * columns + j) 0) ls

theorem dot_map_range (f g : ℕ → R) (n : ℕ) :
    dot ((List.range n).map f) ((List.range n).map g) = ∑ w ∈ Finset.range n, f w * g w := by
  induction n with
  | zero => rfl
  | succ n ih =>
    rw [List.range_succ, List.map_append, List.map_append, dot_append (by simp), ih,
      Finset.sum_range_succ, List.map_singleton, List.map_singleton, dot_cons,
      dot_nil_left, add_zero]

theorem sum_range_mul (h : ℕ → R) (rows columns : ℕ) :
    ∑ w ∈ Finset.range (rows * columns), h w =
      ∑ i ∈ Finset.range rows, ∑ j ∈ Finset.range columns, h (i * columns + j) := by
  induction rows with
  | zero => simp
  | succ rows ih => rw [Nat.succ_mul, Finset.sum_range_add, ih, Finset.sum_range_succ]

/-- A value at all pairs is the value at the last pairs of the rows combined at the first. -/
theorem dot_factorTensor_append (data : List R) (ls rs : List (R × R))
    (hdata : data.length = 2 ^ (ls ++ rs).length) :
    dot data (factorTensor (ls ++ rs)) =
      dot ((List.range (2 ^ rs.length)).map (combinedRow data (factorTensor ls) (2 ^ rs.length)))
        (factorTensor rs) := by
  have hrange : data = (List.range (2 ^ (ls ++ rs).length)).map (data.getD · 0) := by
    refine List.ext_getElem (by simp [hdata]) fun w hw _ => ?_
    simp [hw]
  have hrow (j : ℕ) : combinedRow data (factorTensor ls) (2 ^ rs.length) j =
      ∑ i ∈ Finset.range (2 ^ ls.length),
        data.getD (i * 2 ^ rs.length + j) 0 * factorWeight ls i := by
    rw [combinedRow, length_factorTensor, factorTensor_eq_map_weight, dot_map_range]
  nth_rewrite 1 [hrange]
  rw [factorTensor_eq_map_weight, dot_map_range, List.length_append, pow_add, sum_range_mul,
    Finset.sum_comm, factorTensor_eq_map_weight rs, dot_map_range]
  refine Finset.sum_congr rfl fun j hj => ?_
  rw [hrow, Finset.sum_mul]
  refine Finset.sum_congr rfl fun i _ => ?_
  rw [factorWeight_append ls rs i (Finset.mem_range.mp hj), mul_assoc]

end Factors

end WorldZk.TensorProducts
