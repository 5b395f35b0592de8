import WorldZk.NamedInstances
import WorldZk.PedersenCommitments
import Mathlib.Algebra.BigOperators.Intervals
import Mathlib.Algebra.Polynomial.Eval.Degree

/-!
# Round polynomials of a sumcheck, checked by one inner product

A sumcheck has a polynomial for each round: its values at `0` and `1` add up to the claim before
the round, and its value at the binding is the claim after it. With one weight for each claim, the
checks of all rounds are one linear equation about the coefficients, in which every claim but the
first and the last cancels.
-/

namespace WorldZk.RoundPolynomials

open Polynomial TensorProducts PedersenCommitments
open scoped NamedInstances

variable {F : Type} [Field F]

/-! ## One round -/

/-- The coefficients up to a degree. -/
def coefficients (d : ℕ) (p : F[X]) : List F := (List.range (d + 1)).map p.coeff

/-- The weights of the coefficients in a round: `rho` for the claim before it, `rho'` for the one
after it. -/
def roundWeights (d : ℕ) (gamma rho rho' binding : F) : List F :=
  (List.range (d + 1)).map fun k =>
    gamma⁻¹ * (rho * (if k = 0 then 2 else 1) - rho' * binding ^ k)

@[simp] theorem length_coefficients (d : ℕ) (p : F[X]) : (coefficients d p).length = d + 1 := by
  simp [coefficients]

@[simp] theorem length_roundWeights (d : ℕ) (gamma rho rho' binding : F) :
    (roundWeights d gamma rho rho' binding).length = d + 1 := by
  simp [roundWeights]

theorem dot_map_range (n : ℕ) (f g : ℕ → F) :
    dot ((List.range n).map f) ((List.range n).map g) = ∑ i ∈ Finset.range n, f i * g i := by
  induction n with
  | zero => rfl
  | succ n ih =>
    rw [List.range_succ, List.map_append, List.map_append, dot_append (by simp), ih,
      Finset.sum_range_succ, List.map_singleton, List.map_singleton, dot_cons, dot_nil_left,
      add_zero]

theorem dot_roundWeights {d : ℕ} {p : F[X]} (hp : p.natDegree ≤ d) {gamma : F} (hgamma : gamma ≠ 0)
    (rho rho' binding : F) :
    dot ((coefficients d p).map (gamma * ·)) (roundWeights d gamma rho rho' binding) =
      rho * (p.eval 0 + p.eval 1) - rho' * p.eval binding := by
  have hlt : p.natDegree < d + 1 := Nat.lt_succ_of_le hp
  have hends : p.eval 0 + p.eval 1 =
      ∑ k ∈ Finset.range (d + 1), p.coeff k * (if k = 0 then 2 else 1) := by
    rw [eval_eq_sum_range' hlt 0, eval_eq_sum_range' hlt 1, ← Finset.sum_add_distrib]
    refine Finset.sum_congr rfl fun k _ => ?_
    split
    case isTrue hk =>
      rw [hk]
      ring
    case isFalse hk =>
      rw [zero_pow hk]
      ring
  rw [coefficients, List.map_map, roundWeights, dot_map_range, hends,
    eval_eq_sum_range' hlt binding, Finset.mul_sum, Finset.mul_sum, ← Finset.sum_sub_distrib]
  refine Finset.sum_congr rfl fun k _ => ?_
  rw [Function.comp_apply]
  field_simp

/-! ## All rounds -/

/-- The scaled coefficients of all rounds. -/
def stacked (d : ℕ) (gamma : ℕ → F) (p : ℕ → F[X]) (n : ℕ) : List F :=
  (List.range n).flatMap fun i => (coefficients d (p i)).map (gamma i * ·)

/-- Their weights. -/
def weights (d : ℕ) (gamma rho binding : ℕ → F) (n : ℕ) : List F :=
  (List.range n).flatMap fun i => roundWeights d (gamma i) (rho i) (rho (i + 1)) (binding i)

theorem stacked_succ (d : ℕ) (gamma : ℕ → F) (p : ℕ → F[X]) (n : ℕ) :
    stacked d gamma p (n + 1) =
      stacked d gamma p n ++ (coefficients d (p n)).map (gamma n * ·) := by
  simp [stacked, List.range_succ]

theorem weights_succ (d : ℕ) (gamma rho binding : ℕ → F) (n : ℕ) :
    weights d gamma rho binding (n + 1) =
      weights d gamma rho binding n ++
        roundWeights d (gamma n) (rho n) (rho (n + 1)) (binding n) := by
  simp [weights, List.range_succ]

@[simp] theorem length_stacked (d : ℕ) (gamma : ℕ → F) (p : ℕ → F[X]) (n : ℕ) :
    (stacked d gamma p n).length = n * (d + 1) := by
  simp [stacked]

@[simp] theorem length_weights (d : ℕ) (gamma rho binding : ℕ → F) (n : ℕ) :
    (weights d gamma rho binding n).length = n * (d + 1) := by
  simp [weights]

/-- The rounds lead from the claimed sum to the final value. -/
def ValidSumcheck (p : ℕ → F[X]) (binding : ℕ → F) (n : ℕ) (claimedSum finalValue : F) : Prop :=
  ∃ claim : ℕ → F, claim 0 = claimedSum ∧ claim n = finalValue ∧
    ∀ i < n, (p i).eval 0 + (p i).eval 1 = claim i ∧ (p i).eval (binding i) = claim (i + 1)

theorem dot_stacked_eq_sum {d n : ℕ} {gamma : ℕ → F} {p : ℕ → F[X]} (rho binding : ℕ → F)
    (hgamma : ∀ i < n, gamma i ≠ 0) (hdegree : ∀ i < n, (p i).natDegree ≤ d) :
    dot (stacked d gamma p n) (weights d gamma rho binding n) =
      ∑ i ∈ Finset.range n,
        (rho i * ((p i).eval 0 + (p i).eval 1) - rho (i + 1) * (p i).eval (binding i)) := by
  induction n with
  | zero => rfl
  | succ n ih =>
    rw [stacked_succ, weights_succ, dot_append (by simp),
      ih (fun i hi => hgamma i (hi.trans (Nat.lt_succ_self n)))
        (fun i hi => hdegree i (hi.trans (Nat.lt_succ_self n))),
      dot_roundWeights (hdegree n (Nat.lt_succ_self n)) (hgamma n (Nat.lt_succ_self n)),
      Finset.sum_range_succ]

/-- The claims between the rounds cancel. -/
theorem dot_stacked_weights {d n : ℕ} {gamma : ℕ → F} {p : ℕ → F[X]} (rho : ℕ → F)
    {binding : ℕ → F} {claimedSum finalValue : F} (hgamma : ∀ i < n, gamma i ≠ 0)
    (hdegree : ∀ i < n, (p i).natDegree ≤ d)
    (hvalid : ValidSumcheck p binding n claimedSum finalValue) :
    dot (stacked d gamma p n) (weights d gamma rho binding n) =
      rho 0 * claimedSum - rho n * finalValue := by
  obtain ⟨claim, rfl, rfl, hrounds⟩ := hvalid
  rw [dot_stacked_eq_sum rho binding hgamma hdegree,
    ← Finset.sum_range_sub' (fun i => rho i * claim i) n]
  refine Finset.sum_congr rfl fun i hi => ?_
  obtain ⟨hends, hbinding⟩ := hrounds i (Finset.mem_range.mp hi)
  rw [hends, hbinding]

/-! ## Commitments to the rounds -/

section Commitments

variable {G : Type*} [AddCommGroup G] [Module F G]

theorem combine_map_mul (gs : List G) (a : F) (xs : List F) :
    combine gs (xs.map (a * ·)) = a • combine gs xs := by
  induction xs generalizing gs with
  | nil => simp
  | cons x xs ih =>
    cases gs with
    | nil => simp [combine]
    | cons g gs => rw [List.map_cons, combine_cons, ih, combine_cons, smul_add, mul_smul]

/-- The commitment to a round: every round has its own block of generators. -/
def roundCommitment (gs : List G) (h : G) (d : ℕ) (p : ℕ → F[X]) (blind : ℕ → F) (i : ℕ) : G :=
  commitVector (gs.drop (i * (d + 1))) h (coefficients d (p i)) (blind i)

/-- The combination of the round commitments commits to the scaled coefficients of all rounds. -/
theorem combine_roundCommitments (gs : List G) (h : G) (d : ℕ) (p : ℕ → F[X]) (gamma blind : ℕ → F)
    (n : ℕ) :
    combine ((List.range n).map (roundCommitment gs h d p blind)) ((List.range n).map gamma) =
      commitVector gs h (stacked d gamma p n) (dot ((List.range n).map gamma)
        ((List.range n).map blind)) := by
  induction n with
  | zero => simp [commitVector, stacked]
  | succ n ih =>
    rw [List.range_succ, List.map_append, List.map_append, List.map_append,
      combine_append (by simp), ih, dot_append (by simp), stacked_succ, commitVector, commitVector,
      combine_append_right, length_stacked, combine_map_mul]
    simp only [List.map_singleton, combine_cons, combine_nil, dot_cons, dot_nil_left,
      roundCommitment, commitVector]
    module

end Commitments

end WorldZk.RoundPolynomials
