import Mathlib.Algebra.BigOperators.Intervals
import Mathlib.Order.Interval.Finset.Nat

/-!
# Selection by running sums

Every element of a list owns as many consecutive residues as it weighs. The scan that stops at the
first running sum above a residue returns the owner of the residue.
-/

namespace WorldZk.CumulativeSelection

variable {α : Type*} {w : α → ℕ} {as : List α} {r start : ℕ}

/-- The element at which the running sum, which begins at `start`, first passes `r`. -/
def pick (w : α → ℕ) (r : ℕ) : List α → ℕ → Option α
  | [], _ => none
  | a :: as, start => if r < start + w a then some a else pick w r as (start + w a)

/-- Nothing below the last running sum is left without an owner. -/
theorem exists_pick (hstart : start ≤ r) (hr : r < start + (as.map w).sum) :
    ∃ a ∈ as, pick w r as start = some a := by
  induction as generalizing start with
  | nil =>
    rw [List.map_nil, List.sum_nil] at hr
    omega
  | cons b as ih =>
    rw [List.map_cons, List.sum_cons] at hr
    rw [pick]
    split_ifs with hb
    · exact ⟨b, List.mem_cons_self, rfl⟩
    · obtain ⟨a, ha, hpick⟩ := ih (Nat.le_of_not_lt hb) (by omega)
      exact ⟨a, List.mem_cons_of_mem _ ha, hpick⟩

section Count

variable [DecidableEq α]

/-- The residues of the first element, and then those of the others. -/
theorem sum_pick_cons (a b : α) :
    ∑ r ∈ Finset.Ico start (start + (w b + (as.map w).sum)),
        (if pick w r (b :: as) start = some a then 1 else 0) =
      (if b = a then w b else 0) +
        ∑ r ∈ Finset.Ico (start + w b) (start + w b + (as.map w).sum),
          (if pick w r as (start + w b) = some a then 1 else 0) := by
  rw [← add_assoc, ← Finset.sum_Ico_consecutive _ (Nat.le_add_right start (w b))
    (Nat.le_add_right _ _)]
  congr 1
  · have hfirst : ∀ r ∈ Finset.Ico start (start + w b),
        (if pick w r (b :: as) start = some a then 1 else 0) = if b = a then 1 else 0 := by
      intro r hr
      rw [pick, if_pos (Finset.mem_Ico.mp hr).2]
      simp only [Option.some_inj]
    rw [Finset.sum_const_nat hfirst, Nat.card_Ico, Nat.add_sub_cancel_left, mul_ite, mul_one,
      mul_zero]
  · refine Finset.sum_congr rfl fun r hr => ?_
    rw [pick, if_neg (Nat.not_lt.mpr (Finset.mem_Ico.mp hr).1)]

/-- Every occurrence of `a` owns as many residues as `a` weighs. -/
theorem card_pick (a : α) :
    ((Finset.Ico start (start + (as.map w).sum)).filter
        fun r => pick w r as start = some a).card =
      as.count a * w a := by
  rw [Finset.card_filter]
  induction as generalizing start with
  | nil =>
    rw [List.map_nil, List.sum_nil, add_zero, Finset.Ico_self, Finset.sum_empty, List.count_nil,
      zero_mul]
  | cons b as ih =>
    rw [List.map_cons, List.sum_cons, sum_pick_cons, ih, List.count_cons]
    by_cases hb : b = a
    · rw [if_pos hb, hb, if_pos (beq_self_eq_true a), Nat.succ_mul, add_comm]
    · rw [if_neg hb, if_neg fun h => hb (beq_iff_eq.mp h), zero_add, add_zero]

end Count

end WorldZk.CumulativeSelection
