import Mathlib.Algebra.BigOperators.Finprod
import Mathlib.Data.Set.Card

/-!
# Totals over a map

The sum of the entries of a map of which only finitely many are nonzero, the number of its entries
with a property that only finitely many have, and how both change when one entry is written.
-/

namespace WorldZk.FiniteTotals

variable {ι : Type} [DecidableEq ι] {f : ι → ℕ}

theorem support_update_finite (hf : f.support.Finite) (i : ι) (v : ℕ) :
    (Function.update f i v).support.Finite := by
  apply (hf.insert i).subset
  intro j hj
  by_cases hji : j = i
  · exact .inl hji
  · rw [Function.mem_support, Function.update_of_ne hji] at hj
    exact .inr hj

theorem finsum_update_add (hf : f.support.Finite) (i : ι) (v : ℕ) :
    ∑ᶠ j, Function.update f i v j + f i = ∑ᶠ j, f j + v := by
  have hmem : i ∈ insert i hf.toFinset := Finset.mem_insert_self i _
  have hold : f.support ⊆ ↑(insert i hf.toFinset) := by
    intro j hj
    simpa using Or.inr hj
  have hnew : (Function.update f i v).support ⊆ ↑(insert i hf.toFinset) := by
    intro j hj
    by_cases hji : j = i
    · simp [hji]
    · rw [Function.mem_support, Function.update_of_ne hji] at hj
      simpa using Or.inr hj
  rw [finsum_eq_sum_of_support_subset _ hnew, finsum_eq_sum_of_support_subset _ hold,
    Finset.sum_update_of_mem hmem, ← Finset.add_sum_erase _ f hmem,
    Finset.sdiff_singleton_eq_erase]
  omega

omit [DecidableEq ι] in
theorem entry_le_finsum (hf : f.support.Finite) (i : ι) : f i ≤ ∑ᶠ j, f j :=
  single_le_finsum i hf fun _ => Nat.zero_le _

section Counts

variable {κ : Type} {g : ι → κ} {P : κ → Prop} [DecidablePred P]

omit [DecidablePred P] in
theorem finite_update (hg : {j | P (g j)}.Finite) (i : ι) (v : κ) :
    {j | P (Function.update g i v j)}.Finite := by
  apply (hg.insert i).subset
  intro j hj
  by_cases hji : j = i
  · exact .inl hji
  · rw [Set.mem_ofPred_eq, Function.update_of_ne hji] at hj
    exact .inr hj

omit [DecidableEq ι] in
theorem ncard_eq_erase_add (hg : {j | P (g j)}.Finite) (i : ι) :
    {j | P (g j)}.ncard = ({j | P (g j)} \ {i}).ncard + if P (g i) then 1 else 0 := by
  split
  case isTrue hi =>
    have hmem : i ∈ {j | P (g j)} := hi
    exact (Set.ncard_sdiff_singleton_add_one hmem hg).symm
  case isFalse hi =>
    have hmem : i ∉ {j | P (g j)} := hi
    rw [Set.sdiff_singleton_eq_self hmem, Nat.add_zero]

theorem ncard_update_add (hg : {j | P (g j)}.Finite) (i : ι) (v : κ) :
    {j | P (Function.update g i v j)}.ncard + (if P (g i) then 1 else 0) =
      {j | P (g j)}.ncard + if P v then 1 else 0 := by
  have hothers : {j | P (Function.update g i v j)} \ {i} = {j | P (g j)} \ {i} := by
    ext j
    by_cases hji : j = i
    · simp [hji]
    · simp [hji]
  have hnew := ncard_eq_erase_add (finite_update hg i v) i
  have hold := ncard_eq_erase_add hg i
  rw [Function.update_self, hothers] at hnew
  omega

end Counts

end WorldZk.FiniteTotals
