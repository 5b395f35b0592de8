import Mathlib.Data.List.Nodup
import Mathlib.Logic.Function.Basic

/-!
# Keys with their positions

A list of keys beside a map that gives the position of each. A key is removed by moving the last
key to its place.
-/

namespace WorldZk.IndexedKeys

open Function (update)

variable {α : Type} [DecidableEq α] {keys : List α} {index : α → ℕ} {a b : α} {i j : ℕ}

/-- The map gives the position of every key. -/
def Indexed (keys : List α) (index : α → ℕ) : Prop :=
  ∀ i a, keys[i]? = some a → index a = i

omit [DecidableEq α] in
theorem Indexed.nodup (h : Indexed keys index) : keys.Nodup := by
  rw [List.nodup_iff_injective_get]
  intro i j hij
  have hi := h i (keys.get i) (List.getElem?_eq_getElem i.isLt)
  have hj := h j (keys.get j) (List.getElem?_eq_getElem j.isLt)
  rw [hij] at hi
  exact Fin.ext (hi.symm.trans hj)

omit [DecidableEq α] in
theorem Indexed.getElem? (h : Indexed keys index) (ha : a ∈ keys) :
    keys[index a]? = some a := by
  obtain ⟨i, hi⟩ := List.mem_iff_getElem?.mp ha
  rw [h i a hi]
  exact hi

omit [DecidableEq α] in
theorem Indexed.lt_length (h : Indexed keys index) (ha : a ∈ keys) : index a < keys.length :=
  (List.getElem?_eq_some_iff.mp (h.getElem? ha)).1

theorem Indexed.push (h : Indexed keys index) (ha : a ∉ keys) :
    Indexed (keys ++ [a]) (update index a keys.length) := by
  intro i b hb
  by_cases hi : i < keys.length
  · rw [List.getElem?_append_left hi] at hb
    have hne : b ≠ a := by
      rintro rfl
      exact ha (List.mem_of_getElem? hb)
    rw [Function.update_of_ne hne]
    exact h i b hb
  · obtain ⟨hlt, hb⟩ := List.getElem?_eq_some_iff.mp hb
    rw [List.length_append, List.length_singleton] at hlt
    have hlast : i = keys.length := by omega
    subst hlast
    rw [List.getElem_append_right (Nat.le_refl _)] at hb
    simp only [Nat.sub_self, List.getElem_singleton] at hb
    rw [← hb, Function.update_self]

/-- The keys without the one at `i`, whose place the last one takes. -/
def removeAt (keys : List α) (i : ℕ) (last : α) : List α := (keys.set i last).dropLast

omit [DecidableEq α] in
theorem getElem?_removeAt {last : α} :
    (removeAt keys i last)[j]? =
      if j < keys.length - 1 then if i = j then some last else keys[j]? else none := by
  rw [removeAt, List.getElem?_dropLast, List.length_set]
  split
  case isTrue hj =>
    rw [List.getElem?_set]
    split
    case isTrue hij => rw [if_pos (by omega)]
    case isFalse => rfl
  case isFalse => rfl

/-- The positions after the removal. -/
def indexWithout (index : α → ℕ) (a last : α) : α → ℕ :=
  update (update index last (index a)) a 0

theorem Indexed.removeAt {last : α} (h : Indexed keys index)
    (hlast : keys[keys.length - 1]? = some last) :
    Indexed (removeAt keys (index a) last) (indexWithout index a last) := by
  intro j b hb
  rw [getElem?_removeAt] at hb
  split at hb
  case isFalse => cases hb
  case isTrue hj =>
    have hlastIndex := h _ _ hlast
    split at hb
    case isTrue hij =>
      obtain rfl := Option.some.inj hb
      -- The last key is not the removed one, whose place is not the last.
      have hne : last ≠ a := by
        rintro rfl
        omega
      rw [indexWithout, Function.update_of_ne hne, Function.update_self, hij]
    case isFalse hij =>
      have hb' := h j b hb
      have hne : b ≠ a := by
        rintro rfl
        exact hij hb'
      have hnl : b ≠ last := by
        rintro rfl
        omega
      rw [indexWithout, Function.update_of_ne hne, Function.update_of_ne hnl, hb']

theorem Indexed.mem_removeAt {last : α} (h : Indexed keys index) (ha : a ∈ keys)
    (hlast : keys[keys.length - 1]? = some last) :
    b ∈ IndexedKeys.removeAt keys (index a) last ↔ b ∈ keys ∧ b ≠ a := by
  have hlt := h.lt_length ha
  have hlastIndex := h _ _ hlast
  constructor
  · intro hb
    obtain ⟨j, hj⟩ := List.mem_iff_getElem?.mp hb
    rw [getElem?_removeAt] at hj
    split at hj
    case isFalse => cases hj
    case isTrue hlt' =>
      split at hj
      case isTrue hij =>
        obtain rfl := Option.some.inj hj
        refine ⟨List.mem_of_getElem? hlast, ?_⟩
        rintro rfl
        omega
      case isFalse hij =>
        refine ⟨List.mem_of_getElem? hj, ?_⟩
        rintro rfl
        exact hij (h j b hj)
  · rintro ⟨hb, hne⟩
    rw [List.mem_iff_getElem?]
    by_cases hbl : b = last
    · -- The last key is now where the removed one was.
      have hpos : index a ≠ keys.length - 1 := by
        intro heq
        have hget := h.getElem? ha
        rw [heq, hlast] at hget
        exact hne (hbl.trans (Option.some.inj hget))
      refine ⟨index a, ?_⟩
      rw [getElem?_removeAt, if_pos (by omega), if_pos rfl, hbl]
    · have hget := h.getElem? hb
      have hpos : index b ≠ keys.length - 1 := by
        intro heq
        rw [heq, hlast] at hget
        exact hbl (Option.some.inj hget).symm
      have hlt' := h.lt_length hb
      refine ⟨index b, ?_⟩
      rw [getElem?_removeAt, if_pos (by omega), if_neg, hget]
      intro heq
      have hget' := h.getElem? ha
      rw [heq, hget] at hget'
      exact hne (Option.some.inj hget')

end WorldZk.IndexedKeys
