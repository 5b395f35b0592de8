import Mathlib.Algebra.Order.BigOperators.Group.List
import Mathlib.Algebra.Order.Ring.Nat

/-!
# Flat layouts with declared sizes

Arrays written one after the other into one flat array, and read back by a reader that has its own
sizes for them. The reader finds every entry at its place exactly when all its sizes are right, and
no other sizes with the same sum will do.
-/

namespace WorldZk.FlatLayouts

variable {ι α : Type}

/-- The entries that a reader with the given size expects in an array; an expected entry that the
array does not have is `none`. -/
def readPlaces (size : ℕ) (xs : List α) : List (Option α) := (List.range size).map (xs[·]?)

theorem readPlaces_length (xs : List α) : readPlaces xs.length xs = xs.map some := by
  apply List.ext_getElem
  · simp [readPlaces]
  · intro i hi₁ hi₂
    simp [readPlaces]

theorem le_length_of_readPlaces {size : ℕ} {xs : List α} (h : none ∉ readPlaces size xs) :
    size ≤ xs.length := by
  by_contra hlt
  exact h (List.mem_map.mpr
    ⟨xs.length, List.mem_range.mpr (not_le.mp hlt), List.getElem?_eq_none le_rfl⟩)

/-- Sizes that are no larger than the lengths and have the same sum are the lengths. -/
theorem size_eq_of_sum_eq {fields : List ι} {size len : ι → ℕ} (hle : ∀ f ∈ fields, size f ≤ len f)
    (hsum : (fields.map size).sum = (fields.map len).sum) : ∀ f ∈ fields, size f = len f := by
  induction fields with
  | nil => simp
  | cons f fields ih =>
    have hf := hle f (List.mem_cons_self ..)
    have hrest : ∀ g ∈ fields, size g ≤ len g := fun g hg => hle g (List.mem_cons_of_mem _ hg)
    have hsums : (fields.map size).sum ≤ (fields.map len).sum := List.sum_le_sum hrest
    simp only [List.map_cons, List.sum_cons] at hsum
    intro g hg
    rcases List.mem_cons.mp hg with rfl | hg
    · omega
    · exact ih hrest (by omega) g hg

theorem flatMap_readPlaces_eq_iff (fields : List ι) (size : ι → ℕ) (values : ι → List α) :
    fields.flatMap (fun f => readPlaces (size f) (values f)) = (fields.flatMap values).map some ↔
      ∀ f ∈ fields, size f = (values f).length := by
  constructor
  · intro h
    have hle : ∀ f ∈ fields, size f ≤ (values f).length := by
      intro f hf
      apply le_length_of_readPlaces
      intro hnone
      have hmem : none ∈ (fields.flatMap values).map some :=
        h ▸ List.mem_flatMap.mpr ⟨f, hf, hnone⟩
      obtain ⟨a, -, ha⟩ := List.mem_map.mp hmem
      cases ha
    apply size_eq_of_sum_eq hle
    have hlen := congrArg List.length h
    simpa [List.length_flatMap, readPlaces] using hlen
  · intro h
    rw [List.map_flatMap]
    apply List.flatMap_congr
    intro f hf
    rw [h f hf, readPlaces_length]

/-- Rows from a bound on that contribute nothing may be left out. -/
theorem flatMap_range_of_le {m n : ℕ} {row : ℕ → List α} (hmn : m ≤ n)
    (hrow : ∀ i, m ≤ i → row i = []) :
    (List.range n).flatMap row = (List.range m).flatMap row := by
  obtain ⟨k, rfl⟩ := Nat.exists_eq_add_of_le hmn
  have hnil : ((List.range k).map (m + ·)).flatMap row = [] := by
    rw [List.flatMap_eq_nil_iff]
    intro i hi
    obtain ⟨j, -, rfl⟩ := List.mem_map.mp hi
    exact hrow _ (Nat.le_add_right m j)
  rw [List.range_add, List.flatMap_append, hnil, List.append_nil]

/-- A list of rows, read row by row through its places. -/
theorem flatMap_eq_flatMap_range {β : Type} (xs : List β) (row : β → List α) :
    xs.flatMap row = (List.range xs.length).flatMap fun i => (xs[i]?).elim [] row := by
  induction xs with
  | nil => rfl
  | cons x xs ih =>
    rw [List.length_cons, List.range_succ_eq_map, List.flatMap_cons, List.flatMap_cons,
      List.flatMap_map, ih]
    rfl

/-- Two lists of the same length whose entries agree under a projection. -/
theorem map_eq_map_of_getElem? {β γ : Type} {f : α → γ} {g : β → γ} {xs : List α} {ys : List β}
    (hlen : xs.length = ys.length)
    (h : ∀ (i : ℕ) (x : α) (y : β), xs[i]? = some x → ys[i]? = some y → f x = g y) : xs.map f = ys.map g := by
  apply List.ext_getElem (by simpa using hlen)
  intro i hx hy
  rw [List.length_map] at hx hy
  rw [List.getElem_map, List.getElem_map]
  exact h i _ _ (List.getElem?_eq_getElem hx) (List.getElem?_eq_getElem hy)

end WorldZk.FlatLayouts
