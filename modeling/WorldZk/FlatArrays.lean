import Mathlib.Algebra.Order.BigOperators.Group.List
import Mathlib.Algebra.Order.Ring.Nat
import WorldZk.CheckedRuns

/-!
# Lists of lists in flat arrays

A list of lists stored as one flat array and an array of offsets, where entry `i` of the offsets is
the place at which list `i` starts and the last entry is the total length.
-/

namespace WorldZk.FlatArrays

open CheckedRuns

/-- The places at which segments of the given sizes start, and the place at which the last one
ends. -/
def offsetsFrom : ℕ → List ℕ → List ℕ
  | offset, [] => [offset]
  | offset, size :: sizes => offset :: offsetsFrom (offset + size) sizes

theorem length_offsetsFrom (offset : ℕ) (sizes : List ℕ) :
    (offsetsFrom offset sizes).length = sizes.length + 1 := by
  induction sizes generalizing offset with
  | nil => rfl
  | cons size sizes ih => rw [offsetsFrom, List.length_cons, ih, List.length_cons]

theorem getElem?_offsetsFrom {sizes : List ℕ} {i : ℕ} (offset : ℕ) (hi : i ≤ sizes.length) :
    (offsetsFrom offset sizes)[i]? = some (offset + (sizes.take i).sum) := by
  induction sizes generalizing offset i with
  | nil =>
    obtain rfl : i = 0 := by simpa using hi
    rfl
  | cons size sizes ih =>
    cases i with
    | zero => rfl
    | succ i =>
      rw [offsetsFrom, List.getElem?_cons_succ, ih _ (by simpa using hi), List.take_succ_cons,
        List.sum_cons, add_assoc]

section Slices

variable {ε α : Type}

theorem mapM_getOr_range' {e : ε} {xs : List α} {start len : ℕ} (h : start + len ≤ xs.length) :
    (List.range' start len).mapM (getOr e xs) = .ok ((xs.drop start).take len) := by
  rw [mapM_eq_ok, List.forall₂_iff_get]
  refine ⟨by simp; omega, ?_⟩
  intro i h₁ h₂
  rw [List.length_range'] at h₁
  rw [getOr_eq_ok]
  simp [List.getElem?_eq_getElem (show start + i < xs.length by omega)]

/-- The entries of segment `i`. -/
def readSlice (e : ε) (offsets : List ℕ) (flat : List α) (i : ℕ) : Except ε (List α) := do
  let start ← getOr e offsets i
  let stop ← getOr e offsets (i + 1)
  (List.range' start (stop - start)).mapM (getOr e flat)

private theorem slice_flatten {xss : List (List α)} {i : ℕ} {xs : List α} (hi : xss[i]? = some xs) :
    (xss.flatten.drop ((xss.map List.length).take i).sum).take xs.length = xs := by
  induction xss generalizing i with
  | nil => simp at hi
  | cons ys yss ih =>
    cases i with
    | zero =>
      obtain rfl : ys = xs := by simpa using hi
      simp
    | succ i =>
      rw [List.getElem?_cons_succ] at hi
      rw [List.map_cons, List.take_succ_cons, List.sum_cons, List.flatten_cons, List.drop_append,
        List.drop_eq_nil_of_le (by omega), List.nil_append, Nat.add_sub_cancel_left]
      exact ih hi

/-- A segment is read back from the flat array. -/
theorem readSlice_flatten {e : ε} {xss : List (List α)} {i : ℕ} {xs : List α}
    (hi : xss[i]? = some xs) :
    readSlice e (offsetsFrom 0 (xss.map List.length)) xss.flatten i = .ok xs := by
  obtain ⟨hlt, hget⟩ := List.getElem?_eq_some_iff.mp hi
  have hlen : i < (xss.map List.length).length := by simpa using hlt
  have hstart := getElem?_offsetsFrom 0 hlen.le
  have hstop := getElem?_offsetsFrom 0 (Nat.succ_le_of_lt hlen)
  have hsize : ((xss.map List.length).take (i + 1)).sum =
      ((xss.map List.length).take i).sum + xs.length := by
    rw [List.take_add_one, List.getElem?_map, hi, Option.map_some, Option.toList_some,
      List.sum_append, List.sum_singleton]
  have hbound : ((xss.map List.length).take i).sum + xs.length ≤ xss.flatten.length := by
    rw [← hsize, List.length_flatten]
    exact (List.take_sublist _ _).sum_le_sum fun _ _ => Nat.zero_le _
  rw [zero_add] at hstart hstop
  rw [readSlice, getOr_eq_ok.mpr hstart, getOr_eq_ok.mpr hstop, ok_bind, ok_bind, hsize,
    Nat.add_sub_cancel_left, mapM_getOr_range' hbound, slice_flatten hi]

end Slices

/-! ## Well-formed offsets -/

/-- Offsets that cut an array of `total` entries into segments: they start at zero, do not decrease
and end at the length of the array. -/
structure IsOffsets (offsets : List ℕ) (total : ℕ) : Prop where
  zero : offsets[0]? = some 0
  mono : offsets.Pairwise (· ≤ ·)
  last : offsets.getLast? = some total

section Segments

variable {offsets : List ℕ} {total : ℕ}

private theorem IsOffsets.le_total (h : IsOffsets offsets total) {i : ℕ}
    (hi : i < offsets.length) : offsets[i] ≤ total := by
  have hlast := h.last
  rw [List.getLast?_eq_getElem?] at hlast
  obtain ⟨hlt, hget⟩ := List.getElem?_eq_some_iff.mp hlast
  rcases Nat.lt_or_ge i (offsets.length - 1) with hi' | hi'
  · rw [← hget]
    exact List.pairwise_iff_getElem.mp h.mono i (offsets.length - 1) hi hlt hi'
  · obtain rfl : i = offsets.length - 1 := by omega
    exact hget.le

/-- Every segment lies inside the array. -/
theorem IsOffsets.segment (h : IsOffsets offsets total) {i : ℕ} (hi : i + 1 < offsets.length) :
    ∃ start stop, offsets[i]? = some start ∧ offsets[i + 1]? = some stop ∧ start ≤ stop ∧
      stop ≤ total :=
  ⟨offsets[i], offsets[i + 1], List.getElem?_eq_getElem _, List.getElem?_eq_getElem _,
    List.pairwise_iff_getElem.mp h.mono i (i + 1) (by omega) hi (Nat.lt_succ_self i),
    h.le_total hi⟩

/-- The places of segment `i`. -/
def segmentPlaces (offsets : List ℕ) (i : ℕ) : List ℕ :=
  List.range' (offsets.getD i 0) (offsets.getD (i + 1) 0 - offsets.getD i 0)

private theorem IsOffsets.flatMap_segmentPlaces_lt (h : IsOffsets offsets total) {n : ℕ}
    (hn : n < offsets.length) :
    (List.range n).flatMap (segmentPlaces offsets) = List.range (offsets.getD n 0) := by
  induction n with
  | zero =>
    have hzero := h.zero
    rw [List.range_zero, List.flatMap_nil, List.getD_eq_getElem?_getD, hzero, Option.getD_some,
      List.range_zero]
  | succ n ih =>
    obtain ⟨start, stop, hstart, hstop, hle, -⟩ := h.segment hn
    rw [List.range_succ, List.flatMap_append, ih (by omega), List.flatMap_singleton, segmentPlaces,
      List.getD_eq_getElem?_getD, List.getD_eq_getElem?_getD, hstart, hstop, Option.getD_some,
      Option.getD_some, List.range_eq_range', List.range_eq_range']
    have happ := @List.range'_append_1 0 start (stop - start)
    rw [Nat.zero_add, Nat.add_sub_cancel' hle] at happ
    exact happ

theorem IsOffsets.flatMap_segmentPlaces (h : IsOffsets offsets total) :
    (List.range (offsets.length - 1)).flatMap (segmentPlaces offsets) = List.range total := by
  have hlast := h.last
  rw [List.getLast?_eq_getElem?] at hlast
  obtain ⟨hlt, -⟩ := List.getElem?_eq_some_iff.mp hlast
  rw [h.flatMap_segmentPlaces_lt hlt, List.getD_eq_getElem?_getD, hlast, Option.getD_some]

end Segments

end WorldZk.FlatArrays
