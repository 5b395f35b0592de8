import Mathlib.Data.List.Basic
import Mathlib.Logic.Function.Basic

/-!
# Areas of a numbered storage

A storage is a function from places to values. Values are written one after the other from a place
on and read back from there; what lies apart from the places written is as before.
-/

namespace WorldZk.StorageAreas

variable {α : Type}

/-- The places from `start` on, `size` of them. -/
structure Area where
  start : ℕ
  size : ℕ
deriving DecidableEq, Repr

namespace Area

def Mem (area : Area) (place : ℕ) : Prop :=
  area.start ≤ place ∧ place < area.start + area.size

/-- One area ends before the other starts. -/
def Apart (a b : Area) : Prop := a.start + a.size ≤ b.start ∨ b.start + b.size ≤ a.start

instance (a b : Area) : Decidable (a.Apart b) := inferInstanceAs (Decidable (_ ∨ _))

theorem Apart.symm {a b : Area} (h : a.Apart b) : b.Apart a := Or.symm h

theorem Apart.not_mem {a b : Area} (h : a.Apart b) {place : ℕ} (ha : a.Mem place) :
    ¬b.Mem place := by
  unfold Apart at h
  unfold Mem at ha ⊢
  omega

end Area

/-- Two storages have the same values in an area. -/
def AgreeOn (area : Area) (st st' : ℕ → α) : Prop := ∀ place, area.Mem place → st' place = st place

namespace AgreeOn

variable {area : Area} {st st' st'' : ℕ → α}

theorem trans (h : AgreeOn area st st') (h' : AgreeOn area st' st'') : AgreeOn area st st'' :=
  fun place hplace => (h' place hplace).trans (h place hplace)

theorem update {place : ℕ} (hplace : ¬area.Mem place) (st : ℕ → α) (x : α) :
    AgreeOn area st (Function.update st place x) := by
  intro other hother
  refine Function.update_of_ne ?_ x st
  rintro rfl
  exact hplace hother

theorem start_eq (h : AgreeOn area st st') (hsize : 0 < area.size) :
    st' area.start = st area.start :=
  h _ ⟨Nat.le_refl _, Nat.lt_add_of_pos_right hsize⟩

end AgreeOn

/-- The values `xs`, written from `base` on. -/
def writeFrom (st : ℕ → α) (base : ℕ) : List α → ℕ → α
  | [] => st
  | x :: xs => writeFrom (Function.update st base x) (base + 1) xs

/-- The `n` values from `base` on. -/
def readFrom (st : ℕ → α) (base n : ℕ) : List α := (List.range n).map fun i => st (base + i)

@[simp] theorem length_readFrom (st : ℕ → α) (base n : ℕ) : (readFrom st base n).length = n := by
  rw [readFrom, List.length_map, List.length_range]

theorem writeFrom_of_not_mem {xs : List α} {st : ℕ → α} {base place : ℕ}
    (h : ¬(Area.mk base xs.length).Mem place) : writeFrom st base xs place = st place := by
  induction xs generalizing st base with
  | nil => rfl
  | cons x xs ih =>
    simp only [Area.Mem, List.length_cons] at h ih
    rw [writeFrom, ih (by omega), Function.update_of_ne (by omega)]

theorem writeFrom_add {xs : List α} (st : ℕ → α) (base : ℕ) {i : ℕ} (hi : i < xs.length) :
    writeFrom st base xs (base + i) = xs[i] := by
  induction xs generalizing st base i with
  | nil => cases hi
  | cons x xs ih =>
    cases i with
    | zero =>
      have hbefore : ¬(Area.mk (base + 1) xs.length).Mem (base + 0) := by
        simp only [Area.Mem]
        omega
      rw [writeFrom, writeFrom_of_not_mem hbefore, Nat.add_zero, Function.update_self,
        List.getElem_cons_zero]
    | succ i =>
      have hplace : base + (i + 1) = base + 1 + i := by omega
      rw [writeFrom, hplace, ih _ _ (Nat.lt_of_succ_lt_succ hi), List.getElem_cons_succ]

theorem readFrom_writeFrom (st : ℕ → α) (base : ℕ) (xs : List α) :
    readFrom (writeFrom st base xs) base xs.length = xs := by
  refine List.ext_getElem (length_readFrom _ _ _) ?_
  intro i _ hi
  simp only [readFrom, List.getElem_map, List.getElem_range]
  exact writeFrom_add st base hi

theorem agreeOn_writeFrom {area : Area} {xs : List α} (st : ℕ → α) {base : ℕ}
    (h : (Area.mk base xs.length).Apart area) : AgreeOn area st (writeFrom st base xs) :=
  fun _ hplace => writeFrom_of_not_mem (h.symm.not_mem hplace)

theorem AgreeOn.readFrom_eq {area : Area} {st st' : ℕ → α} (h : AgreeOn area st st') {n : ℕ}
    (hn : n ≤ area.size) : readFrom st' area.start n = readFrom st area.start n := by
  refine List.map_congr_left fun i hi => h _ ⟨Nat.le_add_right _ _, ?_⟩
  have := List.mem_range.mp hi
  omega

end WorldZk.StorageAreas
