import Mathlib.Data.List.Induction
import Mathlib.Data.List.Nodup
import Mathlib.Order.Basic
import Mathlib.Order.Lattice

/-!
# Sorting and grouping lists by a key

A list is sorted by inserting its elements one after the other behind the elements with smaller or
equal keys. It is grouped by letting every element open a group of its own and, where an earlier
element has the same key, also join the group of the first of these.
-/

namespace WorldZk.KeyedLists

section Sorting

variable {α β : Type} [LinearOrder β] (k : α → β)

/-- Insertion into a sorted list that is held in reverse. -/
def insertBack (key : α) : List α → List α
  | [] => [key]
  | x :: xs => if k key < k x then x :: insertBack key xs else key :: x :: xs

def sortBack (xs : List α) : List α := (xs.foldl (fun rev key => insertBack k key rev) []).reverse

variable {k} in
theorem insertBack_of_lt {key x : α} (h : k key < k x) (xs : List α) :
    insertBack k key (x :: xs) = x :: insertBack k key xs := if_pos h

variable {k} in
theorem insertBack_of_le {key x : α} (h : k x ≤ k key) (xs : List α) :
    insertBack k key (x :: xs) = key :: x :: xs := if_neg (not_lt.mpr h)

theorem insertBack_perm (key : α) (xs : List α) : (insertBack k key xs).Perm (key :: xs) := by
  induction xs with
  | nil => rfl
  | cons x xs ih =>
    rw [insertBack]
    split
    · exact (ih.cons x).trans (List.Perm.swap key x xs)
    · rfl

theorem sortBack_perm (xs : List α) : (sortBack k xs).Perm xs := by
  have hfold : ∀ (xs rev : List α),
      (xs.foldl (fun rev key => insertBack k key rev) rev).Perm (xs.reverse ++ rev) := by
    intro xs
    induction xs with
    | nil => exact fun rev => .rfl
    | cons x xs ih =>
      intro rev
      rw [List.foldl_cons, List.reverse_cons, List.append_assoc, List.singleton_append]
      exact (ih _).trans ((insertBack_perm k x rev).append_left _)
  have hsort := hfold xs []
  rw [List.append_nil] at hsort
  exact (List.reverse_perm _).trans (hsort.trans (List.reverse_perm xs))

/-- The smaller key first, and for equal keys the order `r`. -/
def Precedes (r : α → α → Prop) (x y : α) : Prop := k x < k y ∨ k x = k y ∧ r x y

variable {k} {r : α → α → Prop}

theorem Precedes.trans [Trans r r r] {x y z : α} (hxy : Precedes k r x y) (hyz : Precedes k r y z) :
    Precedes k r x z := by
  rcases hxy with hxy | ⟨hxy, hr⟩
  · rcases hyz with hyz | ⟨hyz, -⟩
    · exact .inl (hxy.trans hyz)
    · exact .inl (hyz ▸ hxy)
  · rcases hyz with hyz | ⟨hyz, hr'⟩
    · exact .inl (hxy ▸ hyz)
    · exact .inr ⟨hxy.trans hyz, Trans.trans hr hr'⟩

theorem insertBack_pairwise [Trans r r r] {key : α} {rev : List α} (hkey : ∀ x ∈ rev, r x key)
    (hrev : rev.Pairwise fun y x => Precedes k r x y) :
    (insertBack k key rev).Pairwise fun y x => Precedes k r x y := by
  induction rev with
  | nil => exact List.pairwise_singleton _ _
  | cons x xs ih =>
    obtain ⟨hx, hxs⟩ := List.pairwise_cons.mp hrev
    have hrest := ih (fun y hy => hkey y (List.mem_cons_of_mem _ hy)) hxs
    rw [insertBack]
    split
    · rename_i hlt
      refine List.pairwise_cons.mpr ⟨fun y hy => ?_, hrest⟩
      rcases List.mem_cons.mp ((insertBack_perm k key xs).mem_iff.mp hy) with rfl | hy
      · exact .inl hlt
      · exact hx y hy
    · rename_i hge
      have hlast : Precedes k r x key := by
        rcases lt_or_eq_of_le (not_lt.mp hge) with hlt | heq
        · exact .inl hlt
        · exact .inr ⟨heq, hkey x List.mem_cons_self⟩
      refine List.pairwise_cons.mpr ⟨fun y hy => ?_, hrev⟩
      rcases List.mem_cons.mp hy with rfl | hy
      · exact hlast
      · exact (hx y hy).trans hlast

/-- The sorted list is in order, and elements with one key keep the order they came in. -/
theorem sortBack_pairwise [Trans r r r] {xs : List α} (hxs : xs.Pairwise r) :
    (sortBack k xs).Pairwise (Precedes k r) := by
  have hfold : ∀ (xs rev : List α), xs.Pairwise r → (∀ x ∈ rev, ∀ y ∈ xs, r x y) →
      rev.Pairwise (fun y x => Precedes k r x y) →
      (xs.foldl (fun rev key => insertBack k key rev) rev).Pairwise
        fun y x => Precedes k r x y := by
    intro xs
    induction xs with
    | nil => exact fun rev _ _ hrev => hrev
    | cons x xs ih =>
      intro rev hxs hbefore hrev
      obtain ⟨hx, hxs⟩ := List.pairwise_cons.mp hxs
      refine ih _ hxs (fun z hz y hy => ?_)
        (insertBack_pairwise (fun z hz => hbefore z hz x List.mem_cons_self) hrev)
      rcases List.mem_cons.mp ((insertBack_perm k x rev).mem_iff.mp hz) with rfl | hz
      · exact hx y hy
      · exact hbefore z hz y (List.mem_cons_of_mem _ hy)
  exact List.pairwise_reverse.mpr (hfold xs [] hxs (by simp) List.Pairwise.nil)

end Sorting

section Grouping

variable {α γ : Type} [DecidableEq γ] (key : α → γ)

/-- The element joins the first group whose first member has its key. -/
def joinFirst (x : α) : List (List α) → List (List α)
  | [] => []
  | g :: gs => if g.head?.map key = some (key x) then (g ++ [x]) :: gs else g :: joinFirst x gs

@[simp] theorem length_joinFirst (x : α) (groups : List (List α)) :
    (joinFirst key x groups).length = groups.length := by
  induction groups with
  | nil => rfl
  | cons g gs ih =>
    rw [joinFirst]
    split
    · rfl
    · rw [List.length_cons, ih, List.length_cons]

def groupByKey (xs : List α) : List (List α) :=
  xs.foldl (fun groups x => joinFirst key x groups ++ [[x]]) []

/-- The group of every element, after elements with the keys `seen`: the element itself and, where
no element before it has its key, all later elements with its key. -/
def ownGroups : List γ → List α → List (List α)
  | _, [] => []
  | seen, x :: xs =>
    (x :: if key x ∈ seen then [] else xs.filter fun y => key y = key x) ::
      ownGroups (key x :: seen) xs

theorem ownGroups_append_singleton (seen : List γ) (xs : List α) (y : α) :
    ownGroups key seen (xs ++ [y]) =
      (if key y ∈ seen then ownGroups key seen xs else joinFirst key y (ownGroups key seen xs)) ++
        [[y]] := by
  induction xs generalizing seen with
  | nil => simp [ownGroups, joinFirst]
  | cons x xs ih =>
    rw [List.cons_append, ownGroups, ih, ownGroups, List.filter_append]
    by_cases hseen : key y ∈ seen
    · have hne : key x ∉ seen → key y ≠ key x := fun hx h => hx (h ▸ hseen)
      rw [if_pos (List.mem_cons_of_mem _ hseen), if_pos hseen, List.cons_append]
      congr 2
      split
      · rfl
      · rename_i hx
        simp [hne hx]
    · by_cases heq : key y = key x
      · have hx : key x ∉ seen := heq ▸ hseen
        rw [if_pos (List.mem_cons.mpr (.inl heq)), if_neg hseen, if_neg hx, if_neg hx]
        simp [joinFirst, heq]
      · have hnew : key y ∉ key x :: seen := by simp [heq, hseen]
        have hne : ¬key x = key y := fun h => heq h.symm
        rw [if_neg hnew, if_neg hseen]
        simp [joinFirst, heq, hne]

theorem groupByKey_eq (xs : List α) : groupByKey key xs = ownGroups key [] xs := by
  induction xs using List.reverseRecOn with
  | nil => rfl
  | append_singleton xs y ih =>
    rw [ownGroups_append_singleton, if_neg List.not_mem_nil, ← ih, groupByKey, List.foldl_append]
    rfl

@[simp] theorem length_ownGroups (seen : List γ) (xs : List α) :
    (ownGroups key seen xs).length = xs.length := by
  induction xs generalizing seen with
  | nil => rfl
  | cons x xs ih => rw [ownGroups, List.length_cons, ih, List.length_cons]

theorem getElem?_ownGroups (seen : List γ) (xs : List α) (g : ℕ) :
    (ownGroups key seen xs)[g]? = (xs[g]?).map fun x =>
      x :: if key x ∈ seen ++ (xs.take g).map key then []
        else (xs.drop (g + 1)).filter fun y => key y = key x := by
  induction xs generalizing seen g with
  | nil => rfl
  | cons x xs ih =>
    rw [ownGroups]
    cases g with
    | zero => simp
    | succ g =>
      rw [List.getElem?_cons_succ, ih, List.getElem?_cons_succ]
      congr 1
      funext z
      have hmem : key z ∈ key x :: seen ++ (xs.take g).map key ↔
          key z ∈ seen ++ ((x :: xs).take (g + 1)).map key := by
        rw [List.take_succ_cons, List.map_cons]
        exact (@List.perm_middle _ (key x) seen _).symm.mem_iff
      simp only [hmem, List.drop_succ_cons]

@[simp] theorem length_groupByKey (xs : List α) : (groupByKey key xs).length = xs.length := by
  rw [groupByKey_eq, length_ownGroups]

theorem getElem?_groupByKey (xs : List α) (g : ℕ) :
    (groupByKey key xs)[g]? = (xs[g]?).map fun x =>
      x :: if key x ∈ (xs.take g).map key then []
        else (xs.drop (g + 1)).filter fun y => key y = key x := by
  rw [groupByKey_eq, getElem?_ownGroups, List.nil_append]

variable {key} {xs : List α} {g : ℕ} {group : List α}

theorem head?_of_groupByKey (hgroup : (groupByKey key xs)[g]? = some group) :
    group.head? = xs[g]? := by
  rw [getElem?_groupByKey] at hgroup
  obtain ⟨x, hx, rfl⟩ := Option.map_eq_some_iff.mp hgroup
  rw [hx, List.head?_cons]

theorem sublist_of_groupByKey (hgroup : (groupByKey key xs)[g]? = some group) :
    group.Sublist (xs.drop g) := by
  rw [getElem?_groupByKey] at hgroup
  obtain ⟨x, hx, rfl⟩ := Option.map_eq_some_iff.mp hgroup
  obtain ⟨hlt, rfl⟩ := List.getElem?_eq_some_iff.mp hx
  rw [List.drop_eq_getElem_cons hlt]
  refine List.Sublist.cons_cons _ ?_
  split
  · exact List.nil_sublist _
  · exact List.filter_sublist

theorem key_of_groupByKey (hgroup : (groupByKey key xs)[g]? = some group) {y : α}
    (hy : y ∈ group) : (xs[g]?).map key = some (key y) := by
  rw [getElem?_groupByKey] at hgroup
  obtain ⟨x, hx, rfl⟩ := Option.map_eq_some_iff.mp hgroup
  rw [hx, Option.map_some]
  rcases List.mem_cons.mp hy with rfl | hy
  · rfl
  · split at hy
    · cases hy
    · exact congrArg some (of_decide_eq_true (List.mem_filter.mp hy).2).symm

/-- The element at number `g` is the first with the key of `x`. -/
def FirstWithKey (key : α → γ) (xs : List α) (x : α) (g : ℕ) : Prop :=
  (xs[g]?).map key = some (key x) ∧ ∀ h < g, (xs[h]?).map key ≠ some (key x)

theorem nodup_of_groupByKey (hxs : xs.Nodup) (hgroup : (groupByKey key xs)[g]? = some group) :
    group.Nodup :=
  (hxs.sublist (List.drop_sublist g xs)).sublist (sublist_of_groupByKey hgroup)

theorem eq_of_getElem?_eq (hxs : xs.Nodup) {i j : ℕ} {x : α} (hi : xs[i]? = some x)
    (hj : xs[j]? = some x) : j = i :=
  (List.getElem?_inj (List.getElem?_eq_some_iff.mp hj).1 hxs).mp (hj.trans hi.symm)

/-- Of different entries, those from a place on are the ones at that place or later. -/
theorem mem_drop_iff (hxs : xs.Nodup) {i n : ℕ} {x : α} (hx : xs[i]? = some x) :
    x ∈ xs.drop n ↔ n ≤ i := by
  constructor
  · intro hmem
    obtain ⟨j, hj⟩ := List.mem_iff_getElem?.mp hmem
    rw [List.getElem?_drop] at hj
    rw [← eq_of_getElem?_eq hxs hx hj]
    exact Nat.le_add_right n j
  · intro hle
    refine List.mem_iff_getElem?.mpr ⟨i - n, ?_⟩
    rw [List.getElem?_drop, Nat.add_sub_cancel' hle, hx]

omit [DecidableEq γ] in
/-- The entry at a place is the first of its key when no earlier one has it. -/
theorem firstWithKey_iff {f x : α} (hf : xs[g]? = some f) :
    FirstWithKey key xs x g ↔ key f ∉ (xs.take g).map key ∧ key x = key f := by
  have hkey : (xs[g]?).map key = some (key x) ↔ key x = key f := by
    rw [hf, Option.map_some, Option.some_inj, eq_comm]
  rw [FirstWithKey, hkey, and_comm]
  refine and_congr_left fun hxf => ?_
  rw [hxf, List.mem_iff_getElem?, not_exists]
  constructor
  · intro hnot h hh
    rw [List.getElem?_map, List.getElem?_take] at hh
    split at hh
    · exact hnot h ‹_› hh
    · cases hh
  · intro hnot h hlt hh
    apply hnot h
    rw [List.getElem?_map, List.getElem?_take_of_lt hlt, hh]

/-- An element is a member of its own group and, where an earlier element has its key, of the
group of the first such element. -/
theorem mem_of_groupByKey (hxs : xs.Nodup) {i : ℕ} {x : α} (hx : xs[i]? = some x)
    (hgroup : (groupByKey key xs)[g]? = some group) :
    x ∈ group ↔ g = i ∨ g < i ∧ FirstWithKey key xs x g := by
  rw [getElem?_groupByKey] at hgroup
  obtain ⟨f, hf, rfl⟩ := Option.map_eq_some_iff.mp hgroup
  have hself : x = f ↔ g = i := by
    constructor
    · rintro rfl
      exact eq_of_getElem?_eq hxs hx hf
    · rintro rfl
      exact Option.some.inj (hx.symm.trans hf)
  rw [List.mem_cons, hself, firstWithKey_iff hf]
  refine or_congr_right ?_
  split
  · rename_i hmem
    exact iff_of_false List.not_mem_nil fun h => h.2.1 hmem
  · rename_i hmem
    rw [List.mem_filter, mem_drop_iff hxs hx, decide_eq_true_eq, and_iff_right hmem]
    rfl

end Grouping

end WorldZk.KeyedLists
