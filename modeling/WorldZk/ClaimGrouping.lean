import WorldZk.InputLayers
import WorldZk.KeyedLists
import Mathlib.Data.List.Lex

/-!
# Sorting and grouping of claims in the two verifiers

Both verifiers sort the claim indices with an insertion sort in place, and both group them with a
scan over the earlier groups. The Rust crate pushes to vectors; the contract has arrays of fixed
size, with the counts of their members beside them, and grows a group by copying it. Both return
the lists that sorting by the point and grouping by the last coordinates describe.
-/

namespace WorldZk.ClaimGrouping

open CheckedRuns VerifierBackend InputLayers KeyedLists

/-! ## The loops of the source -/

/-- `compare_points` of `hyrax.rs`. -/
def comparePointsRust (a b : List ℕ) : ℤ :=
  let decided := (a.zip b).findSome? fun xy =>
    if xy.1 = xy.2 then none else if ¬xy.2 ≤ xy.1 then some (-1) else some 1
  match decided with
  | some c => c
  | none => if a.length < b.length then -1 else if b.length < a.length then 1 else 0

/-- `_comparePoints` of `GKRDAGVerifier`. -/
def comparePointsSol (a b : List ℕ) : ℤ :=
  let decided := (a.zip b).findSome? fun xy =>
    if xy.1 < xy.2 then some (-1) else if xy.2 < xy.1 then some 1 else none
  match decided with
  | some c => c
  | none => if a.length < b.length then -1 else if b.length < a.length then 1 else 0

section Insertion

variable (compare : List ℕ → List ℕ → ℤ) (claimPoints : List (List ℕ))

/-- The inner loop of the insertion sort, with `j` counting down. -/
def shiftClaims (key : ℕ) : ℕ → List ℕ → Checked (List ℕ)
  | 0, indices => setIdx indices 0 key
  | j + 1, indices => do
    let prev ← getIdx indices j
    if 0 < compare (← getIdx claimPoints prev) (← getIdx claimPoints key) then
      shiftClaims key j (← setIdx indices (j + 1) prev)
    else setIdx indices (j + 1) key

/-- The insertion sort of both verifiers. -/
def insertionSort : Checked (List ℕ) :=
  (List.range' 1 (claimPoints.length - 1)).foldlM
    (fun indices i => do shiftClaims compare claimPoints (← getIdx indices i) i indices)
    (List.range claimPoints.length)

end Insertion

/-- `sort_claim_indices` of `hyrax.rs`. -/
def sortClaimIndicesRust (claimPoints : List (List ℕ)) : Checked (List ℕ) :=
  insertionSort comparePointsRust claimPoints

/-- `_sortClaimIndices` of `GKRDAGVerifier`. -/
def sortClaimIndicesSol (claimPoints : List (List ℕ)) : Checked (List ℕ) :=
  insertionSort comparePointsSol claimPoints

/-- The groups while they are filled, with the counts of their members. -/
structure TempGroups where
  groups : List (List ℕ)
  sizes : List ℕ
deriving DecidableEq, Repr

section Group

variable (append : ℕ → ℕ → TempGroups → Checked TempGroups)
  (openGroup : ℕ → ℕ → TempGroups → Checked TempGroups) (claimPoints : List (List ℕ))
  (logNCols : ℕ)

/-- The scan over the earlier groups, up to the first match. -/
def joinGroup (claimIdx : ℕ) : List ℕ → TempGroups → Checked TempGroups
  | [], st => pure st
  | g :: gs, st => do
    if 0 < (← getIdx st.sizes g) then
      let first ← getIdx (← getIdx st.groups g) 0
      if ← rHalfEquals (← getIdx claimPoints first) (← getIdx claimPoints claimIdx) logNCols then
        append claimIdx g st
      else joinGroup claimIdx gs st
    else joinGroup claimIdx gs st

/-- The grouping loop of both verifiers, over the sorted claims with their positions. -/
def groupLoop (claims : List (ℕ × ℕ)) (st : TempGroups) : Checked TempGroups :=
  claims.foldlM (fun st claim => do
    let st ← joinGroup append claimPoints logNCols claim.1 (List.range claim.2) st
    openGroup claim.1 claim.2 st) st

end Group

/-- `temp_groups[g].push(claim_idx)`. -/
def pushClaim (claimIdx g : ℕ) (st : TempGroups) : Checked TempGroups := do
  let group ← getIdx st.groups g
  let groups ← setIdx st.groups g (group ++ [claimIdx])
  let size ← getIdx st.sizes g
  let sizes ← setIdx st.sizes g (size + 1)
  pure ⟨groups, sizes⟩

/-- `temp_groups.push(vec![claim_idx])`. -/
def pushGroup (claimIdx _i : ℕ) (st : TempGroups) : Checked TempGroups :=
  pure ⟨st.groups ++ [[claimIdx]], st.sizes ++ [1]⟩

/-- `group_claims_by_r_half` of `hyrax.rs`. -/
def groupClaimsByRHalfRust (claimPoints : List (List ℕ)) (sortedIndices : List ℕ)
    (logNCols : ℕ) : Checked (List (List ℕ)) := do
  let st ← groupLoop pushClaim pushGroup claimPoints logNCols sortedIndices.zipIdx ⟨[], []⟩
  pure st.groups

/-- A new array of `len` zeros with the first `sz` entries of `group`. -/
def copyArray (group : List ℕ) (sz len : ℕ) : Checked (List ℕ) :=
  (List.range sz).foldlM (fun copy k => do setIdx copy k (← getIdx group k)) (List.replicate len 0)

/-- A full array grows by four slots. -/
def growArray (group : List ℕ) (sz : ℕ) : Checked (List ℕ) :=
  if group.length ≤ sz then copyArray group sz (sz + 4) else pure group

/-- Append to a group of the contract. -/
def growClaim (claimIdx g : ℕ) (st : TempGroups) : Checked TempGroups := do
  let sz ← getIdx st.sizes g
  let group ← getIdx st.groups g
  let grown ← growArray group sz
  let groups ← setIdx st.groups g (← setIdx grown sz claimIdx)
  let sizes ← setIdx st.sizes g (sz + 1)
  pure ⟨groups, sizes⟩

/-- The new singleton group of the contract. -/
def storeGroup (claimIdx i : ℕ) (st : TempGroups) : Checked TempGroups := do
  let groups ← setIdx st.groups i [claimIdx]
  let sizes ← setIdx st.sizes i 1
  pure ⟨groups, sizes⟩

/-- `_groupClaimsByRHalf` of `GKRDAGVerifier`. -/
def groupClaimsByRHalfSol (claimPoints : List (List ℕ)) (sortedIndices : List ℕ) (logNCols : ℕ) :
    Checked (List (List ℕ)) := do
  let numClaims := sortedIndices.length
  let st ← groupLoop growClaim storeGroup claimPoints logNCols sortedIndices.zipIdx
    ⟨List.replicate numClaims [], List.replicate numClaims 0⟩
  (List.range numClaims).mapM fun i => do
    let sz ← getIdx st.sizes i
    copyArray (← getIdx st.groups i) sz sz

/-! ## Sorting -/

theorem comparePoints_gt {a b : List ℕ} : comparePoints a b = .gt ↔ b < a := by
  induction a generalizing b with
  | nil => cases b <;> simp [comparePoints]
  | cons x xs ih =>
    cases b with
    | nil => simp [comparePoints]
    | cons y ys =>
      rw [comparePoints, List.cons_lt_cons_iff]
      by_cases hxy : x = y
      · rw [if_pos hxy, ih, hxy]
        simp
      · rw [if_neg hxy]
        split <;> simp <;> omega

theorem comparePointsRust_cons (x y : ℕ) (xs ys : List ℕ) :
    comparePointsRust (x :: xs) (y :: ys) =
      if x = y then comparePointsRust xs ys else if ¬y ≤ x then -1 else 1 := by
  simp only [comparePointsRust, List.zip_cons_cons, List.findSome?_cons, List.length_cons,
    Nat.add_lt_add_iff_right]
  by_cases hxy : x = y
  · simp only [if_pos hxy]
  · by_cases hle : ¬y ≤ x
    · simp only [if_neg hxy, if_pos hle]
    · simp only [if_neg hxy, if_neg hle]

theorem comparePointsRust_pos {a b : List ℕ} : 0 < comparePointsRust a b ↔ b < a := by
  induction a generalizing b with
  | nil => cases b <;> simp [comparePointsRust]
  | cons x xs ih =>
    cases b with
    | nil => simp [comparePointsRust]
    | cons y ys =>
      rw [comparePointsRust_cons, List.cons_lt_cons_iff, ← ih]
      split <;> grind

theorem comparePointsSol_eq (a b : List ℕ) : comparePointsSol a b = comparePointsRust a b := by
  have hstep : (fun xy : ℕ × ℕ =>
      if xy.1 < xy.2 then some (-1 : ℤ) else if xy.2 < xy.1 then some 1 else none) =
      fun xy => if xy.1 = xy.2 then none else if ¬xy.2 ≤ xy.1 then some (-1) else some 1 := by
    funext xy
    rcases lt_trichotomy xy.1 xy.2 with h | h | h
    · simp [h, h.ne]
    · simp [h]
    · simp [h.le, h, h.ne', not_lt_of_gt h]
  rw [comparePointsSol, comparePointsRust, hstep]

/-- The point of a claim. -/
def pointOf (claimPoints : List (List ℕ)) (i : ℕ) : List ℕ := claimPoints.getD i []

theorem getIdx_pointOf {claimPoints : List (List ℕ)} {i : ℕ} (hi : i < claimPoints.length) :
    getIdx claimPoints i = .ok (pointOf claimPoints i) := by
  rw [getIdx_eq_ok, pointOf]
  simp [hi]

theorem insertClaim_eq (claimPoints : List (List ℕ)) (key : ℕ) (rev : List ℕ) :
    insertClaim claimPoints key rev = insertBack (pointOf claimPoints) key rev := by
  induction rev with
  | nil => rfl
  | cons x xs ih =>
    rcases lt_or_ge (pointOf claimPoints key) (pointOf claimPoints x) with hlt | hle
    · rw [insertBack_of_lt hlt, ← ih]
      exact if_pos (comparePoints_gt.mpr hlt)
    · rw [insertBack_of_le hle]
      exact if_neg fun h => hle.not_gt (comparePoints_gt.mp h)

theorem sortClaimIndices_eq (claimPoints : List (List ℕ)) :
    sortClaimIndices claimPoints =
      sortBack (pointOf claimPoints) (List.range claimPoints.length) := by
  simp only [sortClaimIndices, sortBack, insertClaim_eq]

section Loop

variable {compare : List ℕ → List ℕ → ℤ} (hcompare : ∀ {p q}, 0 < compare p q ↔ q < p)
  {claimPoints : List (List ℕ)}

include hcompare

/-- The inner loop moves the hole at `y` down to the place of the key. -/
theorem shiftClaims_append {key : ℕ} (hkey : key < claimPoints.length) {rev : List ℕ}
    (hrev : ∀ x ∈ rev, x < claimPoints.length) (y : ℕ) (rest : List ℕ) :
    shiftClaims compare claimPoints key rev.length (rev.reverse ++ y :: rest) =
      .ok ((insertBack (pointOf claimPoints) key rev).reverse ++ rest) := by
  induction rev generalizing y rest with
  | nil => exact setIdx_of_lt (by simp) key
  | cons x xs ih =>
    have hread : getIdx ((x :: xs).reverse ++ y :: rest) xs.length = .ok x :=
      getIdx_eq_ok.mpr (by simp)
    have hwrite (z : ℕ) : setIdx ((x :: xs).reverse ++ y :: rest) (xs.length + 1) z =
        .ok (xs.reverse ++ x :: z :: rest) := by
      rw [setIdx_of_lt (by simp)]
      simp
    have hx := getIdx_pointOf (hrev x List.mem_cons_self)
    rw [List.length_cons, shiftClaims, hread, ok_bind, hx, ok_bind, getIdx_pointOf hkey, ok_bind]
    rcases lt_or_ge (pointOf claimPoints key) (pointOf claimPoints x) with hlt | hle
    · rw [if_pos (hcompare.mpr hlt), insertBack_of_lt hlt, hwrite, ok_bind,
        ih (fun z hz => hrev z (List.mem_cons_of_mem _ hz))]
      simp
    · rw [if_neg (fun h => hle.not_gt (hcompare.mp h)), insertBack_of_le hle, hwrite]
      simp

theorem foldlM_shiftClaims (m : ℕ) {s : ℕ} {rev : List ℕ} (hs : rev.length = s)
    (hall : s + m = claimPoints.length) (hrev : ∀ x ∈ rev, x < claimPoints.length) :
    (List.range' s m).foldlM
        (fun indices i => do shiftClaims compare claimPoints (← getIdx indices i) i indices)
        (rev.reverse ++ List.range' s m) =
      .ok ((List.range' s m).foldl
        (fun rev key => insertBack (pointOf claimPoints) key rev) rev).reverse := by
  induction m generalizing s rev with
  | zero =>
    simp
    rfl
  | succ m ih =>
    have hread : getIdx (rev.reverse ++ List.range' s (m + 1)) s = .ok s := by
      rw [getIdx_eq_ok, List.range'_succ, List.getElem?_append_right (by simp [hs])]
      simp [hs]
    have hkey : s < claimPoints.length := by omega
    have hshift := shiftClaims_append hcompare hkey hrev s (List.range' (s + 1) m)
    rw [hs] at hshift
    rw [List.range'_succ] at hread ⊢
    rw [List.foldlM_cons, hread, ok_bind, hshift, ok_bind, List.foldl_cons]
    refine @ih (s + 1) (insertBack (pointOf claimPoints) s rev) ?_ (by omega) fun x hx => ?_
    · rw [(insertBack_perm _ _ _).length_eq, List.length_cons, hs]
    · rcases List.mem_cons.mp ((insertBack_perm _ _ _).mem_iff.mp hx) with rfl | hx
      · exact hkey
      · exact hrev x hx

theorem insertionSort_eq :
    insertionSort compare claimPoints = .ok (sortClaimIndices claimPoints) := by
  rw [sortClaimIndices_eq, insertionSort, sortBack]
  cases hn : claimPoints.length with
  | zero => rfl
  | succ n =>
    have hrev : ∀ x ∈ [0], x < claimPoints.length := by simp [hn]
    have hrun := foldlM_shiftClaims hcompare n rfl (by simp [hn]; omega) hrev
    rw [List.range_eq_range', List.range'_succ, Nat.add_sub_cancel]
    exact hrun

end Loop

theorem sortClaimIndicesRust_eq (claimPoints : List (List ℕ)) :
    sortClaimIndicesRust claimPoints = .ok (sortClaimIndices claimPoints) :=
  insertionSort_eq comparePointsRust_pos

theorem sortClaimIndicesSol_eq (claimPoints : List (List ℕ)) :
    sortClaimIndicesSol claimPoints = .ok (sortClaimIndices claimPoints) :=
  insertionSort_eq fun {p q} => by rw [comparePointsSol_eq, comparePointsRust_pos]

/-- The claims in the order of their points, and claims on one point in the order of their
indices. -/
structure SortedClaims (claimPoints : List (List ℕ)) (sorted : List ℕ) : Prop where
  perm : sorted.Perm (List.range claimPoints.length)
  sorted : sorted.Pairwise fun i j =>
    pointOf claimPoints i < pointOf claimPoints j ∨
      pointOf claimPoints i = pointOf claimPoints j ∧ i < j

theorem sortedClaims (claimPoints : List (List ℕ)) :
    SortedClaims claimPoints (sortClaimIndices claimPoints) := by
  rw [sortClaimIndices_eq]
  exact ⟨sortBack_perm _ _, sortBack_pairwise List.pairwise_lt_range⟩

/-! ## Grouping -/

/-- The last `logNCols` coordinates of a point. -/
def rHalf (logNCols : ℕ) (p : List ℕ) : List ℕ := p.drop (p.length - logNCols)

theorem rHalfEquals_eq {p q : List ℕ} {m logNCols : ℕ} (hp : p.length = m) (hq : q.length = m)
    (hcols : logNCols ≤ m) :
    rHalfEquals p q logNCols = .ok (decide (rHalf logNCols p = rHalf logNCols q)) := by
  have hfalse : ∀ is : List ℕ, is.foldlM (fun same i => (do
      if same then pure (decide ((← getIdx p i) = (← getIdx q i))) else pure false : Checked Bool))
        false = .ok false := by
    intro is
    induction is with
    | nil => rfl
    | cons i is ih => exact ih
  have htrue : ∀ k s, s + k = m → (List.range' s k).foldlM (fun same i => (do
      if same then pure (decide ((← getIdx p i) = (← getIdx q i))) else pure false : Checked Bool))
        true = .ok (decide (p.drop s = q.drop s)) := by
    intro k
    induction k with
    | zero =>
      intro s hs
      rw [List.drop_eq_nil_of_le (by omega), List.drop_eq_nil_of_le (by omega)]
      rfl
    | succ k ih =>
      intro s hs
      have hps : s < p.length := by omega
      have hqs : s < q.length := by omega
      have hpread : getIdx p s = .ok p[s] := getIdx_eq_ok.mpr (List.getElem?_eq_getElem hps)
      have hqread : getIdx q s = .ok q[s] := getIdx_eq_ok.mpr (List.getElem?_eq_getElem hqs)
      rw [List.range'_succ, List.foldlM_cons, if_pos rfl, hpread, ok_bind, hqread, ok_bind,
        pure_bind_ok, List.drop_eq_getElem_cons hps, List.drop_eq_getElem_cons hqs]
      by_cases heq : p[s] = q[s]
      · rw [decide_eq_true heq, ih (s + 1) (by omega)]
        simp only [List.cons.injEq, heq, true_and]
      · rw [decide_eq_false heq, hfalse]
        simp only [List.cons.injEq, heq, false_and, decide_false]
  rw [rHalfEquals, decide_eq_true (hp ▸ hcols), require_true, ok_bind, hp,
    htrue logNCols (m - logNCols) (by omega), rHalf, rHalf, hp, hq]

/-- The points have `m` coordinates each, at least as many as a right half. -/
structure EqualLengths (claimPoints : List (List ℕ)) (m logNCols : ℕ) : Prop where
  length_eq : ∀ p ∈ claimPoints, p.length = m
  le : logNCols ≤ m

/-- The last coordinates of the point of a claim. -/
def claimHalf (claimPoints : List (List ℕ)) (logNCols i : ℕ) : List ℕ :=
  rHalf logNCols (pointOf claimPoints i)

section Compare

variable {claimPoints : List (List ℕ)} {m logNCols : ℕ}
  (hlen : EqualLengths claimPoints m logNCols)

include hlen

theorem EqualLengths.length_pointOf {i : ℕ} (hi : i < claimPoints.length) :
    (pointOf claimPoints i).length = m := by
  refine hlen.length_eq _ (List.mem_iff_getElem?.mpr ⟨i, ?_⟩)
  simp [pointOf, hi]

theorem EqualLengths.rHalfEquals_pointOf {i j : ℕ} (hi : i < claimPoints.length)
    (hj : j < claimPoints.length) :
    rHalfEquals (pointOf claimPoints i) (pointOf claimPoints j) logNCols =
      .ok (decide (claimHalf claimPoints logNCols i = claimHalf claimPoints logNCols j)) :=
  rHalfEquals_eq (hlen.length_pointOf hi) (hlen.length_pointOf hj) hlen.le

end Compare

/-- Groups that can be compared: nonempty, with claims that exist. -/
def ValidGroups (claimPoints : List (List ℕ)) (groups : List (List ℕ)) : Prop :=
  ∀ group ∈ groups, group ≠ [] ∧ ∀ i ∈ group, i < claimPoints.length

theorem ValidGroups.step {claimPoints groups : List (List ℕ)} {logNCols claimIdx : ℕ}
    (hgroups : ValidGroups claimPoints groups) (hclaim : claimIdx < claimPoints.length) :
    ValidGroups claimPoints
      (joinFirst (claimHalf claimPoints logNCols) claimIdx groups ++ [[claimIdx]]) := by
  have hjoin : ValidGroups claimPoints
      (joinFirst (claimHalf claimPoints logNCols) claimIdx groups) := by
    induction groups with
    | nil => exact hgroups
    | cons g gs ih =>
      obtain ⟨⟨hne, hmem⟩, hgs⟩ := List.forall_mem_cons.mp hgroups
      rw [joinFirst]
      split
      · refine List.forall_mem_cons.mpr ⟨⟨by simp, fun i hi => ?_⟩, hgs⟩
        rcases List.mem_append.mp hi with hi | hi
        · exact hmem i hi
        · rwa [List.mem_singleton.mp hi]
      · exact List.forall_mem_cons.mpr ⟨⟨hne, hmem⟩, ih hgs⟩
  intro group hgroup
  rcases List.mem_append.mp hgroup with hgroup | hgroup
  · exact hjoin group hgroup
  · rw [List.mem_singleton.mp hgroup]
    exact ⟨by simp, fun i hi => by rwa [List.mem_singleton.mp hi]⟩

/-- A store of groups: `holds` says that its arrays hold the given groups, which can be read, and
which appending to a group and opening one change as they should, up to `n` groups. -/
structure GroupStore (append openGroup : ℕ → ℕ → TempGroups → Checked TempGroups) (n : ℕ)
    (holds : TempGroups → List (List ℕ) → Prop) : Prop where
  size : ∀ {st groups g group}, holds st groups → groups[g]? = some group →
    getIdx st.sizes g = .ok group.length
  read : ∀ {st groups g first rest}, holds st groups → groups[g]? = some (first :: rest) →
    ∃ slots, getIdx st.groups g = .ok (first :: slots)
  append : ∀ {st groups g group} (claimIdx : ℕ), holds st groups → groups[g]? = some group →
    ∃ st', append claimIdx g st = .ok st' ∧ holds st' (groups.set g (group ++ [claimIdx]))
  openGroup : ∀ {st groups} (claimIdx : ℕ), holds st groups → groups.length < n →
    ∃ st', openGroup claimIdx groups.length st = .ok st' ∧ holds st' (groups ++ [[claimIdx]])

section Store

variable {append openGroup : ℕ → ℕ → TempGroups → Checked TempGroups} {n : ℕ}
  {holds : TempGroups → List (List ℕ) → Prop} (hstore : GroupStore append openGroup n holds)
  {claimPoints : List (List ℕ)} {m logNCols : ℕ} (hlen : EqualLengths claimPoints m logNCols)

include hstore hlen

/-- The scan joins the first group whose founder has the right half of the claim. -/
theorem joinGroup_holds {claimIdx : ℕ} (hclaim : claimIdx < claimPoints.length) {st : TempGroups}
    {done rest : List (List ℕ)} (hrest : ValidGroups claimPoints rest)
    (hst : holds st (done ++ rest)) :
    ∃ st', joinGroup append claimPoints logNCols claimIdx
        (List.range' done.length rest.length) st = .ok st' ∧
      holds st' (done ++ joinFirst (claimHalf claimPoints logNCols) claimIdx rest) := by
  induction rest generalizing done with
  | nil => exact ⟨st, rfl, hst⟩
  | cons group rest ih =>
    obtain ⟨⟨hne, hmem⟩, hvalid⟩ := List.forall_mem_cons.mp hrest
    obtain ⟨first, members, rfl⟩ := List.exists_cons_of_ne_nil hne
    have hfirst := hmem first List.mem_cons_self
    have hget : (done ++ (first :: members) :: rest)[done.length]? = some (first :: members) := by
      simp
    obtain ⟨slots, hslots⟩ := hstore.read hst hget
    have hhead : getIdx (first :: slots) 0 = .ok first := rfl
    rw [List.length_cons, List.range'_succ, joinGroup, hstore.size hst hget, ok_bind,
      if_pos (List.length_pos_of_mem List.mem_cons_self), hslots, ok_bind, hhead, ok_bind,
      getIdx_pointOf hfirst, ok_bind, getIdx_pointOf hclaim, ok_bind,
      hlen.rHalfEquals_pointOf hfirst hclaim, ok_bind, joinFirst]
    by_cases hsame : claimHalf claimPoints logNCols first = claimHalf claimPoints logNCols claimIdx
    · obtain ⟨st', hst', hholds⟩ := hstore.append claimIdx hst hget
      rw [List.set_append_right _ _ le_rfl, Nat.sub_self, List.set_cons_zero] at hholds
      refine ⟨st', ?_, ?_⟩
      · rw [decide_eq_true hsame, if_pos rfl, hst']
      · rw [List.head?_cons, Option.map_some, if_pos (congrArg some hsame)]
        exact hholds
    · have hnext := @ih (done ++ [first :: members]) hvalid (by simpa using hst)
      rw [List.length_append, List.length_singleton] at hnext
      obtain ⟨st', hst', hholds⟩ := hnext
      refine ⟨st', ?_, ?_⟩
      · rw [decide_eq_false hsame, if_neg Bool.false_ne_true, hst']
      · rw [List.head?_cons, Option.map_some, if_neg fun h => hsame (Option.some.inj h)]
        simpa using hholds

theorem groupLoop_holds {claims : List ℕ} (hclaims : ∀ i ∈ claims, i < claimPoints.length)
    {st : TempGroups} {groups : List (List ℕ)} (hroom : groups.length + claims.length ≤ n)
    (hgroups : ValidGroups claimPoints groups) (hst : holds st groups) :
    ∃ st', groupLoop append openGroup claimPoints logNCols (claims.zipIdx groups.length) st =
        .ok st' ∧
      holds st' (claims.foldl
        (fun groups x => joinFirst (claimHalf claimPoints logNCols) x groups ++ [[x]]) groups) := by
  induction claims generalizing st groups with
  | nil => exact ⟨st, rfl, hst⟩
  | cons claimIdx claims ih =>
    have hclaim := hclaims claimIdx List.mem_cons_self
    rw [List.length_cons] at hroom
    have hstart : holds st ([] ++ groups) := hst
    have hjoin := joinGroup_holds hstore hlen hclaim hgroups hstart
    rw [List.length_nil, ← List.range_eq_range', List.nil_append] at hjoin
    obtain ⟨joined, hjoined, hjoin⟩ := hjoin
    have hsame := length_joinFirst (claimHalf claimPoints logNCols) claimIdx groups
    obtain ⟨opened, hopened, hopen⟩ := hstore.openGroup claimIdx hjoin (by omega)
    rw [hsame] at hopened
    have hrest := ih (fun i hi => hclaims i (List.mem_cons_of_mem _ hi))
      (by rw [List.length_append, List.length_singleton]; omega) (hgroups.step hclaim) hopen
    rw [List.length_append, List.length_singleton, hsame] at hrest
    obtain ⟨st', hst', hholds⟩ := hrest
    refine ⟨st', ?_, hholds⟩
    rw [List.zipIdx_cons, groupLoop, List.foldlM_cons, hjoined, ok_bind, hopened, ok_bind]
    exact hst'

/-- From an empty store, the loop leaves the groups of the claims by their right halves. -/
theorem groupLoop_groupByKey {claims : List ℕ} (hclaims : ∀ i ∈ claims, i < claimPoints.length)
    (hroom : claims.length ≤ n) {st : TempGroups} (hst : holds st []) :
    ∃ st', groupLoop append openGroup claimPoints logNCols claims.zipIdx st = .ok st' ∧
      holds st' (groupByKey (claimHalf claimPoints logNCols) claims) :=
  groupLoop_holds hstore hlen hclaims (by simpa using hroom) (by simp [ValidGroups]) hst

end Store

/-! ### The vectors of the Rust crate -/

/-- The vectors hold exactly the groups and their sizes. -/
def RustHolds (st : TempGroups) (groups : List (List ℕ)) : Prop :=
  st = ⟨groups, groups.map List.length⟩

theorem rustStore (n : ℕ) : GroupStore pushClaim pushGroup n RustHolds where
  size := by
    rintro _ groups g group rfl hget
    rw [getIdx_eq_ok, List.getElem?_map, hget, Option.map_some]
  read := by
    rintro _ groups g first rest rfl hget
    exact ⟨rest, getIdx_eq_ok.mpr hget⟩
  append := by
    rintro _ groups g group claimIdx rfl hget
    obtain ⟨hlt, -⟩ := List.getElem?_eq_some_iff.mp hget
    have hsize : getIdx (groups.map List.length) g = .ok group.length := by
      rw [getIdx_eq_ok, List.getElem?_map, hget, Option.map_some]
    refine ⟨_, ?_, rfl⟩
    rw [pushClaim, getIdx_eq_ok.mpr hget, ok_bind, setIdx_of_lt hlt, ok_bind, hsize, ok_bind,
      setIdx_of_lt (by simpa using hlt), ok_bind, List.map_set, List.length_append,
      List.length_singleton]
    rfl
  openGroup := by
    rintro _ groups claimIdx rfl -
    refine ⟨_, rfl, ?_⟩
    simp [RustHolds]

theorem groupClaimsByRHalfRust_eq {claimPoints : List (List ℕ)} {m logNCols : ℕ}
    (hlen : EqualLengths claimPoints m logNCols) {claims : List ℕ}
    (hclaims : ∀ i ∈ claims, i < claimPoints.length) :
    groupClaimsByRHalfRust claimPoints claims logNCols =
      .ok (groupByKey (claimHalf claimPoints logNCols) claims) := by
  obtain ⟨st, hst, rfl⟩ :=
    groupLoop_groupByKey (rustStore claims.length) hlen hclaims le_rfl
      (rfl : RustHolds ⟨[], []⟩ [])
  rw [groupClaimsByRHalfRust, hst]
  rfl

/-! ### The arrays of the contract -/

/-- The `n` slots hold the groups in order, every array with the members first and any words
behind them. -/
structure SolHolds (n : ℕ) (st : TempGroups) (groups : List (List ℕ)) : Prop where
  length_groups : st.groups.length = n
  length_sizes : st.sizes.length = n
  slot : ∀ {g : ℕ} {group : List ℕ}, groups[g]? = some group →
    st.sizes[g]? = some group.length ∧ ∃ slack, st.groups[g]? = some (group ++ slack)

theorem copyArray_eq (group slack : List ℕ) {len : ℕ} (hlen : group.length ≤ len) :
    copyArray (group ++ slack) group.length len =
      .ok (group ++ List.replicate (len - group.length) 0) := by
  -- the entries copied so far, those to come, and the zeros of the new array
  have hloop : ∀ todo done zeros : List ℕ, group = done ++ todo → todo.length ≤ zeros.length →
      (List.range' done.length todo.length).foldlM
          (fun copy k => do setIdx copy k (← getIdx (group ++ slack) k)) (done ++ zeros) =
        (.ok (group ++ zeros.drop todo.length) : Checked (List ℕ)) := by
    intro todo
    induction todo with
    | nil =>
      rintro done zeros rfl -
      simp
      rfl
    | cons t todo ih =>
      intro done zeros hgroup hroom
      obtain ⟨z, zeros, rfl⟩ := List.exists_cons_of_length_pos (Nat.zero_lt_of_lt hroom)
      have hread : getIdx (group ++ slack) done.length = .ok t := by
        rw [getIdx_eq_ok, hgroup]
        simp
      have hnext := ih (done ++ [t]) zeros (by simp [hgroup]) (by simpa using hroom)
      rw [List.length_append, List.length_singleton] at hnext
      rw [List.length_cons, List.range'_succ, List.foldlM_cons, hread, ok_bind,
        setIdx_of_lt (by simp), ok_bind, List.set_append_right _ _ le_rfl, Nat.sub_self,
        List.set_cons_zero, List.drop_succ_cons, ← hnext, List.append_assoc, List.singleton_append]
  have hcopy := hloop group [] (List.replicate len 0) rfl (by rwa [List.length_replicate])
  rw [List.length_nil, ← List.range_eq_range', List.nil_append, List.drop_replicate] at hcopy
  exact hcopy

theorem growArray_eq (group slack : List ℕ) :
    ∃ z rest, growArray (group ++ slack) group.length = .ok (group ++ z :: rest) := by
  rw [growArray]
  by_cases hfull : (group ++ slack).length ≤ group.length
  · refine ⟨0, List.replicate 3 0, ?_⟩
    rw [if_pos hfull, copyArray_eq group slack (by omega), Nat.add_sub_cancel_left]
    rfl
  · cases slack with
    | nil => simp at hfull
    | cons z rest =>
      refine ⟨z, rest, ?_⟩
      rw [if_neg hfull]
      rfl

/-- Writing the slot of one group leaves the others as they are. -/
theorem SolHolds.set {n : ℕ} {st : TempGroups} {groups groups' : List (List ℕ)}
    (hst : SolHolds n st groups) {g : ℕ} (hg : g < n) (group slack : List ℕ)
    (hget : groups'[g]? = some group) (hother : ∀ h ≠ g, groups'[h]? = groups[h]?) :
    SolHolds n ⟨st.groups.set g (group ++ slack), st.sizes.set g group.length⟩ groups' where
  length_groups := by rw [List.length_set, hst.length_groups]
  length_sizes := by rw [List.length_set, hst.length_sizes]
  slot := by
    intro h group' hh
    by_cases hgh : h = g
    · subst hgh
      obtain rfl := Option.some.inj (hget.symm.trans hh)
      exact ⟨List.getElem?_set_self (hst.length_sizes ▸ hg), slack,
        List.getElem?_set_self (hst.length_groups ▸ hg)⟩
    · rw [List.getElem?_set_ne fun h => hgh h.symm, List.getElem?_set_ne fun h => hgh h.symm]
      exact hst.slot ((hother h hgh) ▸ hh)

theorem growClaim_eq {n : ℕ} {st : TempGroups} {groups : List (List ℕ)} (hst : SolHolds n st groups)
    {g : ℕ} {group : List ℕ} (hget : groups[g]? = some group) (claimIdx : ℕ) :
    ∃ slack, growClaim claimIdx g st =
      .ok ⟨st.groups.set g ((group ++ [claimIdx]) ++ slack),
        st.sizes.set g (group ++ [claimIdx]).length⟩ := by
  obtain ⟨hsize, slack, hslot⟩ := hst.slot hget
  obtain ⟨hgroups, -⟩ := List.getElem?_eq_some_iff.mp hslot
  obtain ⟨hsizes, -⟩ := List.getElem?_eq_some_iff.mp hsize
  obtain ⟨z, rest, hgrown⟩ := growArray_eq group slack
  refine ⟨rest, ?_⟩
  rw [growClaim, getIdx_eq_ok.mpr hsize, ok_bind, getIdx_eq_ok.mpr hslot, ok_bind, hgrown, ok_bind,
    setIdx_of_lt (by simp), ok_bind, List.set_append_right _ _ le_rfl, Nat.sub_self,
    List.set_cons_zero, setIdx_of_lt hgroups, ok_bind, setIdx_of_lt hsizes, ok_bind,
    List.length_append, List.length_singleton, List.append_assoc, List.singleton_append]
  rfl

theorem solStore (n : ℕ) : GroupStore growClaim storeGroup n (SolHolds n) where
  size hst hget := getIdx_eq_ok.mpr (hst.slot hget).1
  read hst hget := by
    obtain ⟨-, slack, hslot⟩ := hst.slot hget
    exact ⟨_, getIdx_eq_ok.mpr hslot⟩
  append := by
    intro st groups g group claimIdx hst hget
    obtain ⟨hlt, -⟩ := List.getElem?_eq_some_iff.mp hget
    obtain ⟨hsize, -⟩ := hst.slot hget
    obtain ⟨hg, -⟩ := List.getElem?_eq_some_iff.mp hsize
    obtain ⟨slack, hgrow⟩ := growClaim_eq hst hget claimIdx
    exact ⟨_, hgrow, hst.set (hst.length_sizes ▸ hg) _ slack (List.getElem?_set_self hlt)
      fun h hh => List.getElem?_set_ne hh.symm⟩
  openGroup := by
    intro st groups claimIdx hst hroom
    refine ⟨_, ?_, hst.set hroom [claimIdx] [] (by simp) fun h hh => ?_⟩
    · rw [storeGroup, setIdx_of_lt (hst.length_groups ▸ hroom), ok_bind,
        setIdx_of_lt (hst.length_sizes ▸ hroom)]
      rfl
    · rcases Nat.lt_or_gt_of_ne hh with hlt | hlt
      · exact List.getElem?_append_left hlt
      · rw [List.getElem?_eq_none (by simp; omega), List.getElem?_eq_none hlt.le]

theorem groupClaimsByRHalfSol_eq {claimPoints : List (List ℕ)} {m logNCols : ℕ}
    (hlen : EqualLengths claimPoints m logNCols) {claims : List ℕ}
    (hclaims : ∀ i ∈ claims, i < claimPoints.length) :
    groupClaimsByRHalfSol claimPoints claims logNCols =
      .ok (groupByKey (claimHalf claimPoints logNCols) claims) := by
  have hempty : SolHolds claims.length
      ⟨List.replicate claims.length [], List.replicate claims.length 0⟩ [] :=
    ⟨List.length_replicate, List.length_replicate, by simp⟩
  obtain ⟨st, hst, hholds⟩ :=
    groupLoop_groupByKey (solStore claims.length) hlen hclaims le_rfl hempty
  have hcopy : ∀ i ∈ List.range claims.length,
      (getIdx st.sizes i >>= fun sz => getIdx st.groups i >>= fun group => copyArray group sz sz) =
        .ok ((groupByKey (claimHalf claimPoints logNCols) claims).getD i []) := by
    intro i hi
    have hlt : i < (groupByKey (claimHalf claimPoints logNCols) claims).length := by simpa using hi
    have hget := List.getElem?_eq_getElem hlt
    obtain ⟨hsize, slack, hslot⟩ := hholds.slot hget
    rw [getIdx_eq_ok.mpr hsize, ok_bind, getIdx_eq_ok.mpr hslot, ok_bind, copyArray_eq _ _ le_rfl,
      Nat.sub_self, List.replicate_zero, List.append_nil, List.getD_eq_getElem?_getD, hget,
      Option.getD_some]
  rw [groupClaimsByRHalfSol, hst, ok_bind, mapM_of_ok hcopy]
  congr 1
  apply List.ext_getElem
  · simp
  · intro i _ hi
    rw [List.getElem_map, List.getElem_range, List.getD_eq_getElem?_getD,
      List.getElem?_eq_getElem hi, Option.getD_some]

/-! ### The groups of the model -/

/-! ## The claims of both verifiers -/

/-- Group `g` starts with claim `g` of the sorted list, and its members, in the order of that list,
share the last coordinates. A claim is once in its own group, and besides it exactly in the first
earlier group, if there is one, whose founder shares its last coordinates, once. -/
structure GroupedClaims (claimPoints : List (List ℕ)) (logNCols : ℕ) (sorted : List ℕ)
    (groups : List (List ℕ)) : Prop where
  length_eq : groups.length = claimPoints.length
  founder : ∀ (g : ℕ) (group : List ℕ), groups[g]? = some group → group.head? = sorted[g]?
  sublist : ∀ group ∈ groups, group.Sublist sorted
  sameHalf : ∀ group ∈ groups, ∀ i ∈ group, ∀ j ∈ group,
    claimHalf claimPoints logNCols i = claimHalf claimPoints logNCols j
  own : ∀ (i claim : ℕ) (group : List ℕ), sorted[i]? = some claim →
    groups[i]? = some group → group.count claim = 1
  other : ∀ (i g claim : ℕ) (group : List ℕ), g ≠ i → sorted[i]? = some claim →
    groups[g]? = some group → group.count claim ≤ 1 ∧ (group.count claim = 1 ↔
      g < i ∧ FirstWithKey (claimHalf claimPoints logNCols) sorted claim g)

theorem groupedClaims {claimPoints : List (List ℕ)} (logNCols : ℕ) {sorted : List ℕ}
    (hsorted : SortedClaims claimPoints sorted) :
    GroupedClaims claimPoints logNCols sorted
      (groupByKey (claimHalf claimPoints logNCols) sorted) := by
  have hnodup : sorted.Nodup := hsorted.perm.nodup_iff.mpr List.nodup_range
  have hcount {i g claim : ℕ} {group : List ℕ} (hclaim : sorted[i]? = some claim)
      (hgroup : (groupByKey (claimHalf claimPoints logNCols) sorted)[g]? = some group) :
      group.count claim ≤ 1 ∧ (group.count claim = 1 ↔
        g = i ∨ g < i ∧ FirstWithKey (claimHalf claimPoints logNCols) sorted claim g) := by
    have hgroupNodup := nodup_of_groupByKey hnodup hgroup
    have hle := List.nodup_iff_count_le_one.mp hgroupNodup claim
    refine ⟨hle, ?_⟩
    rw [← mem_of_groupByKey hnodup hclaim hgroup]
    exact ⟨fun h => List.count_pos_iff.mp (by omega), List.count_eq_one_of_mem hgroupNodup⟩
  refine ⟨?_, fun g group => head?_of_groupByKey, fun group hgroup => ?_,
    fun group hgroup i hi j hj => ?_, fun i claim group hclaim hgroup => ?_,
    fun i g claim group hne hclaim hgroup => ?_⟩
  · rw [length_groupByKey, hsorted.perm.length_eq, List.length_range]
  · obtain ⟨g, hg⟩ := List.mem_iff_getElem?.mp hgroup
    exact (sublist_of_groupByKey hg).trans (List.drop_sublist _ _)
  · obtain ⟨g, hg⟩ := List.mem_iff_getElem?.mp hgroup
    exact Option.some.inj ((key_of_groupByKey hg hi).symm.trans (key_of_groupByKey hg hj))
  · exact (hcount hclaim hgroup).2.mpr (.inl rfl)
  · obtain ⟨hle, hiff⟩ := hcount hclaim hgroup
    exact ⟨hle, hiff.trans (or_iff_right hne)⟩

/-- For claim points of one length, of which the last `logNCols` coordinates are compared, both
verifiers sort the claims stably by their points, and both form the same groups of them. -/
theorem claims_sorted_and_grouped {claimPoints : List (List ℕ)} {m logNCols : ℕ}
    (hlen : ∀ p ∈ claimPoints, p.length = m) (hcols : logNCols ≤ m) :
    ∃ sorted groups,
      sortClaimIndicesRust claimPoints = .ok sorted ∧
      sortClaimIndicesSol claimPoints = .ok sorted ∧
      groupClaimsByRHalfRust claimPoints sorted logNCols = .ok groups ∧
      groupClaimsByRHalfSol claimPoints sorted logNCols = .ok groups ∧
      SortedClaims claimPoints sorted ∧ GroupedClaims claimPoints logNCols sorted groups := by
  have hsorted := sortedClaims claimPoints
  have hclaims : ∀ i ∈ sortClaimIndices claimPoints, i < claimPoints.length := fun i hi =>
    List.mem_range.mp (hsorted.perm.mem_iff.mp hi)
  exact ⟨_, _, sortClaimIndicesRust_eq claimPoints, sortClaimIndicesSol_eq claimPoints,
    groupClaimsByRHalfRust_eq ⟨hlen, hcols⟩ hclaims, groupClaimsByRHalfSol_eq ⟨hlen, hcols⟩ hclaims,
    hsorted, groupedClaims logNCols hsorted⟩

/-- Four claims, two of them on one point, in two classes of right halves. -/
theorem four_claims_grouped :
    sortClaimIndicesSol [[2, 7], [1, 7], [1, 7], [0, 5]] = .ok [3, 1, 2, 0] ∧
      groupClaimsByRHalfSol [[2, 7], [1, 7], [1, 7], [0, 5]] [3, 1, 2, 0] 1 =
        .ok [[3], [1, 2, 0], [2], [0]] ∧
      ∃ sorted groups,
        sortClaimIndicesRust [[2, 7], [1, 7], [1, 7], [0, 5]] = .ok sorted ∧
        groupClaimsByRHalfRust [[2, 7], [1, 7], [1, 7], [0, 5]] sorted 1 = .ok groups ∧
        GroupedClaims [[2, 7], [1, 7], [1, 7], [0, 5]] 1 sorted groups := by
  obtain ⟨sorted, groups, hsort, -, hgroup, -, -, hgrouped⟩ :=
    claims_sorted_and_grouped
      (by decide : ∀ p ∈ [[2, 7], [1, 7], [1, 7], [0, 5]], p.length = 2) (by decide : 1 ≤ 2)
  exact ⟨by decide, by decide, sorted, groups, hsort, hgroup, hgrouped⟩

end WorldZk.ClaimGrouping
