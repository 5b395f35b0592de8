import WorldZk.TreeEnsemble
import Mathlib.Data.List.Basic

/-!
# Scores of an ensemble

The class that `predict` gives, from the values that the trees give: the sign of one sum, or the
last of the largest sums over the trees that take turns.
-/

namespace WorldZk.EnsembleScores

open TreeEnsemble

variable {K : Type} [LinearOrder K]

/-! ## The largest score -/

/-- The place of a largest entry, behind which all entries are smaller. -/
def IsLastMax (scores : List K) (c : ℕ) : Prop :=
  ∃ score, scores[c]? = some score ∧
    ∀ (d : ℕ) (other : K), scores[d]? = some other → other ≤ score ∧ (other = score → d ≤ c)

theorem IsLastMax.unique {scores : List K} {c d : ℕ} (hc : IsLastMax scores c)
    (hd : IsLastMax scores d) : c = d := by
  obtain ⟨x, hx, hcmax⟩ := hc
  obtain ⟨y, hy, hdmax⟩ := hd
  obtain ⟨hyx, hdc⟩ := hcmax d y hy
  obtain ⟨hxy, hcd⟩ := hdmax c x hx
  exact le_antisymm (hcd (le_antisymm hxy hyx)) (hdc (le_antisymm hyx hxy))

private theorem foldl_max_spec {best : K × ℕ} {rest : List (K × ℕ)}
    (hsorted : (best :: rest).Pairwise fun x y => x.2 < y.2) :
    ∃ top ∈ best :: rest, rest.foldl (fun best x => if x.1 < best.1 then best else x) best = top ∧
      ∀ x ∈ best :: rest, x.1 ≤ top.1 ∧ (x.1 = top.1 → x.2 ≤ top.2) := by
  induction rest generalizing best with
  | nil =>
    refine ⟨best, List.mem_singleton_self best, rfl, fun x hx => ?_⟩
    rw [List.mem_singleton.mp hx]
    exact ⟨le_rfl, fun _ => le_rfl⟩
  | cons next rest ih =>
    obtain ⟨hbefore, hrest⟩ := List.pairwise_cons.mp hsorted
    rw [List.foldl_cons]
    by_cases hlt : next.1 < best.1
    · rw [if_pos hlt]
      have hskip : (best :: rest).Pairwise fun x y => x.2 < y.2 :=
        List.pairwise_cons.mpr ⟨fun y hy => hbefore y (List.mem_cons_of_mem _ hy), hrest.of_cons⟩
      obtain ⟨top, hmem, htop, hmax⟩ := ih hskip
      have hbest := (hmax best List.mem_cons_self).1
      have hkept := List.cons_subset_cons best (List.subset_cons_self next rest) hmem
      refine ⟨top, hkept, htop, fun x hx => ?_⟩
      rcases List.mem_cons.mp hx with rfl | hx
      · exact hmax x List.mem_cons_self
      · rcases List.mem_cons.mp hx with rfl | hx
        · have hless := hlt.trans_le hbest
          exact ⟨hless.le, fun heq => absurd heq hless.ne⟩
        · exact hmax x (List.mem_cons_of_mem _ hx)
    · rw [if_neg hlt]
      obtain ⟨top, hmem, htop, hmax⟩ := ih hrest
      refine ⟨top, List.mem_cons_of_mem _ hmem, htop, fun x hx => ?_⟩
      rcases List.mem_cons.mp hx with rfl | hx
      · obtain ⟨hnext, hlast⟩ := hmax next List.mem_cons_self
        have hle := (not_lt.mp hlt).trans hnext
        refine ⟨hle, fun heq => ?_⟩
        have hnexteq : next.1 = top.1 := le_antisymm hnext (heq ▸ not_lt.mp hlt)
        exact (hbefore next List.mem_cons_self).le.trans (hlast hnexteq)
      · exact hmax x hx

theorem argmax_spec {scores : List K} (hne : scores ≠ []) :
    ∃ c, IsLastMax scores c ∧ argmax scores = c % 2 ^ 32 := by
  obtain ⟨first, rest, hcons⟩ := List.exists_cons_of_ne_nil hne
  have hsorted : scores.zipIdx.Pairwise fun x y => x.2 < y.2 := by
    have hrange := @List.pairwise_lt_range' 0 scores.length 1 Nat.one_pos
    rwa [← List.zipIdx_map_snd, List.pairwise_map] at hrange
  have hzip : scores.zipIdx = (first, 0) :: rest.zipIdx 1 := by
    rw [hcons, List.zipIdx_cons]
  rw [hzip] at hsorted
  obtain ⟨⟨score, c⟩, hmem, htop, hmax⟩ := foldl_max_spec hsorted
  rw [← hzip] at hmem hmax
  refine ⟨c, ⟨score, List.mem_zipIdx_iff_getElem?.mp hmem, fun d other hother => ?_⟩, ?_⟩
  · exact hmax (other, d) (List.mem_zipIdx_iff_getElem?.mpr hother)
  · rw [argmax, hzip, maxByScore, htop]
    rfl

theorem isLastMax_map {L : Type} [LinearOrder L] {f : K → L} (hf : StrictMono f) {scores : List K}
    {c : ℕ} : IsLastMax (scores.map f) c ↔ IsLastMax scores c := by
  simp only [IsLastMax, List.getElem?_map, Option.map_eq_some_iff]
  constructor
  · rintro ⟨_, ⟨score, hscore, rfl⟩, hmax⟩
    refine ⟨score, hscore, fun d other hother => ?_⟩
    obtain ⟨hle, hlast⟩ := hmax d _ ⟨other, hother, rfl⟩
    exact ⟨hf.le_iff_le.mp hle, fun heq => hlast (congrArg f heq)⟩
  · rintro ⟨score, hscore, hmax⟩
    refine ⟨_, ⟨score, hscore, rfl⟩, ?_⟩
    rintro d _ ⟨other, hother, rfl⟩
    obtain ⟨hle, hlast⟩ := hmax d other hother
    exact ⟨hf.le_iff_le.mpr hle, fun heq => hlast (hf.injective heq)⟩

/-! ## Sums over the trees -/

section Sums

variable [AddMonoid K] {trees : List (DecisionTree K)} {values : List K} {features : List K}

/-- The sum of the values whose place, from `start` on, is `c` modulo the number of classes. -/
def turnTotalFrom (start classes : ℕ) (values : List K) (c : ℕ) : K :=
  (((values.zipIdx start).filter fun p => decide (p.2 % classes = c)).map Prod.fst).sum

/-- The sum of the values of one class; the classes take turns. -/
def turnTotal (classes : ℕ) (values : List K) (c : ℕ) : K := turnTotalFrom 0 classes values c

omit [LinearOrder K] in
theorem turnTotalFrom_cons (start classes : ℕ) (value : K) (values : List K) (c : ℕ) :
    turnTotalFrom start classes (value :: values) c =
      (if start % classes = c then value else 0) + turnTotalFrom (start + 1) classes values c := by
  rw [turnTotalFrom, turnTotalFrom, List.zipIdx_cons, List.filter_cons]
  by_cases hturn : start % classes = c
  · rw [if_pos (decide_eq_true hturn), if_pos hturn, List.map_cons, List.sum_cons]
  · rw [if_neg (by rwa [decide_eq_true_eq]), if_neg hturn, zero_add]

omit [LinearOrder K] in
private theorem turnTotalFrom_eq {start classes : ℕ} {values : List K} {c : ℕ}
    (hclasses : start + values.length ≤ classes) :
    turnTotalFrom start classes values c = if c < start then 0 else values.getD (c - start) 0 := by
  induction values generalizing start with
  | nil => simp [turnTotalFrom]
  | cons value values ih =>
    rw [List.length_cons] at hclasses
    rw [turnTotalFrom_cons, Nat.mod_eq_of_lt (by omega), @ih (start + 1) (by omega)]
    rcases Nat.lt_trichotomy c start with hlt | rfl | hgt
    · rw [if_neg (by omega), if_pos (by omega), if_pos hlt, zero_add]
    · rw [if_pos rfl, if_pos (by omega), if_neg (by omega), Nat.sub_self, add_zero,
        List.getD_cons_zero]
    · obtain ⟨k, rfl⟩ := Nat.exists_eq_add_of_lt hgt
      rw [if_neg (by omega), if_neg (by omega), if_neg (by omega), zero_add,
        show start + k + 1 - start = k + 1 by omega,
        show start + k + 1 - (start + 1) = k by omega, List.getD_cons_succ]

omit [LinearOrder K] in
theorem map_turnTotal (values : List K) :
    (List.range values.length).map (turnTotal values.length values) = values := by
  refine List.ext_getElem? fun c => ?_
  rw [List.getElem?_map]
  rcases Nat.lt_or_ge c values.length with hlt | hge
  · rw [List.getElem?_range hlt, Option.map_some, turnTotal, turnTotalFrom_eq (by omega),
      if_neg (Nat.not_lt_zero c), Nat.sub_zero, List.getD_eq_getElem?_getD,
      List.getElem?_eq_getElem hlt]
    rfl
  · rw [List.getElem?_eq_none hge, List.getElem?_eq_none (by rwa [List.length_range])]
    rfl

/-- The trees give these values. -/
def TreesGive (trees : List (DecisionTree K)) (features values : List K) : Prop :=
  List.Forall₂ (fun tree value => traverseTree tree features = some value) trees values

private theorem sum_loop (h : TreesGive trees features values) (score : K) :
    trees.foldlM (fun score tree => do
        let value ← traverseTree tree features
        pure (score + value)) score = some (score + values.sum) := by
  induction h generalizing score with
  | nil =>
    rw [List.foldlM_nil, List.sum_nil, add_zero]
    rfl
  | cons htree _ ih =>
    rw [List.foldlM_cons, htree, List.sum_cons, ← add_assoc]
    exact ih _

private theorem turns_loop (h : TreesGive trees features values) (start classes : ℕ)
    (scores : List K) :
    (trees.zipIdx start).foldlM (fun scores ti => do
        let value ← traverseTree ti.1 features
        pure (scores.modify (ti.2 % classes) (· + value))) scores =
      some (scores.mapIdx fun c score => score + turnTotalFrom start classes values c) := by
  induction h generalizing start scores with
  | nil =>
    have hsame :
        scores.mapIdx (fun c score => score + turnTotalFrom start classes [] c) = scores := by
      refine List.ext_getElem? fun c => ?_
      rw [List.getElem?_mapIdx]
      cases scores[c]? with
      | none => rfl
      | some score => exact congrArg some (add_zero score)
    rw [hsame]
    rfl
  | @cons tree value trees values htree _ ih =>
    rw [List.zipIdx_cons, List.foldlM_cons, htree]
    refine (ih (start + 1) (scores.modify (start % classes) (· + value))).trans (congrArg some ?_)
    refine List.ext_getElem? fun c => ?_
    rw [List.getElem?_mapIdx, List.getElem?_mapIdx, List.getElem?_modify]
    cases scores[c]? with
    | none => rfl
    | some score =>
      simp only [Option.map_some, turnTotalFrom_cons]
      split
      · rw [← add_assoc]
        rfl
      · rw [zero_add]
        rfl

theorem predict_two {model : XgboostModel K} (hlength : features.length = model.numFeatures)
    (hclasses : model.numClasses ≤ 2) (h : TreesGive model.trees features values) :
    predict model features = some (if 0 < model.baseScore + values.sum then 1 else 0) := by
  rw [predict, if_neg (not_not_intro hlength), if_pos hclasses, binaryScore, sum_loop h]
  rfl

theorem predict_many {model : XgboostModel K} (hlength : features.length = model.numFeatures)
    (hclasses : 2 < model.numClasses) (h : TreesGive model.trees features values) :
    predict model features = some (argmax ((List.range model.numClasses).map fun c =>
      model.baseScore + turnTotal model.numClasses values c)) := by
  have hscores : (List.replicate model.numClasses model.baseScore).mapIdx (fun c score =>
      score + turnTotalFrom 0 model.numClasses values c) =
      (List.range model.numClasses).map fun c =>
        model.baseScore + turnTotal model.numClasses values c := by
    refine List.ext_getElem? fun c => ?_
    rw [List.getElem?_mapIdx, List.getElem?_map, List.getElem?_replicate]
    by_cases hc : c < model.numClasses
    · rw [if_pos hc, List.getElem?_range hc]
      rfl
    · rw [if_neg hc, List.getElem?_eq_none (by rw [List.length_range]; omega)]
      rfl
  rw [predict, if_neg (not_not_intro hlength), if_neg (by omega), classScores, turns_loop h,
    hscores]
  rfl

end Sums

end WorldZk.EnsembleScores
