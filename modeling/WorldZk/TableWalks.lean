import WorldZk.DecisionTrees
import Mathlib.Order.Max

/-!
# Walks through node tables

A walk through a table depends on the features only by the decisions on its way. A table lets every
walk end exactly when those walks end in leaves on which no decision contradicts an earlier one.
-/

namespace WorldZk.TableWalks

open DecisionTrees

variable {K : Type}

/-! ## Child indices -/

/-- All walks along the children of a node end in leaves. A node is shown by its children; a leaf
has none. -/
inductive WalksEnd (children : ℕ → Option (Option (ℕ × ℕ))) : ℕ → Prop
  | leaf {i : ℕ} (hnode : children i = some none) : WalksEnd children i
  | split {i left right : ℕ} (hnode : children i = some (some (left, right)))
      (hleft : WalksEnd children left) (hright : WalksEnd children right) : WalksEnd children i

/-- The indices of the children; a leaf has none. -/
def childrenOf : NodeView K → Option (ℕ × ℕ)
  | .leaf _ => none
  | .split _ _ left right => some (left, right)

variable {view : ℕ → Option (NodeView K)} {i n : ℕ}

theorem exists_unfolds_iff :
    (∃ t, Unfolds view i t) ↔ WalksEnd (fun j => (view j).map childrenOf) i := by
  constructor
  · rintro ⟨t, ht⟩
    induction ht with
    | leaf hview => exact .leaf (by rw [hview]; rfl)
    | split hview _ _ ihleft ihright => exact .split (by rw [hview]; rfl) ihleft ihright
  · intro h
    induction h with
    | leaf hnode =>
      obtain ⟨node, hview, hchildren⟩ := Option.map_eq_some_iff.mp hnode
      cases node with
      | leaf value => exact ⟨_, .leaf hview⟩
      | split feature threshold left right => cases hchildren
    | split hnode _ _ ihleft ihright =>
      obtain ⟨node, hview, hchildren⟩ := Option.map_eq_some_iff.mp hnode
      cases node with
      | leaf value => cases hchildren
      | split feature threshold left right =>
        cases hchildren
        obtain ⟨leftTree, hleft⟩ := ihleft
        obtain ⟨rightTree, hright⟩ := ihright
        exact ⟨_, .split hview hleft hright⟩

/-! ## Walks with features -/

section Walks

variable [LinearOrder K]

/-- The value at the end of the walk from a node, in a given number of rounds. -/
def walk (view : ℕ → Option (NodeView K)) (features : List K) : ℕ → ℕ → Option K
  | 0, _ => none
  | rounds + 1, i =>
    match view i with
    | none => none
    | some (.leaf value) => some value
    | some (.split feature threshold left right) =>
      match features[feature]? with
      | none => none
      | some x => walk view features rounds (if x < threshold then left else right)

variable {features : List K} {rounds : ℕ} {value : K}

/-- The table in which both children of a node are the one that the features choose. -/
def chosenView (view : ℕ → Option (NodeView K)) (features : List K) (j : ℕ) :
    Option (NodeView K) :=
  (view j).map fun node => match node with
    | .leaf value => .leaf value
    | .split feature threshold left right =>
      if (features[feature]?).any (· < threshold) then .split feature threshold left left
      else .split feature threshold right right

private theorem chosenView_unfolds (h : walk view features rounds i = some value) :
    ∃ t, Unfolds (chosenView view features) i t ∧
      ∀ m, t.depth < m → walk view features m i = some value := by
  induction rounds generalizing i with
  | zero => cases h
  | succ rounds ih =>
    rw [walk] at h
    cases hnode : view i with
    | none =>
      rw [hnode] at h
      cases h
    | some node =>
      cases node with
      | leaf value' =>
        rw [hnode] at h
        cases h
        refine ⟨.leaf value, .leaf (by rw [chosenView, hnode]; rfl), ?_⟩
        intro m hm
        obtain ⟨m, rfl⟩ : ∃ k, m = k + 1 := ⟨m - 1, by omega⟩
        rw [walk, hnode]
      | split feature threshold left right =>
        simp only [hnode] at h
        cases hx : features[feature]? with
        | none =>
          rw [hx] at h
          cases h
        | some x =>
          simp only [hx] at h
          obtain ⟨t, ht, hwalk⟩ := ih h
          have hchosen : chosenView view features i = some (.split feature threshold
              (if x < threshold then left else right)
              (if x < threshold then left else right)) := by
            rw [chosenView, hnode, Option.map_some]
            by_cases hlt : x < threshold <;> simp [hx, hlt]
          refine ⟨_, .split hchosen ht ht, ?_⟩
          intro m hm
          rw [ThresholdTree.depth, max_self] at hm
          obtain ⟨m, rfl⟩ : ∃ k, m = k + 1 := ⟨m - 1, by omega⟩
          rw [walk, hnode]
          simp only [hx]
          exact hwalk m (by omega)

theorem walk_of_walk (hview : ∀ j, n ≤ j → view j = none)
    (h : walk view features rounds i = some value) : walk view features n i = some value := by
  obtain ⟨t, ht, hwalk⟩ := chosenView_unfolds h
  refine hwalk n (ht.depth_lt fun j hj => ?_)
  rw [chosenView, hview j hj]
  rfl

end Walks

/-! ## Decisions -/

/-- A comparison with its outcome; `true` is a turn to the right. -/
structure Decision (K : Type) where
  feature : ℕ
  threshold : K
  turn : Bool

section Decisions

variable [LinearOrder K]

/-- The features take the decision. -/
def Decision.Takes (features : List K) (d : Decision K) : Prop :=
  ∃ x, features[d.feature]? = some x ∧ d.turn = decide (d.threshold ≤ x)

/-- A turn to the right has its threshold below that of a turn to the left. -/
def Decision.Agrees (d e : Decision K) : Prop :=
  d.feature = e.feature → (d.turn = true → e.turn = false → d.threshold < e.threshold) ∧
    (d.turn = false → e.turn = true → e.threshold < d.threshold)

/-- All walks on which no decision contradicts an earlier one end in leaves. -/
inductive FeasibleEnd (view : ℕ → Option (NodeView K)) (n : ℕ) : List (Decision K) → ℕ → Prop
  | leaf {ds : List (Decision K)} {i : ℕ} {value : K} (hview : view i = some (.leaf value)) :
      FeasibleEnd view n ds i
  | split {ds : List (Decision K)} {i feature left right : ℕ} {threshold : K}
      (hview : view i = some (.split feature threshold left right)) (hfeature : feature < n)
      (hleft : (∀ d ∈ ds, Decision.Agrees ⟨feature, threshold, false⟩ d) →
        FeasibleEnd view n (⟨feature, threshold, false⟩ :: ds) left)
      (hright : (∀ d ∈ ds, Decision.Agrees ⟨feature, threshold, true⟩ d) →
        FeasibleEnd view n (⟨feature, threshold, true⟩ :: ds) right) :
      FeasibleEnd view n ds i

theorem Decision.Takes.agrees {features : List K} {d e : Decision K} (hd : d.Takes features)
    (he : e.Takes features) : d.Agrees e := by
  obtain ⟨x, hx, hturn⟩ := hd
  obtain ⟨y, hy, hturn'⟩ := he
  intro hfeature
  rw [hfeature, hy, Option.some_inj] at hx
  rw [hturn, hturn', hx]
  constructor
  · intro hle hlt
    exact (of_decide_eq_true hle).trans_lt (not_le.mp (of_decide_eq_false hlt))
  · intro hlt hle
    exact (of_decide_eq_true hle).trans_lt (not_le.mp (of_decide_eq_false hlt))

theorem Decision.Agrees.symm {d e : Decision K} (h : d.Agrees e) : e.Agrees d :=
  fun hfeature => ⟨fun he hd => (h hfeature.symm).2 hd he, fun he hd => (h hfeature.symm).1 hd he⟩

theorem agrees_cons {ds : List (Decision K)} {d : Decision K} (hd : ∀ e ∈ ds, d.Agrees e)
    (hds : ∀ d ∈ ds, ∀ e ∈ ds, d.Agrees e) : ∀ e ∈ d :: ds, ∀ e' ∈ d :: ds, e.Agrees e' := by
  have hself : d.Agrees d := by
    refine fun _ => ⟨fun htrue hfalse => ?_, fun hfalse htrue => ?_⟩
    · rw [htrue] at hfalse
      cases hfalse
    · rw [htrue] at hfalse
      cases hfalse
  intro e he e' he'
  rcases List.mem_cons.mp he with rfl | hmem
  · rcases List.mem_cons.mp he' with rfl | hmem'
    · exact hself
    · exact hd e' hmem'
  · rcases List.mem_cons.mp he' with rfl | hmem'
    · exact (hd e hmem).symm
    · exact hds e hmem e' hmem'

/-- Where all feasible walks end, the walk of given features does. -/
theorem FeasibleEnd.exists_walk {ds : List (Decision K)} (h : FeasibleEnd view n ds i)
    {features : List K} (hlength : features.length = n) (hds : ∀ d ∈ ds, d.Takes features) :
    ∃ rounds value, walk view features rounds i = some value := by
  induction h with
  | leaf hview => exact ⟨1, _, by rw [walk, hview]⟩
  | @split ds i feature left right threshold hview hfeature hleft hright ihleft ihright =>
    obtain ⟨x, hx⟩ : ∃ x, features[feature]? = some x :=
      ⟨_, List.getElem?_eq_getElem (by rwa [hlength])⟩
    by_cases hle : threshold ≤ x
    · have htakes : Decision.Takes features ⟨feature, threshold, true⟩ :=
        ⟨x, hx, (decide_eq_true hle).symm⟩
      obtain ⟨rounds, value, hwalk⟩ := ihright (fun d hd => htakes.agrees (hds d hd))
        (List.forall_mem_cons.mpr ⟨htakes, hds⟩)
      refine ⟨rounds + 1, value, ?_⟩
      rw [walk, hview]
      simp only [hx, if_neg (not_lt.mpr hle)]
      exact hwalk
    · have htakes : Decision.Takes features ⟨feature, threshold, false⟩ :=
        ⟨x, hx, (decide_eq_false hle).symm⟩
      obtain ⟨rounds, value, hwalk⟩ := ihleft (fun d hd => htakes.agrees (hds d hd))
        (List.forall_mem_cons.mpr ⟨htakes, hds⟩)
      refine ⟨rounds + 1, value, ?_⟩
      rw [walk, hview]
      simp only [hx, if_pos (not_le.mp hle)]
      exact hwalk

section Features

variable [NoMinOrder K] [Nonempty K]

/-- Lower bounds below all upper bounds leave room for a value. -/
theorem exists_between {lowers uppers : List K}
    (h : ∀ a ∈ lowers, ∀ b ∈ uppers, a < b) :
    ∃ x, (∀ a ∈ lowers, a ≤ x) ∧ ∀ b ∈ uppers, x < b := by
  induction lowers with
  | nil =>
    clear h
    induction uppers with
    | nil => exact ⟨Classical.arbitrary K, by simp, by simp⟩
    | cons b uppers ih =>
      obtain ⟨x, -, hx⟩ := ih
      obtain ⟨y, hy⟩ := exists_lt (min x b)
      obtain ⟨hyx, hyb⟩ := lt_min_iff.mp hy
      exact ⟨y, by simp, List.forall_mem_cons.mpr ⟨hyb, fun c hc => hyx.trans (hx c hc)⟩⟩
  | cons a lowers ih =>
    obtain ⟨ha, hrest⟩ := List.forall_mem_cons.mp h
    obtain ⟨x, hlower, hupper⟩ := ih hrest
    refine ⟨max a x, List.forall_mem_cons.mpr ⟨le_max_left a x, ?_⟩, ?_⟩
    · exact fun c hc => (hlower c hc).trans (le_max_right a x)
    · exact fun b hb => max_lt (ha b hb) (hupper b hb)

/-- Decisions that agree with each other are taken by some features. -/
theorem exists_features {ds : List (Decision K)} (hagree : ∀ d ∈ ds, ∀ e ∈ ds, d.Agrees e)
    (hbelow : ∀ d ∈ ds, d.feature < n) :
    ∃ features : List K, features.length = n ∧ ∀ d ∈ ds, d.Takes features := by
  have hvalue : ∀ f, ∃ x, ∀ d ∈ ds, d.feature = f → d.turn = decide (d.threshold ≤ x) := by
    intro f
    obtain ⟨x, hlower, hupper⟩ := @exists_between K _ _ _
      ((ds.filter fun d => d.feature = f ∧ d.turn = true).map Decision.threshold)
      ((ds.filter fun d => d.feature = f ∧ d.turn = false).map Decision.threshold) (by
        simp only [List.mem_map, List.mem_filter, decide_eq_true_eq]
        rintro _ ⟨d, ⟨hd, hdf, hdturn⟩, rfl⟩ _ ⟨e, ⟨he, hef, heturn⟩, rfl⟩
        exact (hagree d hd e he (hdf.trans hef.symm)).1 hdturn heturn)
    refine ⟨x, fun d hd hf => ?_⟩
    cases hturn : d.turn with
    | true =>
      have hmem : d ∈ ds.filter fun d => d.feature = f ∧ d.turn = true := by
        simp [hd, hf, hturn]
      exact (decide_eq_true (hlower _ (List.mem_map_of_mem hmem))).symm
    | false =>
      have hmem : d ∈ ds.filter fun d => d.feature = f ∧ d.turn = false := by
        simp [hd, hf, hturn]
      exact (decide_eq_false (not_le.mpr (hupper _ (List.mem_map_of_mem hmem)))).symm
  choose x hx using hvalue
  refine ⟨(List.range n).map x, by simp, fun d hd => ⟨x d.feature, ?_, hx _ d hd rfl⟩⟩
  simp [hbelow d hd]

/-- Where the walks of all features with the earlier decisions end, all feasible walks do. -/
theorem feasibleEnd_of_walks {ds : List (Decision K)} {rounds : ℕ}
    (hagree : ∀ d ∈ ds, ∀ e ∈ ds, d.Agrees e) (hbelow : ∀ d ∈ ds, d.feature < n)
    (h : ∀ features : List K, features.length = n → (∀ d ∈ ds, d.Takes features) →
      ∃ value, walk view features rounds i = some value) : FeasibleEnd view n ds i := by
  induction rounds generalizing ds i with
  | zero =>
    obtain ⟨features, hlength, hds⟩ := exists_features hagree hbelow
    obtain ⟨value, hvalue⟩ := h features hlength hds
    cases hvalue
  | succ rounds ih =>
    obtain ⟨features, hlength, hds⟩ := exists_features hagree hbelow
    obtain ⟨value, hvalue⟩ := h features hlength hds
    rw [walk] at hvalue
    cases hnode : view i with
    | none =>
      rw [hnode] at hvalue
      cases hvalue
    | some node =>
      cases node with
      | leaf value' => exact .leaf hnode
      | split feature threshold left right =>
        simp only [hnode] at hvalue
        have hfeature : feature < n := by
          rw [← hlength]
          cases hx : features[feature]? with
          | none =>
            rw [hx] at hvalue
            cases hvalue
          | some x => exact (List.getElem?_eq_some_iff.mp hx).1
        refine .split hnode hfeature (fun hnew => ?_) (fun hnew => ?_)
        · refine ih (agrees_cons hnew hagree) (List.forall_mem_cons.mpr ⟨hfeature, hbelow⟩) ?_
          intro features hlength hds
          obtain ⟨⟨x, hx, hturn⟩, hds⟩ := List.forall_mem_cons.mp hds
          obtain ⟨value, hvalue⟩ := h features hlength hds
          rw [walk, hnode] at hvalue
          simp only [hx, if_pos (not_le.mp (of_decide_eq_false hturn.symm))] at hvalue
          exact ⟨value, hvalue⟩
        · refine ih (agrees_cons hnew hagree) (List.forall_mem_cons.mpr ⟨hfeature, hbelow⟩) ?_
          intro features hlength hds
          obtain ⟨⟨x, hx, hturn⟩, hds⟩ := List.forall_mem_cons.mp hds
          obtain ⟨value, hvalue⟩ := h features hlength hds
          rw [walk, hnode] at hvalue
          simp only [hx, if_neg (not_lt.mpr (of_decide_eq_true hturn.symm))] at hvalue
          exact ⟨value, hvalue⟩

/-- The walks of all features of a length end exactly if all feasible walks do. -/
theorem walks_end_iff {nodes : ℕ} (hview : ∀ j, nodes ≤ j → view j = none) :
    (∀ features : List K, features.length = n →
      ∃ value, walk view features nodes i = some value) ↔ FeasibleEnd view n [] i := by
  constructor
  · intro h
    refine feasibleEnd_of_walks ?_ ?_ fun features hlength _ => h features hlength
    · intro d hd
      cases hd
    · intro d hd
      cases hd
  · intro h features hlength
    obtain ⟨rounds, value, hwalk⟩ := h.exists_walk hlength (fun d hd => (by cases hd))
    exact ⟨value, walk_of_walk hview hwalk⟩

end Features

end Decisions

end WorldZk.TableWalks
