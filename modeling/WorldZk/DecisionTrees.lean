import Mathlib.Data.Fintype.Card
import Mathlib.Data.List.Basic
import Mathlib.Order.Basic

/-!
# Threshold trees and their node tables

A threshold tree as a recursive value, and the tables of nodes with child indices in which
programs store such trees. A table unfolds to a tree from a node when the walks from that node all
end in leaves, which rules out dangling indices and cycles.
-/

namespace WorldZk.DecisionTrees

variable {K : Type}

/-- A tree that compares features with thresholds and has values at its leaves. -/
inductive ThresholdTree (K : Type) where
  | leaf (value : K)
  | split (feature : ℕ) (threshold : K) (left right : ThresholdTree K)
deriving DecidableEq, Repr

/-- A node of a table, with the indices of its children. -/
inductive NodeView (K : Type) where
  | leaf (value : K)
  | split (feature : ℕ) (threshold : K) (left right : ℕ)
deriving DecidableEq, Repr

/-- A node without its children. -/
def NodeView.label : NodeView K → K ⊕ ℕ × K
  | leaf value => .inl value
  | split feature threshold _ _ => .inr (feature, threshold)

namespace ThresholdTree

def depth : ThresholdTree K → ℕ
  | leaf _ => 0
  | split _ _ left right => 1 + max left.depth right.depth

/-- The leaf value for the given features; a missing feature has none. -/
def eval [LT K] [DecidableLT K] (features : List K) : ThresholdTree K → Option K
  | leaf value => some value
  | split feature threshold left right =>
    match features[feature]? with
    | none => none
    | some x => if x < threshold then left.eval features else right.eval features

/-- The leaf value by the other rule, by which a feature equal to the threshold goes left. -/
def evalLe [LE K] [DecidableLE K] (features : List K) : ThresholdTree K → Option K
  | leaf value => some value
  | split feature threshold left right =>
    match features[feature]? with
    | none => none
    | some x => if x ≤ threshold then left.evalLe features else right.evalLe features

/-- The subtree at the end of a path; `true` goes right, and a leaf is never left. -/
def descend : ThresholdTree K → List Bool → ThresholdTree K
  | split _ _ left right, bit :: bits => (if bit then right else left).descend bits
  | tree, _ => tree

@[simp] theorem descend_nil (tree : ThresholdTree K) : tree.descend [] = tree := by
  cases tree <;> rfl

@[simp] theorem descend_leaf (value : K) (bits : List Bool) :
    (leaf value).descend bits = leaf value := by
  cases bits <;> rfl

theorem exists_descend_eq_leaf {tree : ThresholdTree K} {bits : List Bool}
    (h : tree.depth ≤ bits.length) : ∃ value, tree.descend bits = leaf value := by
  induction bits generalizing tree with
  | nil =>
    cases tree with
    | leaf value => exact ⟨value, rfl⟩
    | split feature threshold left right =>
      rw [depth, List.length_nil] at h
      omega
  | cons bit bits ih =>
    cases tree with
    | leaf value => exact ⟨value, rfl⟩
    | split feature threshold left right =>
      rw [depth, List.length_cons] at h
      have hleft := le_max_left left.depth right.depth
      have hright := le_max_right left.depth right.depth
      refine ih ?_
      cases bit with
      | false => exact hleft.trans (by omega)
      | true => exact hright.trans (by omega)

/-- The comparisons and the values of all nodes. -/
def labels : ThresholdTree K → List (K ⊕ ℕ × K)
  | leaf value => [.inl value]
  | split feature threshold left right =>
    .inr (feature, threshold) :: (left.labels ++ right.labels)

theorem labels_pos (tree : ThresholdTree K) : 0 < tree.labels.length := by
  cases tree with
  | leaf value => exact Nat.one_pos
  | split feature threshold left right => exact Nat.succ_pos _

/-- The comparison at the root. -/
def rootSplit : ThresholdTree K → Option (ℕ × K)
  | leaf _ => none
  | split feature threshold _ _ => some (feature, threshold)

/-- A root-to-leaf path on which `follows` admits every decision, and the value at its end. -/
inductive Reaches (follows : ℕ → K → Bool → Prop) : ThresholdTree K → K → Prop
  | leaf (value : K) : Reaches follows (leaf value) value
  | left {feature : ℕ} {threshold value : K} {left right : ThresholdTree K}
      (hfollows : follows feature threshold false) (hreaches : Reaches follows left value) :
      Reaches follows (split feature threshold left right) value
  | right {feature : ℕ} {threshold value : K} {left right : ThresholdTree K}
      (hfollows : follows feature threshold true) (hreaches : Reaches follows right value) :
      Reaches follows (split feature threshold left right) value

/-- Bits that decide as `follows` admits, at every node that they visit, describe such a path. -/
theorem reaches_of_descend {follows : ℕ → K → Bool → Prop} {tree : ThresholdTree K}
    {bits : List Bool} {value : K} (hend : tree.descend bits = leaf value)
    (h : ∀ k feature threshold left right bit, bits[k]? = some bit →
      tree.descend (bits.take k) = split feature threshold left right →
      follows feature threshold bit) : Reaches follows tree value := by
  induction bits generalizing tree with
  | nil =>
    rw [descend_nil] at hend
    rw [hend]
    exact .leaf value
  | cons bit bits ih =>
    cases tree with
    | leaf value' =>
      rw [descend_leaf, leaf.injEq] at hend
      rw [hend]
      exact .leaf value
    | split feature threshold left right =>
      have hhere := h 0 feature threshold left right bit rfl rfl
      have hrest : Reaches follows (if bit then right else left) value := by
        refine ih hend ?_
        intro k feature' threshold' left' right' bit' hbit hsplit
        exact h (k + 1) feature' threshold' left' right' bit' hbit hsplit
      cases bit
      · exact .left hhere hrest
      · exact .right hhere hrest

end ThresholdTree

/-- The table, read through `view`, holds the tree at index `i`. -/
inductive Unfolds (view : ℕ → Option (NodeView K)) : ℕ → ThresholdTree K → Prop
  | leaf {i : ℕ} {value : K} (hview : view i = some (.leaf value)) :
      Unfolds view i (.leaf value)
  | split {i feature left right : ℕ} {threshold : K} {leftTree rightTree : ThresholdTree K}
      (hview : view i = some (.split feature threshold left right))
      (hleft : Unfolds view left leftTree) (hright : Unfolds view right rightTree) :
      Unfolds view i (.split feature threshold leftTree rightTree)

namespace Unfolds

variable {view : ℕ → Option (NodeView K)} {i : ℕ} {tree : ThresholdTree K}

theorem unique (h : Unfolds view i tree) {tree' : ThresholdTree K} (h' : Unfolds view i tree') :
    tree = tree' := by
  induction h generalizing tree' with
  | leaf hview =>
    cases h' with
    | leaf hview' => rw [hview, Option.some.injEq, NodeView.leaf.injEq] at hview'; rw [hview']
    | split hview' => rw [hview] at hview'; cases hview'
  | split hview _ _ ihleft ihright =>
    cases h' with
    | leaf hview' => rw [hview] at hview'; cases hview'
    | split hview' hleft' hright' =>
      rw [hview, Option.some.injEq, NodeView.split.injEq] at hview'
      obtain ⟨rfl, rfl, rfl, rfl⟩ := hview'
      rw [ihleft hleft', ihright hright']

private theorem exists_depth_eq (h : Unfolds view i tree) {height : ℕ} (hle : height ≤ tree.depth) :
    ∃ j tree', Unfolds view j tree' ∧ tree'.depth = height := by
  induction h with
  | @leaf i value hview =>
    refine ⟨i, _, .leaf hview, ?_⟩
    rw [ThresholdTree.depth] at hle ⊢
    omega
  | @split i feature left right threshold leftTree rightTree hview hleft hright ihleft ihright =>
    rcases Nat.lt_or_ge height (1 + max leftTree.depth rightTree.depth) with hlt | hge
    · rcases le_total rightTree.depth leftTree.depth with hmax | hmax
      · exact ihleft (by rw [max_eq_left hmax] at hlt; omega)
      · exact ihright (by rw [max_eq_right hmax] at hlt; omega)
    · exact ⟨i, _, .split hview hleft hright, le_antisymm hge hle⟩

theorem depth_lt (h : Unfolds view i tree) {n : ℕ} (hview : ∀ j, n ≤ j → view j = none) :
    tree.depth < n := by
  have hnode : ∀ height : Fin (tree.depth + 1), ∃ j : Fin n, ∃ tree',
      Unfolds view j tree' ∧ tree'.depth = height := by
    intro height
    obtain ⟨j, tree', hj, hdepth⟩ := h.exists_depth_eq (Nat.lt_succ_iff.mp height.isLt)
    have hlt : j < n := by
      by_contra hge
      cases hj with
      | leaf hsome => rw [hview j (not_lt.mp hge)] at hsome; cases hsome
      | split hsome => rw [hview j (not_lt.mp hge)] at hsome; cases hsome
    exact ⟨⟨j, hlt⟩, tree', hj, hdepth⟩
  choose node subtree hunfolds hdepth using hnode
  -- nodes of different heights are different nodes
  have hinjective : Function.Injective node := by
    intro a c hac
    have htree : subtree a = subtree c := (hunfolds a).unique (hac ▸ hunfolds c)
    rw [Fin.ext_iff, ← hdepth a, ← hdepth c, htree]
  have hcard := Fintype.card_le_of_injective node hinjective
  rw [Fintype.card_fin, Fintype.card_fin] at hcard
  omega

end Unfolds

/-! ## Writing a tree into a table

The pending subtrees wait in a queue, each with the slot reserved for its root. A step fills the
first slot, and for a split it reserves the next two slots for the children. Slots that are not yet
reserved may hold anything.
-/

/-- The table `final` comes from `view` when the queue is worked off. -/
inductive Flattens : (ℕ → Option (NodeView K)) → List (ThresholdTree K × ℕ) → ℕ →
    (ℕ → Option (NodeView K)) → Prop
  | done {view : ℕ → Option (NodeView K)} {next : ℕ} : Flattens view [] next view
  | leaf {view view' final : ℕ → Option (NodeView K)} {queue : List (ThresholdTree K × ℕ)}
      {i next : ℕ} {value : K} (hview : view' i = some (.leaf value))
      (hframe : ∀ j < next, j ≠ i → view' j = view j) (hrest : Flattens view' queue next final) :
      Flattens view ((.leaf value, i) :: queue) next final
  | split {view view' final : ℕ → Option (NodeView K)} {queue : List (ThresholdTree K × ℕ)}
      {i next feature : ℕ} {threshold : K} {left right : ThresholdTree K}
      (hview : view' i = some (.split feature threshold next (next + 1)))
      (hframe : ∀ j < next, j ≠ i → view' j = view j)
      (hrest : Flattens view' (queue ++ [(left, next), (right, next + 1)]) (next + 2) final) :
      Flattens view ((.split feature threshold left right, i) :: queue) next final

namespace Flattens

variable {view final : ℕ → Option (NodeView K)} {queue : List (ThresholdTree K × ℕ)} {next : ℕ}

private theorem slots_append (hnodup : (queue.map Prod.snd).Nodup)
    (hlt : ∀ p ∈ queue, p.2 < next) (left right : ThresholdTree K) :
    ((queue ++ [(left, next), (right, next + 1)]).map Prod.snd).Nodup ∧
      ∀ p ∈ queue ++ [(left, next), (right, next + 1)], p.2 < next + 2 := by
  constructor
  · rw [List.map_append, List.nodup_append]
    refine ⟨hnodup, by simp, ?_⟩
    intro a ha c hc
    obtain ⟨p, hp, rfl⟩ := List.mem_map.mp ha
    have := hlt p hp
    simp only [List.map_cons, List.map_nil, List.mem_cons, List.not_mem_nil, or_false] at hc
    omega
  · intro p hp
    rcases List.mem_append.mp hp with hp | hp
    · have := hlt p hp
      omega
    · simp only [List.mem_cons, List.not_mem_nil, or_false] at hp
      rcases hp with rfl | rfl <;> simp

/-- Every pending subtree ends up at its slot, and the other reserved slots stay as they are. -/
private theorem unfolds_and_frame (h : Flattens view queue next final)
    (hnodup : (queue.map Prod.snd).Nodup) (hlt : ∀ p ∈ queue, p.2 < next) :
    (∀ p ∈ queue, Unfolds final p.2 p.1) ∧
      ∀ j < next, j ∉ queue.map Prod.snd → final j = view j := by
  induction h with
  | done => exact ⟨fun p hp => absurd hp List.not_mem_nil, fun _ _ _ => rfl⟩
  | @leaf view view' final queue i next value hview hframe _ ih =>
    rw [List.map_cons, List.nodup_cons] at hnodup
    have hi := hlt _ List.mem_cons_self
    obtain ⟨hqueue, hother⟩ := ih hnodup.2 fun p hp => hlt p (List.mem_cons_of_mem _ hp)
    constructor
    · intro p hp
      rcases List.mem_cons.mp hp with rfl | hp
      · exact .leaf ((hother i hi hnodup.1).trans hview)
      · exact hqueue p hp
    · intro j hj hnot
      rw [List.map_cons, List.mem_cons, not_or] at hnot
      rw [hother j hj hnot.2, hframe j hj hnot.1]
  | @split view view' final queue i next feature threshold left right hview hframe _ ih =>
    rw [List.map_cons, List.nodup_cons] at hnodup
    have hi := hlt _ List.mem_cons_self
    have hbelow : ∀ p ∈ queue, p.2 < next := fun p hp => hlt p (List.mem_cons_of_mem _ hp)
    obtain ⟨hnodup', hlt'⟩ := slots_append hnodup.2 hbelow left right
    obtain ⟨hqueue, hother⟩ := ih hnodup' hlt'
    have hunchanged : ∀ j < next, j ∉ queue.map Prod.snd → final j = view' j := by
      intro j hj hnot
      refine hother j (by omega) ?_
      rw [List.map_append, List.mem_append, not_or]
      refine ⟨hnot, ?_⟩
      simp only [List.map_cons, List.map_nil, List.mem_cons, List.not_mem_nil, or_false]
      omega
    constructor
    · intro p hp
      rcases List.mem_cons.mp hp with rfl | hp
      · refine .split ((hunchanged i hi hnodup.1).trans hview) ?_ ?_
        · exact hqueue (left, next) (by simp)
        · exact hqueue (right, next + 1) (by simp)
      · exact hqueue p (List.mem_append_left _ hp)
    · intro j hj hnot
      rw [List.map_cons, List.mem_cons, not_or] at hnot
      rw [hunchanged j hj hnot.2, hframe j hj hnot.1]

theorem unfolds {tree : ThresholdTree K} (h : Flattens view [(tree, 0)] 1 final) :
    Unfolds final 0 tree :=
  (h.unfolds_and_frame (by simp) (by simp)).1 (tree, 0) List.mem_cons_self

private theorem length_le_labels (queue : List (ThresholdTree K × ℕ)) :
    queue.length ≤ (queue.flatMap fun p => p.1.labels).length := by
  induction queue with
  | nil => exact Nat.zero_le _
  | cons p queue ih =>
    have := p.1.labels_pos
    rw [List.flatMap_cons, List.length_append, List.length_cons]
    omega

/-- The pending slots and the `fresh` next ones receive every node of the pending subtrees once. -/
private theorem labels_perm_of_queue (h : Flattens view queue next final)
    (hnodup : (queue.map Prod.snd).Nodup) (hlt : ∀ p ∈ queue, p.2 < next) {fresh : ℕ}
    (hfresh : (queue.flatMap fun p => p.1.labels).length = queue.length + fresh) :
    ((queue.map Prod.snd ++ List.range' next fresh).map fun i => (final i).map NodeView.label).Perm
      ((queue.flatMap fun p => p.1.labels).map some) := by
  induction h generalizing fresh with
  | done =>
    obtain rfl : fresh = 0 := by simpa using hfresh.symm
    exact List.Perm.nil
  | @leaf view view' final queue i next value hview hframe hrest ih =>
    rw [List.map_cons, List.nodup_cons] at hnodup
    have hi := hlt _ List.mem_cons_self
    have hlt' : ∀ p ∈ queue, p.2 < next := fun p hp => hlt p (List.mem_cons_of_mem _ hp)
    have hslot : (final i).map NodeView.label = some (.inl value) := by
      rw [(hrest.unfolds_and_frame hnodup.2 hlt').2 i hi hnodup.1, hview]
      rfl
    rw [List.flatMap_cons, List.length_append, List.length_cons] at hfresh
    have hperm := ih hnodup.2 hlt' (show _ = queue.length + fresh by
      rw [ThresholdTree.labels, List.length_singleton] at hfresh
      omega)
    rw [List.flatMap_cons, List.map_cons, List.cons_append, List.map_cons, hslot]
    exact hperm.cons _
  | @split view view' final queue i next feature threshold left right hview hframe hrest ih =>
    rw [List.map_cons, List.nodup_cons] at hnodup
    have hi := hlt _ List.mem_cons_self
    have hbelow : ∀ p ∈ queue, p.2 < next := fun p hp => hlt p (List.mem_cons_of_mem _ hp)
    obtain ⟨hnodup', hlt'⟩ := slots_append hnodup.2 hbelow left right
    have hslot : (final i).map NodeView.label = some (.inr (feature, threshold)) := by
      have hnot : i ∉ (queue ++ [(left, next), (right, next + 1)]).map Prod.snd := by
        rw [List.map_append, List.mem_append, not_or]
        refine ⟨hnodup.1, ?_⟩
        simp only [List.map_cons, List.map_nil, List.mem_cons, List.not_mem_nil, or_false]
        omega
      rw [(hrest.unfolds_and_frame hnodup' hlt').2 i (by omega) hnot, hview]
      rfl
    have hleft := left.labels_pos
    have hright := right.labels_pos
    have hlength : queue.length ≤ (queue.flatMap fun p => p.1.labels).length :=
      length_le_labels queue
    simp only [List.flatMap_cons, ThresholdTree.labels, List.length_append, List.length_cons]
      at hfresh
    obtain ⟨rest, rfl⟩ : ∃ rest, fresh = rest + 2 := ⟨fresh - 2, by omega⟩
    have hperm := ih hnodup' hlt' (show _ = _ + rest by
      simp only [List.flatMap_append, List.flatMap_cons, List.flatMap_nil, List.length_append,
        List.length_cons, List.length_nil]
      omega)
    rw [List.flatMap_cons, List.map_cons, List.cons_append, List.map_cons, hslot]
    refine List.Perm.cons _ ?_
    have hslots : queue.map Prod.snd ++ List.range' next (rest + 2) =
        (queue ++ [(left, next), (right, next + 1)]).map Prod.snd ++
          List.range' (next + 2) rest := by
      simp [List.range'_succ]
    have hlabels : ((queue ++ [(left, next), (right, next + 1)]).flatMap
        fun p => p.1.labels).Perm
        ((left.labels ++ right.labels) ++ queue.flatMap fun p => p.1.labels) := by
      simp only [List.flatMap_append, List.flatMap_cons, List.flatMap_nil, List.append_nil]
      exact List.perm_append_comm
    rw [hslots]
    exact hperm.trans (hlabels.map _)

theorem labels_perm {tree : ThresholdTree K} (h : Flattens view [(tree, 0)] 1 final) :
    ((List.range tree.labels.length).map fun i => (final i).map NodeView.label).Perm
      (tree.labels.map some) := by
  obtain ⟨fresh, hfresh⟩ : ∃ fresh, tree.labels.length = fresh + 1 :=
    ⟨_, (Nat.sub_add_cancel tree.labels_pos).symm⟩
  have hperm := h.labels_perm_of_queue (by simp) (by simp) (show _ = 1 + fresh by
    simp only [List.flatMap_cons, List.flatMap_nil, List.append_nil]
    omega)
  rw [List.flatMap_cons, List.flatMap_nil, List.append_nil] at hperm
  rw [hfresh, List.range_eq_range', List.range'_succ]
  exact hperm

end Flattens

end WorldZk.DecisionTrees
