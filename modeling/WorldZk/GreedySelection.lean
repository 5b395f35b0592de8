import Mathlib.Data.Finset.Sort
import Mathlib.Data.Finset.Range
import Mathlib.Order.Lattice

/-!
# Repeated selection of a maximum

The places `0 … n - 1` have scores. A scan goes through the places that are not used yet and
remembers the first one with the highest score, but only a score above a floor counts: when there
is none, it stays at place `0`. Repeated, the scan selects the places above the floor in the order
of their scores, and after them place `0` again and again.
-/

namespace WorldZk.GreedySelection

variable {α : Type*} [LinearOrder α] (score : ℕ → α) (floor : α) (n : ℕ)

def better (used : ℕ → Bool) (best : α × ℕ) (j : ℕ) : α × ℕ :=
  if used j then best else if best.1 < score j then (score j, j) else best

def scan (used : ℕ → Bool) : α × ℕ := (List.range n).foldl (better score used) (floor, 0)

/-- The first `k` places that are selected. -/
def picks : ℕ → List ℕ
  | 0 => []
  | k + 1 => picks k ++ [(scan score floor n fun j => decide (j ∈ picks k)).2]

/-- The places that count. -/
def above : Finset ℕ := {j ∈ Finset.range n | floor < score j}

variable {score floor n}

theorem scan_succ (used : ℕ → Bool) :
    scan score floor (n + 1) used = better score used (scan score floor n used) n := by
  rw [scan, List.range_succ, List.foldl_append]
  rfl

@[simp] theorem mem_above {j : ℕ} : j ∈ above score floor n ↔ j < n ∧ floor < score j := by
  simp [above]

/-! ## One scan -/

variable (score floor n) in
theorem le_scan (used : ℕ → Bool) :
    floor ≤ (scan score floor n used).1 ∧
      ∀ j < n, used j = false → score j ≤ (scan score floor n used).1 := by
  induction n with
  | zero => exact ⟨le_rfl, fun j hj => absurd hj (Nat.not_lt_zero j)⟩
  | succ n ih =>
    obtain ⟨hfloor, hcovered⟩ := ih
    have hgrows : (scan score floor n used).1 ≤ (scan score floor (n + 1) used).1 := by
      rw [scan_succ, better]
      split
      case isTrue => exact le_rfl
      case isFalse =>
        split
        case isTrue hlt => exact hlt.le
        case isFalse => exact le_rfl
    refine ⟨hfloor.trans hgrows, fun j hj hunused => ?_⟩
    rcases Nat.lt_succ_iff_lt_or_eq.mp hj with hj | rfl
    · exact (hcovered j hj hunused).trans hgrows
    · rw [scan_succ, better, if_neg (by rw [hunused]; exact Bool.false_ne_true)]
      split
      case isTrue => exact le_rfl
      case isFalse hge => exact not_lt.mp hge

variable (score floor n) in
theorem scan_eq_or (used : ℕ → Bool) :
    scan score floor n used = (floor, 0) ∨
      ∃ j < n, used j = false ∧ floor < score j ∧ scan score floor n used = (score j, j) := by
  induction n with
  | zero => exact .inl rfl
  | succ n ih =>
    have hkept : scan score floor n used = (floor, 0) ∨
        ∃ j < n + 1, used j = false ∧ floor < score j ∧
          scan score floor n used = (score j, j) := by
      rcases ih with hnone | ⟨j, hj, hfound⟩
      · exact .inl hnone
      · exact .inr ⟨j, hj.trans (Nat.lt_succ_self n), hfound⟩
    rw [scan_succ, better]
    split
    case isTrue => exact hkept
    case isFalse hunused =>
      split
      case isTrue hlt =>
        have hfloor := (le_scan score floor n used).1.trans_lt hlt
        exact .inr ⟨n, Nat.lt_succ_self n, Bool.eq_false_iff.mpr hunused, hfloor, rfl⟩
      case isFalse => exact hkept

/-! ## Repeated scans -/

variable (score n) in
/-- Different places in the order of their scores, with none of the others above any of them. -/
structure Ranked (ps : List ℕ) : Prop where
  nodup : ps.Nodup
  inRange : ∀ i ∈ ps, i < n
  ordered : ps.Pairwise fun i j => score j ≤ score i
  rest : ∀ j < n, j ∉ ps → ∀ i ∈ ps, score j ≤ score i

theorem Ranked.snoc {ps : List ℕ} (h : Ranked score n ps) {i : ℕ} (hi : i ∉ ps) (hin : i < n)
    (hbest : ∀ j < n, j ∉ ps → score j ≤ score i) : Ranked score n (ps ++ [i]) := by
  refine ⟨?_, fun j hj => ?_, ?_, fun j hj hnot k hk => ?_⟩
  · exact List.nodup_append.mpr ⟨h.nodup, List.nodup_singleton i, by
      rintro a ha b hb rfl
      exact hi (List.mem_singleton.mp hb ▸ ha)⟩
  · rcases List.mem_append.mp hj with hj | hj
    · exact h.inRange j hj
    · rw [List.mem_singleton.mp hj]
      exact hin
  · refine List.pairwise_append.mpr ⟨h.ordered, List.pairwise_singleton _ _, fun a ha b hb => ?_⟩
    rw [List.mem_singleton.mp hb]
    exact h.rest i hin hi a ha
  · rw [List.mem_append, not_or] at hnot
    rcases List.mem_append.mp hk with hk | hk
    · exact h.rest j hj hnot.1 k hk
    · rw [List.mem_singleton.mp hk]
      exact hbest j hj hnot.1

/-- Another place above the floor is left: the scan finds the best one. -/
theorem scan_of_lt {ps : List ℕ} (h : Ranked score n ps)
    (hlt : ps.length < (above score floor n).card) :
    ∃ i ∈ above score floor n, (scan score floor n fun j => decide (j ∈ ps)).2 = i ∧
      Ranked score n (ps ++ [i]) := by
  have hcard : ps.toFinset.card < (above score floor n).card := by
    rw [List.toFinset_card_of_nodup h.nodup]
    exact hlt
  obtain ⟨j, hj, hnot⟩ := Finset.exists_mem_notMem_of_card_lt_card hcard
  rw [List.mem_toFinset] at hnot
  rw [mem_above] at hj
  obtain ⟨-, hcovered⟩ := le_scan score floor n
    fun j => decide (j ∈ ps)
  rcases scan_eq_or score floor n fun j => decide (j ∈ ps) with
    hnone | ⟨i, hi, hunused, hfloor, hfound⟩
  · have hle := hcovered j hj.1 (decide_eq_false hnot)
    rw [hnone] at hle
    exact absurd hj.2 hle.not_gt
  · rw [hfound] at hcovered ⊢
    refine ⟨i, mem_above.mpr ⟨hi, hfloor⟩, rfl, h.snoc (of_decide_eq_false hunused) hi ?_⟩
    exact fun j hj hnot => hcovered j hj (decide_eq_false hnot)

theorem scan_of_covered {ps : List ℕ} (hcovered : ∀ j ∈ above score floor n, j ∈ ps) :
    (scan score floor n fun j => decide (j ∈ ps)).2 = 0 := by
  rcases scan_eq_or score floor n fun j => decide (j ∈ ps) with
    hnone | ⟨i, hi, hunused, hfloor, -⟩
  · rw [hnone]
  · exact absurd (hcovered i (mem_above.mpr ⟨hi, hfloor⟩)) (of_decide_eq_false hunused)

@[simp] theorem length_picks (k : ℕ) : (picks score floor n k).length = k := by
  induction k with
  | zero => rfl
  | succ k ih => rw [picks, List.length_append, ih, List.length_singleton]

/-- As many selections as there are places above the floor find such places, in order. -/
theorem ranked_picks {k : ℕ} (hk : k ≤ (above score floor n).card) :
    Ranked score n (picks score floor n k) ∧
      ∀ i ∈ picks score floor n k, i ∈ above score floor n := by
  induction k with
  | zero =>
    refine ⟨⟨List.nodup_nil, ?_, .nil, fun j _ _ i hi => absurd hi List.not_mem_nil⟩, ?_⟩
    all_goals exact fun i hi => absurd hi List.not_mem_nil
  | succ k ih =>
    obtain ⟨hranked, habove⟩ := ih (Nat.le_of_succ_le hk)
    obtain ⟨i, hi, hscan, hnext⟩ := scan_of_lt hranked ((length_picks k).trans_lt hk)
    rw [picks, hscan]
    refine ⟨hnext, fun j hj => ?_⟩
    rcases List.mem_append.mp hj with hj | hj
    · exact habove j hj
    · rw [List.mem_singleton.mp hj]
      exact hi

theorem mem_picks_card {j : ℕ} :
    j ∈ picks score floor n (above score floor n).card ↔ j ∈ above score floor n := by
  obtain ⟨hranked, habove⟩ := ranked_picks (le_refl (above score floor n).card)
  have hall : (picks score floor n (above score floor n).card).toFinset = above score floor n := by
    refine Finset.eq_of_subset_of_card_le (fun i hi => habove i (List.mem_toFinset.mp hi)) ?_
    rw [List.toFinset_card_of_nodup hranked.nodup, length_picks]
  rw [← List.mem_toFinset, hall]

theorem picks_add (k : ℕ) :
    picks score floor n ((above score floor n).card + k) =
      picks score floor n (above score floor n).card ++ List.replicate k 0 := by
  induction k with
  | zero => simp
  | succ k ih =>
    rw [← add_assoc, picks, scan_of_covered, ih, List.append_assoc, List.replicate_succ']
    intro j hj
    rw [ih]
    exact List.mem_append_left _ (mem_picks_card.mpr hj)

/-- When no score is below the floor, the selection is a ranking in two cases: it does not reach
beyond the places above the floor, or by one place only and place `0` is not among them. -/
theorem ranked_picks_iff (hfloor : ∀ j < n, floor ≤ score j) {k : ℕ} (hk : k ≤ n) :
    Ranked score n (picks score floor n k) ↔
      k ≤ (above score floor n).card ∨
        (k = (above score floor n).card + 1 ∧ score 0 = floor) := by
  rcases Nat.lt_or_ge (above score floor n).card k with hlt | hge
  · obtain ⟨m, rfl⟩ : ∃ m, k = (above score floor n).card + (m + 1) :=
      ⟨k - ((above score floor n).card + 1), by omega⟩
    have hpos : 0 < n := by omega
    rw [picks_add]
    constructor
    · intro hranked
      obtain ⟨-, hreplicate, hdisjoint⟩ := List.nodup_append.mp hranked.nodup
      have hm : m = 0 := by
        have := List.nodup_replicate.mp hreplicate
        omega
      have hzero : 0 ∉ picks score floor n (above score floor n).card := fun hmem =>
        hdisjoint 0 hmem 0 (List.mem_replicate.mpr ⟨Nat.succ_ne_zero m, rfl⟩) rfl
      rw [mem_picks_card, mem_above, not_and, not_lt] at hzero
      exact .inr ⟨by omega, le_antisymm (hzero hpos) (hfloor 0 hpos)⟩
    · rintro (hle | ⟨heq, hzero⟩)
      · omega
      · obtain rfl : m = 0 := by omega
        refine (ranked_picks le_rfl).1.snoc ?_ hpos fun j hj hnot => ?_
        · rw [mem_picks_card, mem_above, hzero]
          exact fun h => lt_irrefl _ h.2
        · rw [mem_picks_card, mem_above, not_and, not_lt] at hnot
          rw [hzero]
          exact hnot hj
  · exact iff_of_true (ranked_picks hge).1 (.inl hge)

end WorldZk.GreedySelection
