import Mathlib.Data.List.Count
import Mathlib.Tactic.Ring

/-!
# Sliding windows

A limiter remembers the times of the requests that it admitted during the last `span` and admits
another one when they are fewer than `limit`. Every closed interval of length `span` then holds at
most `limit` admitted requests, and an interval that `k` of them cover at most `k * limit`.
-/

namespace WorldZk.SlidingWindows

/-- One request: whether it is admitted, and the times that are remembered after it. -/
def check (span limit : ℕ) (window : List ℕ) (now : ℕ) : Bool × List ℕ :=
  let kept := window.dropWhile fun t => decide (t + span < now)
  if limit ≤ kept.length then (false, kept) else (true, kept ++ [now])

/-- The times of the requests that are admitted. -/
def admitted (span limit : ℕ) : List ℕ → List ℕ → List ℕ
  | _, [] => []
  | window, now :: times =>
    let rest := admitted span limit (check span limit window now).2 times
    if (check span limit window now).1 then now :: rest else rest

variable {span limit : ℕ} {window history times : List ℕ} {now last : ℕ}

theorem admitted_sublist (window times : List ℕ) :
    (admitted span limit window times).Sublist times := by
  induction times generalizing window with
  | nil => exact List.Sublist.refl _
  | cons now times ih =>
    rw [admitted]
    split
    · exact (ih _).cons_cons now
    · exact (ih _).cons now

/-! ## The bound for one window -/

/-- The limiter still remembers every time that may be in an interval with a request to come, and
no interval holds too many of the admitted times. -/
structure Counts (span limit : ℕ) (history window : List ℕ) (last : ℕ) : Prop where
  remembered : ∀ x, last ≤ x + span →
    history.countP (fun t => decide (x ≤ t)) ≤ window.countP (fun t => decide (x ≤ t))
  bounded : ∀ x, history.countP (fun t => decide (x ≤ t ∧ t ≤ x + span)) ≤ limit

theorem counts_nil : Counts span limit [] [] last := ⟨fun _ _ => le_rfl, fun _ => Nat.zero_le _⟩

private theorem countP_dropWhile {x : ℕ} (hx : now ≤ x + span) (window : List ℕ) :
    (window.dropWhile fun t => decide (t + span < now)).countP (fun t => decide (x ≤ t)) =
      window.countP (fun t => decide (x ≤ t)) := by
  induction window with
  | nil => rfl
  | cons t window ih =>
    by_cases ht : t + span < now
    · rw [List.dropWhile_cons_of_pos (by simpa using ht), ih,
        List.countP_cons_of_neg (by simp only [decide_eq_true_eq]; omega)]
    · rw [List.dropWhile_cons_of_neg (by simpa using ht)]

theorem Counts.forget (h : Counts span limit history window last) (hnow : last ≤ now) :
    Counts span limit history (window.dropWhile fun t => decide (t + span < now)) now where
  remembered x hx := by
    rw [countP_dropWhile hx]
    exact h.remembered x (hnow.trans hx)
  bounded := h.bounded

theorem Counts.push (h : Counts span limit history window now) (hlength : window.length < limit) :
    Counts span limit (history ++ [now]) (window ++ [now]) now where
  remembered x hx := by
    rw [List.countP_append, List.countP_append]
    exact Nat.add_le_add_right (h.remembered x hx) _
  bounded x := by
    rw [List.countP_append]
    by_cases hin : x ≤ now ∧ now ≤ x + span
    · have hrest : history.countP (fun t => decide (x ≤ t ∧ t ≤ x + span)) < limit :=
        calc history.countP (fun t => decide (x ≤ t ∧ t ≤ x + span))
            ≤ history.countP (fun t => decide (x ≤ t)) :=
              List.countP_mono_left fun t _ ht => by
                simp only [decide_eq_true_eq] at ht ⊢
                exact ht.1
          _ ≤ window.countP (fun t => decide (x ≤ t)) := h.remembered x hin.2
          _ ≤ window.length := List.countP_le_length
          _ < limit := hlength
      rw [List.countP_singleton, if_pos (by simpa using hin)]
      exact hrest
    · rw [List.countP_singleton, if_neg (by simpa using hin), Nat.add_zero]
      exact h.bounded x

/-- The admitted times after a run of requests at times that do not decrease. -/
theorem Counts.admitted (h : Counts span limit history window last)
    (htimes : (last :: times).Pairwise (· ≤ ·)) :
    ∀ x, (history ++ SlidingWindows.admitted span limit window times).countP
      (fun t => decide (x ≤ t ∧ t ≤ x + span)) ≤ limit := by
  induction times generalizing history window last with
  | nil =>
    rw [SlidingWindows.admitted, List.append_nil]
    exact h.bounded
  | cons now times ih =>
    obtain ⟨hlast, hrest⟩ := List.pairwise_cons.mp htimes
    have hforget := h.forget (hlast now List.mem_cons_self)
    rw [SlidingWindows.admitted]
    unfold check
    dsimp only
    by_cases hfull : limit ≤ (window.dropWhile fun t => decide (t + span < now)).length
    · rw [if_pos hfull]
      exact ih hforget hrest
    · rw [if_neg hfull, if_pos rfl, List.append_cons]
      exact ih (hforget.push (Nat.lt_of_not_le hfull)) hrest

/-! ## The bound for longer intervals -/

private theorem countP_le_add {p q r : ℕ → Bool}
    (h : ∀ t, p t = true → q t = true ∨ r t = true) (l : List ℕ) :
    l.countP p ≤ l.countP q + l.countP r := by
  induction l with
  | nil => exact Nat.zero_le _
  | cons t l ih =>
    rw [List.countP_cons, List.countP_cons, List.countP_cons]
    have ht := h t
    split <;> split <;> split <;> simp_all <;> omega

theorem countP_interval_le (hwindow : ∀ x,
    history.countP (fun t => decide (x ≤ t ∧ t ≤ x + span)) ≤ limit) (x k : ℕ) :
    history.countP (fun t => decide (x ≤ t ∧ t < x + k * span)) ≤ k * limit := by
  induction k with
  | zero =>
    rw [Nat.zero_mul, Nat.add_zero, Nat.zero_mul, Nat.le_zero, List.countP_eq_zero]
    intro t _
    simp only [decide_eq_true_eq]
    omega
  | succ k ih =>
    -- The last of the windows starts where the first `k` of them end.
    have hsplit : ∀ t, decide (x ≤ t ∧ t < x + (k + 1) * span) = true →
        decide (x ≤ t ∧ t < x + k * span) = true ∨
          decide (x + k * span ≤ t ∧ t ≤ x + k * span + span) = true := by
      intro t ht
      have hstep : (k + 1) * span = k * span + span := by ring
      simp only [decide_eq_true_eq] at ht ⊢
      omega
    calc history.countP (fun t => decide (x ≤ t ∧ t < x + (k + 1) * span))
        ≤ _ := countP_le_add hsplit history
      _ ≤ k * limit + limit := Nat.add_le_add ih (hwindow _)
      _ = (k + 1) * limit := by ring

end WorldZk.SlidingWindows
