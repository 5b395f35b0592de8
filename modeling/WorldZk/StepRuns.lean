import Mathlib.Data.List.Basic

/-!
# Runs of a step function

A system that takes one action after another is a step function into `Option`, with `none` for an
action that the state does not allow. The rule of this file is for runs whose actions meet a
condition in the state in which they are taken: what every such action keeps holds in every state
that such a run reaches.
-/

namespace WorldZk.StepRuns

variable {σ α : Type}

/-- The state after the actions, when each of them is allowed. -/
def runSteps (step : σ → α → Option σ) : σ → List α → Option σ
  | s, [] => some s
  | s, a :: as => (step s a).bind fun t => runSteps step t as

/-- Every action meets `ok` in the state in which it is taken. -/
def Meets (step : σ → α → Option σ) (ok : σ → α → Prop) : σ → List α → Prop
  | _, [] => True
  | s, a :: as => ok s a ∧ ∀ t, step s a = some t → Meets step ok t as

variable {step : σ → α → Option σ} {ok : σ → α → Prop} {I : σ → Prop} {s t : σ}

theorem runSteps_cons {a : α} {as : List α} :
    runSteps step s (a :: as) = some t ↔
      ∃ s', step s a = some s' ∧ runSteps step s' as = some t :=
  Option.bind_eq_some_iff

/-- One action of a run that meets the condition. -/
theorem Meets.cons {a : α} {as : List α} {s' : σ} (hok : ok s a) (hstep : step s a = some s')
    (h : Meets step ok s' as) : Meets step ok s (a :: as) := by
  refine ⟨hok, fun t ht => ?_⟩
  rw [hstep] at ht
  cases ht
  exact h

/-- The action after a part of a run. -/
theorem Meets.of_append {a : α} {bs : List α} (as : List α) (h : Meets step ok s (as ++ a :: bs))
    (hrun : runSteps step s as = some t) : ok t a := by
  induction as generalizing s with
  | nil =>
    cases hrun
    exact h.1
  | cons b as ih =>
    obtain ⟨s', hstep, hrest⟩ := runSteps_cons.mp hrun
    exact ih (h.2 s' hstep) hrest

theorem meets_true {as : List α} : Meets step (fun _ _ => True) s as := by
  induction as generalizing s with
  | nil => trivial
  | cons a as ih => exact ⟨trivial, fun _ _ => ih⟩

/-- A condition on the actions alone is one on the run. -/
theorem Meets.and_of_forall {p : α → Prop} {as : List α} (h : Meets step ok s as)
    (hall : ∀ a ∈ as, p a) : Meets step (fun s a => ok s a ∧ p a) s as := by
  induction as generalizing s with
  | nil => trivial
  | cons a as ih =>
    obtain ⟨hfirst, hrest⟩ := List.forall_mem_cons.mp hall
    exact ⟨⟨h.1, hfirst⟩, fun t hstep => ih (h.2 t hstep) hrest⟩

/-- What each action keeps, a run keeps. -/
theorem runSteps_invariant (hkeep : ∀ s a t, I s → ok s a → step s a = some t → I t)
    {as : List α} (hinv : I s) (hmeets : Meets step ok s as)
    (hrun : runSteps step s as = some t) : I t := by
  induction as generalizing s with
  | nil =>
    cases hrun
    exact hinv
  | cons a as ih =>
    obtain ⟨s', hstep, hrest⟩ := runSteps_cons.mp hrun
    exact ih (hkeep s a s' hinv hmeets.1 hstep) (hmeets.2 s' hstep) hrest

/-- When each action that meets the condition keeps an invariant, what the action meets by the
invariant is met in the whole run. -/
theorem Meets.imp {ok' : σ → α → Prop}
    (hkeep : ∀ s a t, I s → ok s a → step s a = some t → I t)
    (himp : ∀ s a t, I s → ok s a → step s a = some t → ok' s a) {as : List α} (hinv : I s)
    (hmeets : Meets step ok s as) (hrun : runSteps step s as = some t) :
    Meets step ok' s as := by
  induction as generalizing s with
  | nil => exact hmeets
  | cons a as ih =>
    obtain ⟨s', hstep, hrest⟩ := runSteps_cons.mp hrun
    have hok := hmeets.1
    exact Meets.cons (himp s a s' hinv hok hstep) hstep
      (ih (hkeep s a s' hinv hok hstep) (hmeets.2 s' hstep) hrest)

end WorldZk.StepRuns
