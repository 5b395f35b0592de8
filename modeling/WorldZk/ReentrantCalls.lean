import Mathlib.Data.Nat.Notation
import Mathlib.Logic.Relation

/-!
# Re-entrant calls

A function of a contract is cut at its external calls: at each of them it hands the state over,
and it goes on with the answer and the state that it gets back. While it waits, the callee may
call the contract again, any number of times and to any depth. The answer `none` is that of a
callee that reverted, and nothing that it did is kept.

The rule at the end is a rely-guarantee rule: what every function guarantees, under the
assumption that the calls made meanwhile guarantee it too, holds along every run.
-/

namespace WorldZk.ReentrantCalls

open Relation

/-- A function body as the external calls that it makes. -/
inductive Body (Q A ε σ : Type) where
  | done (s : σ)
  | revert (e : ε)
  | call (q : Q) (s : σ) (resume : Option A → σ → Body Q A ε σ)

namespace Body

variable {Q A ε σ : Type}

/-- A computation without external calls. -/
def ofExcept : Except ε σ → Body Q A ε σ
  | .ok s => .done s
  | .error e => .revert e

/-- A check, or another computation without external calls, before a body. -/
def after {α : Type} : Except ε α → (α → Body Q A ε σ) → Body Q A ε σ
  | .ok a, b => b a
  | .error e, _ => .revert e

/-- The same body with one more update at its end. -/
def atEnd (f : σ → σ) : Body Q A ε σ → Body Q A ε σ
  | .done s => .done (f s)
  | .revert e => .revert e
  | .call q s resume => .call q s fun a s' => (resume a s').atEnd f

/-- A function behind a re-entrancy guard: it reverts with `e` when the contract was entered
before. -/
def guarded (entered : σ → Bool) (setEntered : Bool → σ → σ) (e : ε) (s : σ)
    (f : σ → Body Q A ε σ) : Body Q A ε σ :=
  if entered s then .revert e else (f (setEntered true s)).atEnd (setEntered false)

/-- The body ends in the given state, when `act` is what may happen during a call. -/
def Ends (act : σ → σ → Prop) : Body Q A ε σ → σ → Prop
  | .done s, t => s = t
  | .revert _, _ => False
  | .call _ s resume, t =>
    (resume none s).Ends act t ∨ ∃ a s', act s s' ∧ (resume (some a) s').Ends act t

/-- The body waits at a call in the given state. -/
def Waits (act : σ → σ → Prop) : Body Q A ε σ → σ → Prop
  | .done _, _ => False
  | .revert _, _ => False
  | .call _ s resume, t =>
    s = t ∨ (resume none s).Waits act t ∨ ∃ a s', act s s' ∧ (resume (some a) s').Waits act t

/-- The same body over a larger state, of which it uses the second part only. -/
def within {ρ ε' : Type} (f : ε → ε') (r : ρ) : Body Q A ε σ → Body Q A ε' (ρ × σ)
  | .done s => .done (r, s)
  | .revert e => .revert (f e)
  | .call q s resume => .call q (r, s) fun a w => (resume a w.2).within f w.1

/-- The body run with fixed answers and nothing else happening. -/
def eval (answer : Q → Option A) : Body Q A ε σ → Except ε σ
  | .done s => .ok s
  | .revert e => .error e
  | .call q s resume => (resume (answer q) s).eval answer

/-- `I` holds at every call, and `post` at the end, when `I` holds again after each call and `G`
relates the states before and after it. -/
def Safe (I : σ → Prop) (G : σ → σ → Prop) (post : σ → Prop) : Body Q A ε σ → Prop
  | .done s => post s
  | .revert _ => True
  | .call _ s resume =>
    I s ∧ (resume none s).Safe I G post ∧
      ∀ a s', I s' → G s s' → (resume (some a) s').Safe I G post

variable {I : σ → Prop} {G act : σ → σ → Prop} {post post' : σ → Prop} {b : Body Q A ε σ} {t : σ}

@[simp] theorem safe_done {s : σ} : (done s : Body Q A ε σ).Safe I G post ↔ post s := Iff.rfl

@[simp] theorem safe_revert {e : ε} : (revert e : Body Q A ε σ).Safe I G post := trivial

theorem safe_ofExcept {x : Except ε σ} (h : ∀ s, x = .ok s → post s) :
    (ofExcept x : Body Q A ε σ).Safe I G post := by
  cases x with
  | ok s => exact h s rfl
  | error e => trivial

theorem safe_after {α : Type} {x : Except ε α} {f : α → Body Q A ε σ}
    (h : ∀ a, x = .ok a → (f a).Safe I G post) : (after x f).Safe I G post := by
  cases x with
  | ok a => exact h a rfl
  | error e => trivial

theorem Safe.mono (hpost : ∀ s, post s → post' s) (h : b.Safe I G post) : b.Safe I G post' := by
  induction b with
  | done s => exact hpost s h
  | revert e => trivial
  | call q s resume ih =>
    obtain ⟨hI, hfailed, hreturned⟩ := h
    exact ⟨hI, ih none s hfailed, fun a s' hs' hG => ih (some a) s' (hreturned a s' hs' hG)⟩

theorem safe_atEnd {f : σ → σ} (h : b.Safe I G fun s => post (f s)) :
    (b.atEnd f).Safe I G post := by
  induction b with
  | done s => exact h
  | revert e => trivial
  | call q s resume ih =>
    obtain ⟨hI, hfailed, hreturned⟩ := h
    exact ⟨hI, ih none s hfailed, fun a s' hs' hG => ih (some a) s' (hreturned a s' hs' hG)⟩

theorem safe_guarded {entered : σ → Bool} {setEntered : Bool → σ → σ} {e : ε} {s : σ}
    {f : σ → Body Q A ε σ}
    (h : entered s = false → (f (setEntered true s)).Safe I G fun t => post (setEntered false t)) :
    (guarded entered setEntered e s f).Safe I G post := by
  unfold guarded
  split
  case isTrue => trivial
  case isFalse hentered => exact safe_atEnd (h (Bool.eq_false_iff.mpr hentered))

/-- A body that does not use the first part of the state leaves it to the calls that it makes. -/
theorem safe_within {ρ ε' : Type} {f : ε → ε'} {r : ρ} {J : ρ → Prop} {R : ρ → ρ → Prop}
    (hrefl : ∀ r, R r r) (htrans : ∀ r r' r'', R r r' → R r' r'' → R r r'') (hr : J r) :
    (b.within f r).Safe (fun w => J w.1) (fun w w' => R w.1 w'.1) fun w => J w.1 ∧ R r w.1 := by
  induction b generalizing r with
  | done s => exact ⟨hr, hrefl r⟩
  | revert e => trivial
  | call q s resume ih =>
    refine ⟨hr, ih none s hr, fun a w hw hG => ?_⟩
    exact (ih (some a) w.2 hw).mono fun w' h => ⟨h.1, htrans _ _ _ hG h.2⟩

/-- A body keeps its promises within a larger state. -/
theorem safe_within_snd {ρ ε' : Type} {f : ε → ε'} {r : ρ} (h : b.Safe I G post) :
    (b.within f r).Safe (fun w => I w.2) (fun w w' => G w.2 w'.2) fun w => post w.2 := by
  induction b generalizing r with
  | done s => exact h
  | revert e => trivial
  | call q s resume ih =>
    obtain ⟨hI, hfailed, hreturned⟩ := h
    exact ⟨hI, ih none s hfailed, fun a w hw hG => ih (some a) w.2 (hreturned a w.2 hw hG)⟩

/-- Nothing is asked of a body that promises what does not depend on the state. -/
theorem safe_const {P : Prop} (hP : P) :
    b.Safe (fun _ => True) G fun _ => P := by
  induction b with
  | done s => exact hP
  | revert e => trivial
  | call q s resume ih => exact ⟨trivial, ih none s, fun a s' _ _ => ih (some a) s'⟩

/-- A safe body ends as promised when the calls keep `I` and guarantee `G`. -/
theorem Safe.ends (hact : ∀ s s', I s → act s s' → I s' ∧ G s s') (h : b.Safe I G post)
    (hb : b.Ends act t) : post t := by
  induction b with
  | done s =>
    obtain rfl := hb
    exact h
  | revert e => exact hb.elim
  | call q s resume ih =>
    obtain ⟨hI, hfailed, hreturned⟩ := h
    rcases hb with hb | ⟨a, s', hs', hb⟩
    · exact ih none s hfailed hb
    · obtain ⟨hI', hG⟩ := hact s s' hI hs'
      exact ih (some a) s' (hreturned a s' hI' hG) hb

theorem Safe.waits (hact : ∀ s s', I s → act s s' → I s' ∧ G s s') (h : b.Safe I G post)
    (hb : b.Waits act t) : I t := by
  induction b with
  | done s => exact hb.elim
  | revert e => exact hb.elim
  | call q s resume ih =>
    obtain ⟨hI, hfailed, hreturned⟩ := h
    rcases hb with rfl | hb | ⟨a, s', hs', hb⟩
    · exact hI
    · exact ih none s hfailed hb
    · obtain ⟨hI', hG⟩ := hact s s' hI hs'
      exact ih (some a) s' (hreturned a s' hI' hG) hb

theorem Ends.mono {act' : σ → σ → Prop} (hact : ∀ s s', act s s' → act' s s')
    (h : b.Ends act t) : b.Ends act' t := by
  induction b with
  | done s => exact h
  | revert e => exact h
  | call q s resume ih =>
    rcases h with h | ⟨a, s', hs', h⟩
    · exact .inl (ih none s h)
    · exact .inr ⟨a, s', hact s s' hs', ih (some a) s' h⟩

/-- Nothing happening during a call is one of the things that may happen. -/
theorem ends_of_eval (hact : ∀ s, act s s) {answer : Q → Option A} (h : b.eval answer = .ok t) :
    b.Ends act t := by
  induction b with
  | done s => exact Except.ok.inj h
  | revert e => cases h
  | call q s resume ih =>
    have hresume := ih (answer q) s h
    cases hanswer : answer q with
    | none =>
      rw [hanswer] at hresume
      exact .inl hresume
    | some a =>
      rw [hanswer] at hresume
      exact .inr ⟨a, s, hact s, hresume⟩

@[simp] theorem eval_after {α : Type} (x : Except ε α) (f : α → Body Q A ε σ)
    (answer : Q → Option A) : (after x f).eval answer = x >>= fun a => (f a).eval answer := by
  cases x <;> rfl

@[simp] theorem eval_atEnd (b : Body Q A ε σ) (f : σ → σ) (answer : Q → Option A) :
    (b.atEnd f).eval answer = f <$> b.eval answer := by
  induction b with
  | done s => rfl
  | revert e => rfl
  | call q s resume ih => exact ih (answer q) s

end Body

/-! ## Runs of a contract -/

section Contract

variable {T Q A ε σ : Type} (body : T → σ → Body Q A ε σ)

/-- A call that does not revert, with calls nested in it to a depth below the given one. -/
def StepAt : ℕ → σ → σ → Prop
  | 0 => fun _ _ => False
  | n + 1 => fun s t => ∃ tx, (body tx s).Ends (ReflTransGen (StepAt n)) t

/-- The call `tx` does not revert, whatever is called meanwhile. -/
def Calls (tx : T) (s t : σ) : Prop :=
  ∃ n, (body tx s).Ends (ReflTransGen (StepAt body n)) t

def Step (s t : σ) : Prop := ∃ tx, Calls body tx s t

/-- The states between transactions of a run. -/
def Run : σ → σ → Prop := ReflTransGen (Step body)

/-- The states of a run, those in which a function waits at a call included. -/
inductive Reachable (s₀ : σ) : σ → Prop
  | start : Reachable s₀ s₀
  | step {s t : σ} (tx : T) : Reachable s₀ s → Calls body tx s t → Reachable s₀ t
  | waits {s t : σ} (tx : T) (n : ℕ) : Reachable s₀ s →
      (body tx s).Waits (ReflTransGen (StepAt body n)) t → Reachable s₀ t

/-- A run with the messages of its transactions. -/
inductive Trace (s₀ : σ) : List T → σ → Prop
  | start : Trace s₀ [] s₀
  | step {txs : List T} {tx : T} {s t : σ} : Trace s₀ txs s → Calls body tx s t →
      Trace s₀ (txs ++ [tx]) t

variable {body} {I : σ → Prop} {G : σ → σ → Prop} {s s₀ t : σ} {tx : T}

theorem Reachable.of_run (h : Run body s t) : Reachable body s t := by
  induction h with
  | refl => exact .start
  | tail _ hstep ih =>
    obtain ⟨tx, hcalls⟩ := hstep
    exact ih.step tx hcalls

theorem Calls.of_eval {answer : Q → Option A} (h : (body tx s).eval answer = .ok t) :
    Calls body tx s t :=
  ⟨0, Body.ends_of_eval (fun _ => .refl) h⟩

/-- Several calls one after another, with fixed answers and nothing else happening. -/
def evalAll (body : T → σ → Body Q A ε σ) (answer : Q → Option A) (messages : List T) (s : σ) :
    Except ε σ :=
  messages.foldlM (fun s tx => (body tx s).eval answer) s

theorem Run.of_evalAll {answer : Q → Option A} {messages : List T}
    (h : evalAll body answer messages s = .ok t) : Run body s t := by
  induction messages generalizing s with
  | nil =>
    obtain rfl := Except.ok.inj h
    exact .refl
  | cons tx messages ih =>
    rw [evalAll, List.foldlM_cons] at h
    cases hu : (body tx s).eval answer with
    | error e =>
      rw [hu] at h
      cases h
    | ok u =>
      rw [hu] at h
      exact .head ⟨tx, .of_eval hu⟩ (ih h)

theorem StepAt.of_comap {T' : Type} {f : T' → T} (n : ℕ) :
    ∀ s t, StepAt (fun tx => body (f tx)) n s t → StepAt body n s t := by
  induction n with
  | zero => exact fun s t h => h
  | succ n ih =>
    rintro s t ⟨tx, hends⟩
    exact ⟨f tx, hends.mono (ReflTransGen.mono ih)⟩

/-- A call of a contract that takes some of the messages only. -/
theorem Calls.of_comap {T' : Type} {f : T' → T} {tx : T'}
    (h : Calls (fun tx => body (f tx)) tx s t) : Calls body (f tx) s t := by
  obtain ⟨n, hends⟩ := h
  exact ⟨n, hends.mono (ReflTransGen.mono (StepAt.of_comap n))⟩

/-- Every function keeps `I` and guarantees `G`, if the calls made meanwhile do. -/
structure Guarantees (body : T → σ → Body Q A ε σ) (I : σ → Prop) (G : σ → σ → Prop) : Prop where
  refl : ∀ s, G s s
  trans : ∀ s t u, G s t → G t u → G s u
  safe : ∀ tx s, I s → (body tx s).Safe I G fun t => I t ∧ G s t

namespace Guarantees

theorem true : Guarantees body (fun _ => True) fun _ _ => True where
  refl := fun _ => trivial
  trans := fun _ _ _ _ _ => trivial
  safe := fun _ _ _ => Body.safe_const ⟨trivial, trivial⟩

variable (hG : Guarantees body I G)
include hG

theorem reflTransGen {r : σ → σ → Prop} (hr : ∀ s t, I s → r s t → I t ∧ G s t) (hs : I s)
    (h : ReflTransGen r s t) : I t ∧ G s t := by
  induction h with
  | refl => exact ⟨hs, hG.refl s⟩
  | tail _ hstep ih =>
    obtain ⟨hI, hG'⟩ := hr _ _ ih.1 hstep
    exact ⟨hI, hG.trans _ _ _ ih.2 hG'⟩

/-- The induction is on the depth of the calls. -/
theorem stepAt (n : ℕ) : ∀ s t, I s → StepAt body n s t → I t ∧ G s t := by
  induction n with
  | zero => exact fun s t _ h => h.elim
  | succ n ih =>
    rintro s t hs ⟨tx, hends⟩
    have hpost := (hG.safe tx s hs).ends (fun s s' hs h => hG.reflTransGen ih hs h) hends
    exact hpost

/-- A promise about one body, under what all bodies guarantee. -/
theorem calls_post {post : σ → Prop} (hsafe : (body tx s).Safe I G post)
    (h : Calls body tx s t) : post t := by
  obtain ⟨n, hends⟩ := h
  exact hsafe.ends (fun s s' hs h => hG.reflTransGen (hG.stepAt n) hs h) hends

theorem calls (hs : I s) (h : Calls body tx s t) : I t ∧ G s t :=
  hG.calls_post (hG.safe tx s hs) h

theorem run (hs : I s) (h : Run body s t) : I t ∧ G s t :=
  hG.reflTransGen (fun _ _ hs ⟨_, h⟩ => hG.calls hs h) hs h

theorem reachable (hs : I s₀) (h : Reachable body s₀ t) : I t := by
  induction h with
  | start => exact hs
  | step tx _ hcalls ih => exact (hG.calls ih hcalls).1
  | waits tx n _ hwaits ih =>
    exact (hG.safe tx _ ih).waits (fun s s' hs h => hG.reflTransGen (hG.stepAt n) hs h) hwaits

end Guarantees

end Contract

end WorldZk.ReentrantCalls
