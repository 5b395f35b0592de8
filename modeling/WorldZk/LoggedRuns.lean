import WorldZk.CheckedRuns

/-!
# Computations with a log

A task that talks to the outside leaves a log of what it did, and it ends with a result or with an
error. What it did before an error stays in the log. The rule of this file is for properties of
everything in the log.
-/

namespace WorldZk.LoggedRuns

/-- A computation as its log, the earliest entry first, and its outcome. -/
structure Logged (ω ε α : Type) where
  log : List ω
  result : Except ε α

namespace Logged

variable {ω ε α β : Type}

def pure (a : α) : Logged ω ε α := ⟨[], .ok a⟩

def bind (x : Logged ω ε α) (f : α → Logged ω ε β) : Logged ω ε β :=
  match x.result with
  | .ok a => ⟨x.log ++ (f a).log, (f a).result⟩
  | .error e => ⟨x.log, .error e⟩

instance : Monad (Logged ω ε) where
  pure := pure
  bind := bind

/-- One entry. -/
def tell (entry : ω) : Logged ω ε Unit := ⟨[entry], .ok ()⟩

/-- A computation that leaves no entry. -/
def ofExcept (x : Except ε α) : Logged ω ε α := ⟨[], x⟩

/-- Every entry satisfies `P`, and a result satisfies `post`. -/
structure Logs (P : ω → Prop) (post : α → Prop) (x : Logged ω ε α) : Prop where
  log : ∀ entry ∈ x.log, P entry
  result : ∀ a, x.result = .ok a → post a

variable {P : ω → Prop} {post : α → Prop} {post' : β → Prop} {x : Logged ω ε α}

theorem logs_pure {a : α} (h : post a) : Logs P post (Pure.pure a : Logged ω ε α) where
  log := fun _ hentry => (by cases hentry)
  result := fun _ hresult => Except.ok.inj hresult ▸ h

theorem logs_tell {entry : ω} (h : P entry) :
    Logs P (fun _ => True) (tell entry : Logged ω ε Unit) where
  log := fun _ hentry => List.mem_singleton.mp hentry ▸ h
  result := fun _ _ => trivial

theorem logs_ofExcept {y : Except ε α} (h : ∀ a, y = .ok a → post a) :
    Logs P post (ofExcept y : Logged ω ε α) where
  log := fun _ hentry => (by cases hentry)
  result := h

theorem Logs.bind {f : α → Logged ω ε β} (hx : Logs P post x)
    (hf : ∀ a, post a → Logs P post' (f a)) : Logs P post' (x >>= f) := by
  change Logs P post' (Logged.bind x f)
  unfold Logged.bind
  split
  case h_1 a hresult =>
    have hrest := hf a (hx.result a hresult)
    refine ⟨fun entry hentry => ?_, hrest.result⟩
    exact (List.mem_append.mp hentry).elim (hx.log entry) (hrest.log entry)
  case h_2 => exact ⟨hx.log, fun _ hresult => (by cases hresult)⟩

theorem log_bind (x : Logged ω ε α) (f : α → Logged ω ε β) :
    (x >>= f).log = x.log ++
      match x.result with
      | .ok a => (f a).log
      | .error _ => [] := by
  change (Logged.bind x f).log = _
  unfold Logged.bind
  cases x.result with
  | ok a => rfl
  | error e => exact (List.append_nil _).symm

theorem mem_log_bind {f : α → Logged ω ε β} {a : α} {entry : ω} (hx : x.result = .ok a)
    (h : entry ∈ (f a).log) : entry ∈ (x >>= f).log := by
  change entry ∈ (Logged.bind x f).log
  simp only [Logged.bind, hx]
  exact List.mem_append_right _ h

theorem mem_log_bind_left {f : α → Logged ω ε β} {entry : ω} (h : entry ∈ x.log) :
    entry ∈ (x >>= f).log := by
  change entry ∈ (Logged.bind x f).log
  unfold Logged.bind
  split
  case h_1 => exact List.mem_append_left _ h
  case h_2 => exact h

end Logged

end WorldZk.LoggedRuns
