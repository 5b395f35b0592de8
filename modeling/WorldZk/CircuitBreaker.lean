import Mathlib.Algebra.Group.Nat.Defs
import Mathlib.Data.Nat.Notation
import Mathlib.Tactic.Common

/-!
# The circuit breaker

`CircuitBreaker`: it counts failures in a row, refuses requests after too many of them, and tries
again when a timeout has passed. Times are in nanoseconds.
-/

namespace WorldZk.CircuitBreaker

inductive BreakerState
  | closed
  | opened
  | halfOpen
deriving DecidableEq, Repr

structure CircuitBreakerConfig where
  failureThreshold : ℕ
  recoveryTimeout : ℕ
  successThresholdForClose : ℕ

def CircuitBreakerConfig.default : CircuitBreakerConfig := ⟨5, 30 * 10 ^ 9, 2⟩

structure InnerState where
  state : BreakerState
  consecutiveFailures : ℕ
  consecutiveSuccesses : ℕ
  openedAt : Option ℕ
deriving DecidableEq

def InnerState.new : InnerState := ⟨.closed, 0, 0, none⟩

variable (config : CircuitBreakerConfig)

def maybeTransitionToHalfOpen (now : ℕ) (s : InnerState) : InnerState :=
  if s.state = .opened then
    match s.openedAt with
    | some openedAt =>
      if config.recoveryTimeout ≤ now - openedAt then
        { s with state := .halfOpen, consecutiveSuccesses := 0 }
      else s
    | none => s
  else s

/-- Whether the request is allowed, and the state after the check. -/
def allowRequest (now : ℕ) (s : InnerState) : Bool × InnerState :=
  let s := maybeTransitionToHalfOpen config now s
  match s.state with
  | .closed | .halfOpen => (true, s)
  | .opened => (false, s)

def recordSuccess (s : InnerState) : InnerState :=
  let s := { s with consecutiveFailures := 0 }
  match s.state with
  | .halfOpen =>
    let s := { s with consecutiveSuccesses := s.consecutiveSuccesses + 1 }
    if config.successThresholdForClose ≤ s.consecutiveSuccesses then
      { s with state := .closed, openedAt := none, consecutiveSuccesses := 0 }
    else s
  | .closed => s
  | .opened => s

def recordFailure (now : ℕ) (s : InnerState) : InnerState :=
  let s := { s with consecutiveSuccesses := 0, consecutiveFailures := s.consecutiveFailures + 1 }
  match s.state with
  | .closed =>
    if config.failureThreshold ≤ s.consecutiveFailures then
      { s with state := .opened, openedAt := some now }
    else s
  | .halfOpen => { s with state := .opened, openedAt := some now }
  | .opened => s

/-- The end of a call. -/
structure Record where
  succeeded : Bool
  now : ℕ

def record (s : InnerState) (call : Record) : InnerState :=
  if call.succeeded then recordSuccess config s else recordFailure config call.now s

/-! ## What a check refuses -/

/-- The breaker has been open for less than the timeout. -/
def Refuses (now : ℕ) (s : InnerState) : Prop :=
  s.state = .opened ∧
    ∀ openedAt, s.openedAt = some openedAt → now - openedAt < config.recoveryTimeout

variable {config} {s : InnerState} {now : ℕ}

theorem allowRequest_snd :
    (allowRequest config now s).2 = maybeTransitionToHalfOpen config now s := by
  simp only [allowRequest]
  split <;> rfl

theorem allowRequest_eq_false_iff :
    (allowRequest config now s).1 = false ↔ Refuses config now s := by
  have hstate : (allowRequest config now s).1 = false ↔
      (maybeTransitionToHalfOpen config now s).state = .opened := by
    simp only [allowRequest]
    cases (maybeTransitionToHalfOpen config now s).state with
    | closed => exact iff_of_false nofun nofun
    | opened => exact iff_of_true rfl rfl
    | halfOpen => exact iff_of_false nofun nofun
  refine hstate.trans ?_
  unfold maybeTransitionToHalfOpen
  split
  case isTrue hopen =>
    split
    case h_1 openedAt hsince =>
      split
      case isTrue helapsed =>
        refine iff_of_false nofun fun h => ?_
        exact absurd (h.2 openedAt hsince) (Nat.not_lt.mpr helapsed)
      case isFalse helapsed =>
        refine iff_of_true hopen ⟨hopen, fun o ho => ?_⟩
        rw [hsince] at ho
        cases ho
        exact Nat.not_le.mp helapsed
    case h_2 hnone =>
      refine iff_of_true hopen ⟨hopen, fun o ho => ?_⟩
      rw [hnone] at ho
      cases ho
  case isFalse hopen => exact iff_of_false hopen fun h => hopen h.1

theorem maybeTransitionToHalfOpen_of_closed (h : s.state = .closed) :
    maybeTransitionToHalfOpen config now s = s :=
  if_neg (by rw [h]; nofun)

/-- A closed breaker after a call. -/
theorem record_of_closed (h : s.state = .closed) (call : Record) :
    (record config s call).consecutiveFailures =
        (if call.succeeded then 0 else s.consecutiveFailures + 1) ∧
      if call.succeeded ∨ s.consecutiveFailures + 1 < config.failureThreshold then
        (record config s call).state = .closed
      else (record config s call).state = .opened ∧
        (record config s call).openedAt = some call.now := by
  unfold record
  cases hcall : call.succeeded with
  | true => simp [recordSuccess, h]
  | false =>
    by_cases hbelow : s.consecutiveFailures + 1 < config.failureThreshold
    · simp [recordFailure, h, hbelow, Nat.not_le.mpr hbelow]
    · simp [recordFailure, h, hbelow, Nat.not_lt.mp hbelow]

end WorldZk.CircuitBreaker
