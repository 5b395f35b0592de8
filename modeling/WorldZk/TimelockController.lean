import WorldZk.OwnedContracts
import WorldZk.ReentrantCalls
import Mathlib.Logic.Function.Basic

/-!
# The timelock

`TimelockController`: the owner schedules operations with a delay and may cancel them, and anybody
may execute one when its delay has passed. The call to the target of an operation is an external
call in the sense of `ReentrantCalls`; there is no re-entrancy guard. The state also keeps the log
of what was scheduled, cancelled and executed.

In every run an operation is executed as it was scheduled, after its delay, at most once, and not
after it was cancelled.
-/

namespace WorldZk.TimelockController

open CheckedRuns ReentrantCalls OwnedContracts

/-! ## Storage -/

/-- `struct Operation`. -/
structure Scheduled where
  target : ℕ
  data : List UInt8
  readyTimestamp : ℕ
  executed : Bool
  cancelled : Bool
deriving DecidableEq

structure TimelockStorage where
  owner : ℕ
  minDelay : ℕ
  operations : ℕ → Scheduled

inductive TimelockError
  | notPayable
  | notOwner
  | operationAlreadyScheduled
  | operationNotScheduled
  | operationNotReady
  | operationAlreadyExecuted
  | operationCancelledError
  | delayBelowMinimum
  | executionFailed
  | zeroAddress
  | zeroDelay
  | panicOverflow
deriving DecidableEq, Repr

abbrev TimelockCall (α : Type) : Type := Except TimelockError α

/-- What happened to the operations, with the minimum delay in force when one was scheduled and
the times of scheduling and execution. -/
inductive LogEntry
  | scheduled (id target : ℕ) (data : List UInt8) (delay minDelay timestamp : ℕ)
  | cancelled (id : ℕ)
  | executed (id target : ℕ) (data : List UInt8) (timestamp : ℕ)
deriving DecidableEq

def LogEntry.id : LogEntry → ℕ
  | scheduled id .. => id
  | cancelled id => id
  | executed id .. => id

structure TimelockState where
  storage : TimelockStorage
  log : List LogEntry

inductive Operation
  | schedule (id target : ℕ) (data : List UInt8) (delay : ℕ)
  | execute (id : ℕ)
  | cancel (id : ℕ)
  | setMinDelay (minDelay : ℕ)
  | transferOwnership (newOwner : ℕ)
deriving DecidableEq

structure TimelockMessage where
  context : CallContext
  operation : Operation

/-- `target.call(data)`. -/
structure TargetCall where
  target : ℕ
  data : List UInt8

abbrev TimelockBody : Type := Body TargetCall Unit TimelockError TimelockState

/-! ## The functions -/

def setOperation (c : TimelockStorage) (id : ℕ) (op : Scheduled) : TimelockStorage :=
  { c with operations := Function.update c.operations id op }

def onlyOwner (c : TimelockStorage) (ctx : CallContext) : TimelockCall Unit :=
  require (ctx.sender == c.owner) .notOwner

def schedule (s : TimelockState) (ctx : CallContext) (id target : ℕ) (data : List UInt8)
    (delay : ℕ) : TimelockCall TimelockState := do
  let c := s.storage
  onlyOwner c ctx
  require (decide (c.minDelay ≤ delay)) .delayBelowMinimum
  require ((c.operations id).readyTimestamp == 0) .operationAlreadyScheduled
  require (target != 0) .zeroAddress
  let readyTimestamp ← checkedAdd .panicOverflow ctx.timestamp delay
  pure
    { storage := setOperation c id ⟨target, data, readyTimestamp, false, false⟩
      log := s.log ++ [.scheduled id target data delay c.minDelay ctx.timestamp] }

/-- The operation is scheduled, and neither executed nor cancelled. -/
def checkPending (c : TimelockStorage) (id : ℕ) : TimelockCall Unit := do
  let op := c.operations id
  require (op.readyTimestamp != 0) .operationNotScheduled
  require (!op.executed) .operationAlreadyExecuted
  require (!op.cancelled) .operationCancelledError

def checkReady (c : TimelockStorage) (ctx : CallContext) (id : ℕ) : TimelockCall Unit := do
  checkPending c id
  require (decide ((c.operations id).readyTimestamp ≤ ctx.timestamp)) .operationNotReady

/-- The state in which the target of an operation gets control. -/
def executing (s : TimelockState) (ctx : CallContext) (id : ℕ) : TimelockState :=
  let op := s.storage.operations id
  { storage := setOperation s.storage id { op with executed := true }
    log := s.log ++ [.executed id op.target op.data ctx.timestamp] }

def execute (s : TimelockState) (ctx : CallContext) (id : ℕ) : TimelockBody :=
  .after (checkReady s.storage ctx id) fun _ =>
    let op := s.storage.operations id
    .call ⟨op.target, op.data⟩ (executing s ctx id) fun answer s' =>
      match answer with
      | some _ => .done s'
      | none => .revert .executionFailed

def cancel (s : TimelockState) (ctx : CallContext) (id : ℕ) : TimelockCall TimelockState := do
  onlyOwner s.storage ctx
  checkPending s.storage id
  pure
    { storage := setOperation s.storage id { s.storage.operations id with cancelled := true }
      log := s.log ++ [.cancelled id] }

def setMinDelay (s : TimelockState) (ctx : CallContext) (minDelay : ℕ) :
    TimelockCall TimelockState := do
  onlyOwner s.storage ctx
  require (minDelay != 0) .zeroDelay
  pure { s with storage := { s.storage with minDelay := minDelay } }

def transferOwnership (s : TimelockState) (ctx : CallContext) (newOwner : ℕ) :
    TimelockCall TimelockState := do
  onlyOwner s.storage ctx
  require (newOwner != 0) .zeroAddress
  pure { s with storage := { s.storage with owner := newOwner } }

def dispatch (ctx : CallContext) (s : TimelockState) : Operation → TimelockBody
  | .schedule id target data delay => .ofExcept (schedule s ctx id target data delay)
  | .execute id => execute s ctx id
  | .cancel id => .ofExcept (cancel s ctx id)
  | .setMinDelay minDelay => .ofExcept (setMinDelay s ctx minDelay)
  | .transferOwnership newOwner => .ofExcept (transferOwnership s ctx newOwner)

/-- One message; no function is payable. -/
def timelockBody (tx : TimelockMessage) (s : TimelockState) : TimelockBody :=
  .after (require (tx.context.value == 0) TimelockError.notPayable) fun _ =>
    dispatch tx.context s tx.operation

/-- The constructor. -/
def construct (minDelay owner : ℕ) : TimelockCall TimelockState := do
  require (minDelay != 0) .zeroDelay
  require (owner != 0) .zeroAddress
  pure
    { storage := ⟨owner, minDelay, fun _ => ⟨0, [], 0, false, false⟩⟩
      log := [] }

/-! ## What the log says -/

/-- The log up to an execution allows it: the operation was scheduled once, with this target and
this data, with a delay that was not below the minimum in force and has passed, and it has been
neither cancelled nor executed. -/
structure Justified (log : List LogEntry) (id target : ℕ) (data : List UInt8) (timestamp : ℕ) :
    Prop where
  scheduled : ∃ delay minDelay scheduledAt,
    .scheduled id target data delay minDelay scheduledAt ∈ log ∧ minDelay ≤ delay ∧
      scheduledAt + delay ≤ timestamp ∧
      ∀ target' data' delay' minDelay' scheduledAt',
        .scheduled id target' data' delay' minDelay' scheduledAt' ∈ log →
          target' = target ∧ data' = data ∧ delay' = delay ∧ scheduledAt' = scheduledAt
  notCancelled : .cancelled id ∉ log
  notExecuted : ∀ target' data' timestamp', .executed id target' data' timestamp' ∉ log

/-- Every execution in the log is justified by what stands before it. -/
def Lawful (log : List LogEntry) : Prop :=
  ∀ before id target data timestamp after,
    log = before ++ .executed id target data timestamp :: after →
      Justified before id target data timestamp

/-- The record of an operation agrees with the log. -/
structure OperationOk (op : Scheduled) (id : ℕ) (log : List LogEntry) : Prop where
  unscheduled : op.readyTimestamp = 0 → ∀ e ∈ log, e.id ≠ id
  scheduled : op.readyTimestamp ≠ 0 → ∃ delay minDelay scheduledAt,
    .scheduled id op.target op.data delay minDelay scheduledAt ∈ log ∧ minDelay ≤ delay ∧
      scheduledAt + delay = op.readyTimestamp ∧
      ∀ target' data' delay' minDelay' scheduledAt',
        .scheduled id target' data' delay' minDelay' scheduledAt' ∈ log →
          target' = op.target ∧ data' = op.data ∧ delay' = delay ∧ scheduledAt' = scheduledAt
  cancelled : .cancelled id ∈ log → op.cancelled = true
  executed : ∀ target data timestamp, .executed id target data timestamp ∈ log →
    op.executed = true

structure TimelockInvariant (s : TimelockState) : Prop where
  operation : ∀ id, OperationOk (s.storage.operations id) id s.log
  lawful : Lawful s.log

variable {s s₀ t : TimelockState} {c : TimelockStorage} {ctx : CallContext} {id : ℕ}
  {log : List LogEntry} {e : LogEntry}

theorem lawful_append (h : Lawful log)
    (he : ∀ id target data timestamp, e = .executed id target data timestamp →
      Justified log id target data timestamp) : Lawful (log ++ [e]) := by
  intro before id target data timestamp after heq
  rcases List.eq_nil_or_concat after with rfl | ⟨init, last, rfl⟩
  · -- The execution is the new entry.
    obtain ⟨rfl, hlast⟩ := List.append_inj' heq rfl
    exact he _ _ _ _ (List.singleton_inj.mp hlast)
  · rw [List.concat_eq_append, ← List.cons_append, ← List.append_assoc] at heq
    obtain ⟨hlog, -⟩ := List.append_inj' heq rfl
    exact h before id target data timestamp init hlog

theorem OperationOk.append {op : Scheduled} (h : OperationOk op id log) (hne : e.id ≠ id) :
    OperationOk op id (log ++ [e]) := by
  have hmem : ∀ e', e'.id = id → e' ∈ log ++ [e] → e' ∈ log := by
    intro e' hid he'
    refine (List.mem_append.mp he').resolve_right fun hlast => ?_
    rw [List.mem_singleton.mp hlast] at hid
    exact hne hid
  refine ⟨fun hzero e' he' hid => ?_, fun hready => ?_, fun hin => ?_, fun target data time hin => ?_⟩
  · exact h.unscheduled hzero e' (hmem e' hid he') hid
  · obtain ⟨delay, minDelay, scheduledAt, hin, hmin, hsum, hunique⟩ := h.scheduled hready
    exact ⟨delay, minDelay, scheduledAt, List.mem_append_left _ hin, hmin, hsum,
      fun target' data' delay' minDelay' scheduledAt' hin' =>
        hunique _ _ _ _ _ (hmem _ rfl hin')⟩
  · exact h.cancelled (hmem _ rfl hin)
  · exact h.executed _ _ _ (hmem _ rfl hin)

/-! ## Every call keeps the invariant -/

/-- One operation is written and one entry about it is logged. -/
theorem TimelockInvariant.record {op : Scheduled} (h : TimelockInvariant s) (hid : e.id = id)
    (hop : OperationOk op id (s.log ++ [e]))
    (he : ∀ id target data timestamp, e = .executed id target data timestamp →
      Justified s.log id target data timestamp) :
    TimelockInvariant { storage := setOperation s.storage id op, log := s.log ++ [e] } := by
  refine ⟨fun id' => ?_, lawful_append h.lawful he⟩
  change OperationOk (Function.update s.storage.operations id op id') id' (s.log ++ [e])
  by_cases heq : id' = id
  · rw [heq, Function.update_self]
    exact hop
  · rw [Function.update_of_ne heq]
    refine (h.operation id').append ?_
    rw [hid]
    exact Ne.symm heq

theorem schedule_invariant {target delay : ℕ} {data : List UInt8} (h : TimelockInvariant s)
    (ht : schedule s ctx id target data delay = .ok t) : TimelockInvariant t := by
  simp only [schedule, bind_eq_ok, require_eq_ok, decide_eq_true_eq, beq_iff_eq, checkedAdd_eq_ok,
    pure_eq_ok] at ht
  obtain ⟨_, -, _, hmin, _, hzero, _, -, ready, ⟨-, rfl⟩, rfl⟩ := ht
  have hnone := (h.operation id).unscheduled hzero
  have hready : ctx.timestamp + delay ≠ 0 := by
    have := ctx.timestamp_pos
    omega
  have hnew : ∀ e', e'.id = id →
      e' ∈ s.log ++ [.scheduled id target data delay s.storage.minDelay ctx.timestamp] →
      e' = .scheduled id target data delay s.storage.minDelay ctx.timestamp := by
    intro e' hid he'
    rcases List.mem_append.mp he' with he' | he'
    · exact absurd hid (hnone e' he')
    · exact List.mem_singleton.mp he'
  refine h.record rfl ⟨fun hzero => absurd hzero hready, fun _ => ?_, fun hin => ?_,
    fun target data time hin => ?_⟩ fun _ _ _ _ heq => (by cases heq)
  · refine ⟨delay, s.storage.minDelay, ctx.timestamp,
      List.mem_append_right _ (List.mem_singleton_self _), hmin, rfl,
      fun target' data' delay' minDelay' scheduledAt' hin => ?_⟩
    cases hnew _ rfl hin
    exact ⟨rfl, rfl, rfl, rfl⟩
  · cases hnew _ rfl hin
  · cases hnew _ rfl hin

theorem checkPending_eq_ok {u : Unit} :
    checkPending c id = .ok u ↔ (c.operations id).readyTimestamp ≠ 0 ∧
      (c.operations id).executed = false ∧ (c.operations id).cancelled = false := by
  simp only [checkPending, bind_eq_ok, require_eq_ok, bne_iff_ne, Bool.not_eq_true', exists_const]

/-- A flag of a scheduled operation is set. -/
theorem OperationOk.mark {op op' : Scheduled} (h : OperationOk op id log)
    (hready : op.readyTimestamp ≠ 0)
    (hsame : op'.target = op.target ∧ op'.data = op.data ∧
      op'.readyTimestamp = op.readyTimestamp)
    (hscheduled : ∀ target data delay minDelay scheduledAt,
      e ≠ .scheduled id target data delay minDelay scheduledAt)
    (hcancelled : op.cancelled = true ∨ e = .cancelled id → op'.cancelled = true)
    (hexecuted : op.executed = true ∨ (∃ target data timestamp,
      e = .executed id target data timestamp) → op'.executed = true) :
    OperationOk op' id (log ++ [e]) := by
  obtain ⟨htarget, hdata, hsameReady⟩ := hsame
  refine ⟨fun hzero => absurd (hsameReady ▸ hzero) hready, fun _ => ?_, fun hin => ?_,
    fun target data timestamp hin => ?_⟩
  · obtain ⟨delay, minDelay, scheduledAt, hin, hmin, hsum, hunique⟩ := h.scheduled hready
    rw [htarget, hdata, hsameReady]
    refine ⟨delay, minDelay, scheduledAt, List.mem_append_left _ hin, hmin, hsum,
      fun target' data' delay' minDelay' scheduledAt' hin' => ?_⟩
    rcases List.mem_append.mp hin' with hin' | hin'
    · exact hunique _ _ _ _ _ hin'
    · exact absurd (List.mem_singleton.mp hin').symm (hscheduled _ _ _ _ _)
  · rcases List.mem_append.mp hin with hin | hin
    · exact hcancelled (.inl (h.cancelled hin))
    · exact hcancelled (.inr (List.mem_singleton.mp hin).symm)
  · rcases List.mem_append.mp hin with hin | hin
    · exact hexecuted (.inl (h.executed _ _ _ hin))
    · exact hexecuted (.inr ⟨_, _, _, (List.mem_singleton.mp hin).symm⟩)

theorem OperationOk.justified {op : Scheduled} {timestamp : ℕ} (h : OperationOk op id log)
    (hready : op.readyTimestamp ≠ 0) (hexecuted : op.executed = false)
    (hcancelled : op.cancelled = false) (htime : op.readyTimestamp ≤ timestamp) :
    Justified log id op.target op.data timestamp := by
  obtain ⟨delay, minDelay, scheduledAt, hin, hmin, hsum, hunique⟩ := h.scheduled hready
  refine ⟨⟨delay, minDelay, scheduledAt, hin, hmin, by omega, hunique⟩, fun hin => ?_,
    fun target data time hin => ?_⟩
  · rw [h.cancelled hin] at hcancelled
    cases hcancelled
  · rw [h.executed _ _ _ hin] at hexecuted
    cases hexecuted

theorem executing_invariant (h : TimelockInvariant s)
    (hcheck : checkReady s.storage ctx id = .ok ()) : TimelockInvariant (executing s ctx id) := by
  simp only [checkReady, bind_eq_ok, checkPending_eq_ok, require_eq_ok, decide_eq_true_eq] at hcheck
  obtain ⟨_, ⟨hready, hexecuted, hcancelled⟩, htime⟩ := hcheck
  have hop := h.operation id
  refine h.record rfl (hop.mark hready ⟨rfl, rfl, rfl⟩ (fun _ _ _ _ _ heq => by cases heq) ?_
    fun _ => rfl) fun id' target data timestamp heq => ?_
  · rintro (htrue | heq)
    · exact htrue
    · cases heq
  · cases heq
    exact hop.justified hready hexecuted hcancelled htime

theorem cancel_invariant (h : TimelockInvariant s) (ht : cancel s ctx id = .ok t) :
    TimelockInvariant t := by
  simp only [cancel, bind_eq_ok, checkPending_eq_ok, pure_eq_ok] at ht
  obtain ⟨_, -, _, ⟨hready, -, -⟩, rfl⟩ := ht
  refine h.record rfl ((h.operation id).mark hready ⟨rfl, rfl, rfl⟩
    (fun _ _ _ _ _ heq => by cases heq) (fun _ => rfl) ?_) fun _ _ _ _ heq => (by cases heq)
  rintro (htrue | ⟨_, _, _, heq⟩)
  · exact htrue
  · cases heq

/-- The invariant holds when the target gets control, and whatever it does through calls of the
timelock keeps it. -/
theorem guarantees : Guarantees timelockBody TimelockInvariant fun _ _ => True where
  refl := fun _ => trivial
  trans := fun _ _ _ _ _ => trivial
  safe := by
    intro tx s h
    refine Body.safe_after fun _ _ => ?_
    obtain ⟨ctx, operation⟩ := tx
    cases operation
    case schedule => exact Body.safe_ofExcept fun t ht => ⟨schedule_invariant h ht, trivial⟩
    case cancel => exact Body.safe_ofExcept fun t ht => ⟨cancel_invariant h ht, trivial⟩
    case execute =>
      refine Body.safe_after fun _ hcheck => ?_
      exact ⟨executing_invariant h hcheck, trivial, fun _ t ht _ => ⟨ht, trivial⟩⟩
    case setMinDelay =>
      refine Body.safe_ofExcept fun t ht => ⟨?_, trivial⟩
      simp only [setMinDelay, bind_eq_ok, pure_eq_ok] at ht
      obtain ⟨_, -, _, -, rfl⟩ := ht
      exact ⟨h.operation, h.lawful⟩
    case transferOwnership =>
      refine Body.safe_ofExcept fun t ht => ⟨?_, trivial⟩
      simp only [transferOwnership, bind_eq_ok, pure_eq_ok] at ht
      obtain ⟨_, -, _, -, rfl⟩ := ht
      exact ⟨h.operation, h.lawful⟩

theorem construct_invariant {minDelay owner : ℕ} (h : construct minDelay owner = .ok s) :
    TimelockInvariant s := by
  simp only [construct, bind_eq_ok, pure_eq_ok] at h
  obtain ⟨_, -, _, -, rfl⟩ := h
  refine ⟨fun id => ⟨fun _ e he => (List.not_mem_nil he).elim,
    fun hready => absurd rfl hready, fun he => (List.not_mem_nil he).elim,
    fun _ _ _ he => (List.not_mem_nil he).elim⟩, fun before id target data timestamp after heq => ?_⟩
  exact (List.append_ne_nil_of_right_ne_nil _ (List.cons_ne_nil _ _) heq.symm).elim

end WorldZk.TimelockController
