import Mathlib.Data.List.Infix
import Mathlib.Logic.Function.Basic
import WorldZk.StepRuns

/-!
# The prover's nonce manager

`NonceManager` hands out nonces from an atomic counter and, after an error about a nonce, overwrites
the counter with the transaction count that it reads from the chain. Every atomic operation is an
action of its own here, so that the tasks interleave at all of them; the write lock is held from its
acquisition to the end of `sync_from_chain`.
-/

namespace WorldZk.NonceManager

open StepRuns

/-- The size of `AtomicU64`. -/
def U64 : ℕ := 0x10000000000000000

/-- Where a task is. A nonce that it carries is that of its transaction. -/
inductive TaskState
  | idle
  | sent (nonce : ℕ)
  /-- In `sync_from_chain`, before the lock; `used` is the nonce that `handle_nonce_error` got. -/
  | waiting (used : Option ℕ)
  | locked (used : Option ℕ)
  | counted (used : Option ℕ) (chainNonce : ℕ)
  | swapped (used : Option ℕ)
  /-- At the end of `handle_nonce_error`, before `transaction_completed`. -/
  | handled (nonce : ℕ)
  /-- `handle_nonce_error` failed, and `transaction_completed` was not called. -/
  | abandoned (nonce : ℕ)
deriving DecidableEq, Repr

/-- The nonce of a task whose transaction is not completed. -/
def TaskState.inFlight : TaskState → Option ℕ
  | idle => none
  | sent nonce => some nonce
  | waiting used => used
  | locked used => used
  | counted used _ => used
  | swapped used => used
  | handled nonce => some nonce
  | abandoned nonce => some nonce

/-- What a task becomes when `sync_from_chain` returns. -/
def TaskState.afterSync : Option ℕ → TaskState
  | none => idle
  | some nonce => handled nonce

/-- What a task becomes when `sync_from_chain` fails. -/
def TaskState.afterRpcError : Option ℕ → TaskState
  | none => idle
  | some nonce => abandoned nonce

structure ManagerState where
  currentNonce : ℕ
  pendingCount : ℕ
  syncLock : Option ℕ
  tasks : ℕ → TaskState
  /-- The transaction count of the chain. -/
  chainCount : ℕ

/-- The texts that `handle_nonce_error` looks for in the lowercase error. -/
def NONCE_ERRORS : List String :=
  ["nonce too low", "nonce too high", "replacement transaction underpriced", "already known"]

def needsSync (errorLower : List Char) : Bool :=
  NONCE_ERRORS.any fun text => decide (text.toList <:+: errorLower)

inductive Action
  | nextNonce (task : ℕ)
  | transactionCompleted (task : ℕ)
  | handleNonceError (task : ℕ) (errorLower : List Char)
  | syncFromChain (task : ℕ)
  | acquireLock (task : ℕ)
  | getTransactionCount (task : ℕ)
  | rpcError (task : ℕ)
  | swapNonce (task : ℕ)
  | resetPending (task : ℕ)
  | completeHandled (task : ℕ)
  /-- The chain's count grows. -/
  | advance (count : ℕ)

/-- The manager after `new`. -/
def start (count : ℕ) : ManagerState := ⟨count, 0, none, fun _ => .idle, count⟩

def setTask (s : ManagerState) (task : ℕ) (state : TaskState) : ManagerState :=
  { s with tasks := Function.update s.tasks task state }

/-- `fetch_sub(1)`, which wraps. -/
def fetchSub (n : ℕ) : ℕ := if n = 0 then 0xffffffffffffffff else n - 1

/-- `transaction_completed` on the counter. -/
def completePending (s : ManagerState) : ManagerState :=
  { s with pendingCount := fetchSub s.pendingCount }

def step (s : ManagerState) : Action → Option ManagerState
  | .nextNonce task =>
    match s.tasks task with
    | .idle => some (setTask
        { s with
          currentNonce := (s.currentNonce + 1) % U64
          pendingCount := (s.pendingCount + 1) % U64 }
        task (.sent s.currentNonce))
    | _ => none
  | .transactionCompleted task =>
    match s.tasks task with
    | .sent _ => some (setTask (completePending s) task .idle)
    | _ => none
  | .handleNonceError task errorLower =>
    match s.tasks task with
    | .sent nonce =>
      some (setTask s task (if needsSync errorLower then .waiting (some nonce) else .handled nonce))
    | _ => none
  | .syncFromChain task =>
    match s.tasks task with
    | .idle => some (setTask s task (.waiting none))
    | _ => none
  | .acquireLock task =>
    match s.tasks task, s.syncLock with
    | .waiting used, none => some (setTask { s with syncLock := some task } task (.locked used))
    | _, _ => none
  | .getTransactionCount task =>
    match s.tasks task with
    | .locked used => some (setTask s task (.counted used s.chainCount))
    | _ => none
  | .rpcError task =>
    match s.tasks task with
    | .locked used => some (setTask { s with syncLock := none } task (.afterRpcError used))
    | _ => none
  | .swapNonce task =>
    match s.tasks task with
    | .counted used chainNonce =>
      some (setTask { s with currentNonce := chainNonce } task (.swapped used))
    | _ => none
  | .resetPending task =>
    match s.tasks task with
    | .swapped used =>
      some (setTask { s with pendingCount := 0, syncLock := none } task (.afterSync used))
    | _ => none
  | .completeHandled task =>
    match s.tasks task with
    | .handled _ => some (setTask (completePending s) task .idle)
    | _ => none
  | .advance count => if s.chainCount ≤ count then some { s with chainCount := count } else none

/-! ## What an action does -/

variable {s t : ManagerState} {a : Action} {task : ℕ}

/-- What an action does to the counter and to the transactions in flight. -/
inductive Effect (s : ManagerState) (a : Action) (t : ManagerState) : Prop
  | allocated (task : ℕ) (action : a = .nextNonce task)
      (current : t.currentNonce = (s.currentNonce + 1) % U64)
      (tasks : t.tasks = Function.update s.tasks task (.sent s.currentNonce))
  | moved (task : ℕ) (state : TaskState) (current : t.currentNonce = s.currentNonce)
      (tasks : t.tasks = Function.update s.tasks task state)
      (carries : ∀ nonce, state.inFlight = some nonce → (s.tasks task).inFlight = some nonce)
  | overwritten (task chainNonce : ℕ) (used : Option ℕ) (action : a = .swapNonce task)
      (counted : s.tasks task = .counted used chainNonce) (current : t.currentNonce = chainNonce)
      (tasks : t.tasks = Function.update s.tasks task (.swapped used))
  | unchanged (current : t.currentNonce = s.currentNonce) (tasks : t.tasks = s.tasks)

private theorem inFlight_afterSync (used : Option ℕ) :
    (TaskState.afterSync used).inFlight = used := by
  cases used <;> rfl

private theorem inFlight_afterRpcError (used : Option ℕ) :
    (TaskState.afterRpcError used).inFlight = used := by
  cases used <;> rfl

theorem step_effect (h : step s a = some t) : Effect s a t := by
  cases a with
  | nextNonce task =>
    rw [step] at h
    split at h
    · cases h
      exact .allocated task rfl rfl rfl
    · cases h
  | handleNonceError task errorLower =>
    rw [step] at h
    split at h
    case h_1 nonce htask =>
      cases h
      refine .moved task _ rfl rfl fun n hn => ?_
      rw [htask]
      split at hn <;> exact hn
    case h_2 => cases h
  | acquireLock task =>
    rw [step] at h
    split at h
    case h_1 used htask _ =>
      cases h
      exact .moved task _ rfl rfl fun n hn => by rw [htask]; exact hn
    case h_2 => cases h
  | swapNonce task =>
    rw [step] at h
    split at h
    case h_1 used chainNonce htask =>
      cases h
      exact .overwritten task chainNonce used rfl htask rfl rfl
    case h_2 => cases h
  | resetPending task =>
    rw [step] at h
    split at h
    case h_1 used htask =>
      cases h
      exact .moved task _ rfl rfl fun n hn => by rw [htask, ← hn, inFlight_afterSync]; rfl
    case h_2 => cases h
  | rpcError task =>
    rw [step] at h
    split at h
    case h_1 used htask =>
      cases h
      exact .moved task _ rfl rfl fun n hn => by rw [htask, ← hn, inFlight_afterRpcError]; rfl
    case h_2 => cases h
  | advance count =>
    rw [step] at h
    split at h
    · cases h
      exact .unchanged rfl rfl
    · cases h
  | transactionCompleted task | completeHandled task =>
    rw [step] at h
    split at h
    · cases h
      exact .moved task .idle rfl rfl fun n hn => (by cases hn)
    · cases h
  | syncFromChain task | getTransactionCount task =>
    rw [step] at h
    split at h
    case h_1 htask =>
      cases h
      exact .moved task _ rfl rfl fun n hn => by rw [htask]; exact hn
    case h_2 => cases h

/-! ## Transactions in flight -/

/-- No two tasks have transactions in flight with one nonce. -/
def DistinctInFlight (s : ManagerState) : Prop :=
  ∀ i j nonce, (s.tasks i).inFlight = some nonce → (s.tasks j).inFlight = some nonce → i = j

/-- The counter is above every nonce in flight. -/
def BelowCounter (s : ManagerState) : Prop :=
  ∀ i nonce, (s.tasks i).inFlight = some nonce → nonce < s.currentNonce

/-- The count that a sync stores is above every nonce in flight, and the counter does not wrap. -/
def CountsInFlight (s : ManagerState) : Action → Prop
  | .nextNonce _ => s.currentNonce + 1 < U64
  | .swapNonce task =>
    ∀ used chainNonce, s.tasks task = .counted used chainNonce →
      ∀ i nonce, (s.tasks i).inFlight = some nonce → nonce < chainNonce
  | _ => True

/-- A task in flight after an update was in flight before, if the new state carries no new nonce. -/
private theorem inFlight_update {state : TaskState} {nonce : ℕ}
    (hcarries : ∀ n, state.inFlight = some n → (s.tasks task).inFlight = some n) (i : ℕ)
    (h : (Function.update s.tasks task state i).inFlight = some nonce) :
    (s.tasks i).inFlight = some nonce := by
  by_cases hi : i = task
  · subst hi
    rw [Function.update_self] at h
    exact hcarries nonce h
  · rwa [Function.update_of_ne hi] at h

theorem keeps_distinct (h : BelowCounter s ∧ DistinctInFlight s) (hok : CountsInFlight s a)
    (hstep : step s a = some t) : BelowCounter t ∧ DistinctInFlight t := by
  obtain ⟨hbelow, hdistinct⟩ := h
  cases step_effect hstep with
  | allocated task action current tasks =>
    subst action
    have hcurrent : t.currentNonce = s.currentNonce + 1 := by
      rw [current, Nat.mod_eq_of_lt hok]
    -- The new nonce is the counter itself, which no other task carries.
    have hcases : ∀ i nonce, (t.tasks i).inFlight = some nonce →
        i = task ∧ nonce = s.currentNonce ∨ i ≠ task ∧ (s.tasks i).inFlight = some nonce := by
      intro i nonce hi
      rw [tasks] at hi
      by_cases hne : i = task
      · subst hne
        rw [Function.update_self] at hi
        exact .inl ⟨rfl, (Option.some.inj hi).symm⟩
      · rw [Function.update_of_ne hne] at hi
        exact .inr ⟨hne, hi⟩
    refine ⟨fun i nonce hi => ?_, fun i j nonce hi hj => ?_⟩
    · rw [hcurrent]
      rcases hcases i nonce hi with ⟨-, rfl⟩ | ⟨-, hold⟩
      · exact Nat.lt_succ_self _
      · exact (hbelow i nonce hold).trans (Nat.lt_succ_self _)
    · rcases hcases i nonce hi with ⟨rfl, rfl⟩ | ⟨-, hi⟩ <;>
        rcases hcases j _ hj with ⟨hj, hnonce⟩ | ⟨-, hj⟩
      · exact hj.symm
      · exact absurd (hbelow j _ hj) (lt_irrefl _)
      · exact absurd (hnonce ▸ hbelow i nonce hi) (lt_irrefl _)
      · exact hdistinct i j nonce hi hj
  | moved task state current tasks carries =>
    refine ⟨fun i nonce hi => ?_, fun i j nonce hi hj => ?_⟩
    · rw [current]
      rw [tasks] at hi
      exact hbelow i nonce (inFlight_update carries i hi)
    · rw [tasks] at hi hj
      exact hdistinct i j nonce (inFlight_update carries i hi) (inFlight_update carries j hj)
  | overwritten task chainNonce used action counted current tasks =>
    subst action
    have hcarries : ∀ n, (TaskState.swapped used).inFlight = some n →
        (s.tasks task).inFlight = some n := by
      intro n hn
      rw [counted]
      exact hn
    refine ⟨fun i nonce hi => ?_, fun i j nonce hi hj => ?_⟩
    · rw [current]
      rw [tasks] at hi
      exact hok used chainNonce counted i nonce (inFlight_update hcarries i hi)
    · rw [tasks] at hi hj
      exact hdistinct i j nonce (inFlight_update hcarries i hi) (inFlight_update hcarries j hj)
  | unchanged current tasks =>
    refine ⟨fun i nonce hi => ?_, fun i j nonce hi hj => ?_⟩
    · rw [current]
      exact hbelow i nonce (tasks ▸ hi)
    · exact hdistinct i j nonce (tasks ▸ hi) (tasks ▸ hj)

/-- As long as a sync stores no count at or below a nonce in flight, no nonce is in flight twice. -/
theorem distinctInFlight_of_meets {count : ℕ} {actions : List Action}
    (hmeets : Meets step CountsInFlight (start count) actions)
    (hrun : runSteps step (start count) actions = some t) : DistinctInFlight t := by
  refine (runSteps_invariant (I := fun s => BelowCounter s ∧ DistinctInFlight s)
    (fun s a t hinv hok hstep => keeps_distinct hinv hok hstep) ⟨?_, ?_⟩ hmeets hrun).2
  · intro i nonce hi
    cases hi
  · intro i j nonce hi
    cases hi

/-- Two transactions complete and the chain has counted both when a task syncs. -/
def promptSync : List Action :=
  [.nextNonce 0, .nextNonce 1, .transactionCompleted 0, .advance 2,
    .handleNonceError 1 "nonce too low".toList, .acquireLock 1, .getTransactionCount 1,
    .swapNonce 1, .resetPending 1, .completeHandled 1, .nextNonce 0]

private theorem promptSync_meets : Meets step CountsInFlight (start 0) promptSync := by
  have hlow : ∀ n < 2, n + 1 < U64 := by decide
  refine .cons (hlow 0 (by decide)) rfl (.cons (hlow 1 (by decide)) rfl (.cons trivial rfl
    (.cons trivial rfl (.cons trivial rfl (.cons trivial rfl (.cons trivial rfl (.cons ?_ rfl
    (.cons trivial rfl (.cons trivial rfl (.cons ?_ rfl trivial))))))))))
  · rintro used chainNonce ⟨⟩ i nonce hi
    -- Only the task that syncs carries a nonce.
    match i, hi with
    | 1, hi =>
      cases hi
      decide
  · exact (by decide : 2 + 1 < U64)

theorem promptSync_distinct :
    ∃ t, runSteps step (start 0) promptSync = some t ∧ DistinctInFlight t :=
  ⟨_, rfl, distinctInFlight_of_meets promptSync_meets rfl⟩

/-- The first transaction is not counted yet when the second one's error makes its task sync. -/
def laggingSync : List Action :=
  [.nextNonce 0, .nextNonce 1, .handleNonceError 1 "already known".toList, .acquireLock 1,
    .getTransactionCount 1, .swapNonce 1, .resetPending 1, .completeHandled 1, .nextNonce 2]

theorem laggingSync_not_distinct :
    ∃ t, runSteps step (start 0) laggingSync = some t ∧ ¬DistinctInFlight t :=
  ⟨_, rfl, fun h => absurd (h 0 2 0 rfl rfl) (by decide)⟩

end WorldZk.NonceManager
