import WorldZk.ChallengeWatcher
import WorldZk.CircuitBreaker

/-!
# Automatic finalization

`auto_finalize`: a pass over the results that were submitted in a window of blocks. It shares a
circuit breaker with the tasks that answer challenges, and these may end at any time.
-/

namespace WorldZk.AutoFinalize

open ChallengeWatcher (TEEEvent)
open CircuitBreaker

/-- The configuration of `chain_cb`. -/
def chainConfig : CircuitBreakerConfig := ⟨3, 60 * 10 ^ 9, 1⟩

/-- The time around one call of `finalize`: when the breaker is asked, how the call ends, and which
calls of other tasks end before the one and before the other. -/
structure Call where
  before : List Record
  checkedAt : ℕ
  meanwhile : List Record
  outcome : Record

variable (config : CircuitBreakerConfig)

/-- The breaker when it is asked. -/
def beforeCheck (call : Call) (s : InnerState) : InnerState := call.before.foldl (record config) s

/-- The breaker after a call that it has allowed. -/
def afterCall (call : Call) (s : InnerState) : InnerState :=
  record config (call.meanwhile.foldl (record config) s) call.outcome

/-- The loop over the events, with the calls to come. -/
def finalizeLoop : List TEEEvent → (ℕ → Call) → InnerState → List (List UInt8) × InnerState
  | [], _, s => ([], s)
  | .resultSubmitted resultId :: events, calls, s =>
    let s := beforeCheck config (calls 0) s
    match allowRequest config (calls 0).checkedAt s with
    | (false, s) => ([], s)
    | (true, s) =>
      let rest := finalizeLoop events (fun k => calls (k + 1)) (afterCall config (calls 0) s)
      (resultId :: rest.1, rest.2)
  | _ :: events, calls, s => finalizeLoop events calls s

structure Breakers where
  rpc : InnerState
  chain : InnerState

/-- `auto_finalize`: the results for which it calls `finalize`, and the breakers after it. -/
def autoFinalize (rpcConfig : CircuitBreakerConfig) (rpcCheckedAt polledAt : ℕ)
    (poll : Option (List TEEEvent)) (calls : ℕ → Call) (breakers : Breakers) :
    List (List UInt8) × Breakers :=
  match allowRequest rpcConfig rpcCheckedAt breakers.rpc with
  | (false, rpc) => ([], { breakers with rpc })
  | (true, rpc) =>
    match poll with
    | none => ([], { breakers with rpc := recordFailure rpcConfig polledAt rpc })
    | some events =>
      let loop := finalizeLoop config events calls breakers.chain
      (loop.1, ⟨recordSuccess rpcConfig rpc, loop.2⟩)

/-- The results of the window. -/
def submittedResults (events : List TEEEvent) : List (List UInt8) :=
  events.filterMap fun
    | .resultSubmitted resultId => some resultId
    | _ => none

/-- The breaker when it is asked for the result with the given place, when it has allowed all
before it. -/
def breakerAt (calls : ℕ → Call) (s : InnerState) : ℕ → InnerState
  | 0 => beforeCheck config (calls 0) s
  | k + 1 =>
    let checked := allowRequest config (calls k).checkedAt (breakerAt calls s k)
    beforeCheck config (calls (k + 1)) (afterCall config (calls k) checked.2)

/-- Failed calls in a row before the call with the given place, with those before the pass. -/
def failuresInARow (calls : ℕ → Call) (carried : ℕ) : ℕ → ℕ
  | 0 => carried
  | k + 1 => if (calls k).outcome.succeeded then 0 else failuresInARow calls carried k + 1

variable {config} {calls : ℕ → Call} {s : InnerState} {resultId : List UInt8}

theorem breakerAt_shift (k : ℕ) :
    breakerAt config (fun k => calls (k + 1)) (afterCall config (calls 0)
        (allowRequest config (calls 0).checkedAt (beforeCheck config (calls 0) s)).2) k =
      breakerAt config calls s (k + 1) := by
  induction k with
  | zero => rfl
  | succ k ih => simp only [breakerAt, ih]

theorem mem_finalizeLoop_iff {events : List TEEEvent} :
    resultId ∈ (finalizeLoop config events calls s).1 ↔
      ∃ k, (submittedResults events)[k]? = some resultId ∧
        ∀ j ≤ k, ¬ Refuses config (calls j).checkedAt (breakerAt config calls s j) := by
  induction events generalizing calls s with
  | nil => exact iff_of_false List.not_mem_nil fun ⟨k, hk, _⟩ => by cases hk
  | cons event events ih =>
    cases event with
    | resultChallenged => exact ih
    | resultFinalized => exact ih
    | resultExpired => exact ih
    | disputeResolved => exact ih
    | resultSubmitted id =>
      have hids : submittedResults (.resultSubmitted id :: events) =
          id :: submittedResults events := rfl
      rw [hids, finalizeLoop]
      generalize hchecked : allowRequest config (calls 0).checkedAt
        (beforeCheck config (calls 0) s) = checked
      obtain ⟨allowed, s'⟩ := checked
      cases allowed with
      | false =>
        have hrefuses := allowRequest_eq_false_iff.mp (congrArg Prod.fst hchecked)
        refine iff_of_false List.not_mem_nil ?_
        rintro ⟨k, -, hallowed⟩
        exact hallowed 0 k.zero_le hrefuses
      | true =>
        have hfirst : ¬ Refuses config (calls 0).checkedAt (breakerAt config calls s 0) := by
          intro hrefuses
          have hfalse := allowRequest_eq_false_iff.mpr hrefuses
          rw [breakerAt, hchecked] at hfalse
          cases hfalse
        have hshift : ∀ k, breakerAt config (fun k => calls (k + 1))
            (afterCall config (calls 0) s') k = breakerAt config calls s (k + 1) := by
          intro k
          have hafter := @breakerAt_shift config calls s k
          rwa [hchecked] at hafter
        refine List.mem_cons.trans ?_
        rw [ih]
        simp only [hshift]
        constructor
        · rintro (rfl | ⟨k, hk, hallowed⟩)
          · exact ⟨0, rfl, fun j hj => Nat.le_zero.mp hj ▸ hfirst⟩
          · refine ⟨k + 1, hk, fun j hj => ?_⟩
            cases j with
            | zero => exact hfirst
            | succ j => exact hallowed j (Nat.le_of_succ_le_succ hj)
        · rintro ⟨k, hk, hallowed⟩
          cases k with
          | zero => exact .inl (Option.some.inj hk).symm
          | succ k => exact .inr ⟨k, hk, fun j hj => hallowed (j + 1) (Nat.succ_le_succ hj)⟩

/-! ## Passes that no other task disturbs -/

/-- No other task records a call during the pass, and each check follows on the call before it
within the timeout. -/
structure Undisturbed (config : CircuitBreakerConfig) (calls : ℕ → Call) : Prop where
  before : ∀ k, (calls k).before = []
  meanwhile : ∀ k, (calls k).meanwhile = []
  prompt : ∀ k, (calls (k + 1)).checkedAt - (calls k).outcome.now < config.recoveryTimeout

theorem breakerAt_succ (hundisturbed : Undisturbed config calls) {k : ℕ}
    (hclosed : (breakerAt config calls s k).state = .closed) :
    breakerAt config calls s (k + 1) = record config (breakerAt config calls s k)
      (calls k).outcome := by
  simp only [breakerAt, beforeCheck, afterCall, hundisturbed.before, hundisturbed.meanwhile,
    List.foldl_nil, allowRequest_snd, maybeTransitionToHalfOpen_of_closed hclosed]

/-- Below the threshold the breaker stays closed and counts the failures in a row. -/
theorem breakerAt_of_below (hundisturbed : Undisturbed config calls) (hclosed : s.state = .closed)
    {k : ℕ} (hbelow : ∀ j ≤ k, failuresInARow calls s.consecutiveFailures j <
      config.failureThreshold) :
    (breakerAt config calls s k).state = .closed ∧
      (breakerAt config calls s k).consecutiveFailures =
        failuresInARow calls s.consecutiveFailures k := by
  induction k with
  | zero =>
    rw [breakerAt, beforeCheck, hundisturbed.before]
    exact ⟨hclosed, rfl⟩
  | succ k ih =>
    obtain ⟨hstate, hcount⟩ := ih fun j hj => hbelow j (Nat.le_succ_of_le hj)
    obtain ⟨hfailures, hafter⟩ := @record_of_closed config _ hstate (calls k).outcome
    have hnext := hbelow (k + 1) (Nat.le_refl _)
    rw [breakerAt_succ hundisturbed hstate, hfailures, hcount]
    rw [failuresInARow] at hnext ⊢
    rw [hcount] at hafter
    cases hsucceeded : (calls k).outcome.succeeded with
    | true =>
      rw [hsucceeded, if_pos (.inl rfl)] at hafter
      exact ⟨hafter, rfl⟩
    | false =>
      rw [hsucceeded] at hnext
      rw [if_pos (.inr hnext)] at hafter
      exact ⟨hafter, rfl⟩

/-- With the failure that reaches the threshold the breaker opens. -/
theorem refuses_of_reached (hundisturbed : Undisturbed config calls) (hclosed : s.state = .closed)
    {k : ℕ} (hbelow : ∀ j ≤ k, failuresInARow calls s.consecutiveFailures j <
      config.failureThreshold)
    (hreached : config.failureThreshold ≤ failuresInARow calls s.consecutiveFailures (k + 1)) :
    Refuses config (calls (k + 1)).checkedAt (breakerAt config calls s (k + 1)) := by
  obtain ⟨hstate, hcount⟩ := breakerAt_of_below hundisturbed hclosed hbelow
  obtain ⟨-, hafter⟩ := @record_of_closed config _ hstate (calls k).outcome
  rw [failuresInARow] at hreached
  have hpos := hbelow k (Nat.le_refl k)
  cases hsucceeded : (calls k).outcome.succeeded with
  | true =>
    rw [hsucceeded, if_pos rfl] at hreached
    omega
  | false =>
    rw [hsucceeded] at hreached
    have hnot : ¬ ((calls k).outcome.succeeded = true ∨
        (breakerAt config calls s k).consecutiveFailures + 1 < config.failureThreshold) := by
      rw [hsucceeded, hcount]
      rintro (h | h)
      · cases h
      · exact absurd hreached (Nat.not_le.mpr h)
    rw [if_neg hnot] at hafter
    rw [breakerAt_succ hundisturbed hstate]
    refine ⟨hafter.1, fun openedAt hopened => ?_⟩
    rw [hafter.2] at hopened
    cases hopened
    exact hundisturbed.prompt k

theorem not_refuses_iff (hundisturbed : Undisturbed config calls) (hclosed : s.state = .closed)
    (hcarried : s.consecutiveFailures < config.failureThreshold) (k : ℕ) :
    (∀ j ≤ k, ¬ Refuses config (calls j).checkedAt (breakerAt config calls s j)) ↔
      ∀ j ≤ k, failuresInARow calls s.consecutiveFailures j < config.failureThreshold := by
  constructor
  · intro hallowed
    induction k with
    | zero => exact fun j hj => Nat.le_zero.mp hj ▸ hcarried
    | succ k ih =>
      have hbelow := ih fun j hj => hallowed j (Nat.le_succ_of_le hj)
      intro j hj
      rcases Nat.le_succ_iff.mp hj with hle | rfl
      · exact hbelow j hle
      · by_contra hreached
        exact hallowed (k + 1) (Nat.le_refl _)
          (refuses_of_reached hundisturbed hclosed hbelow (Nat.not_lt.mp hreached))
  · intro hbelow j hj hrefuses
    have hstate := (breakerAt_of_below hundisturbed hclosed
      fun i hi => hbelow i (Nat.le_trans hi hj)).1
    exact absurd (hstate.symm.trans hrefuses.1) nofun

/-- Every result of the window that can be finalized is attempted. -/
def AllAttempted (finalizable : List UInt8 → Prop) (events : List TEEEvent)
    (attempted : List (List UInt8)) : Prop :=
  ∀ resultId, .resultSubmitted resultId ∈ events → finalizable resultId → resultId ∈ attempted

theorem mem_submittedResults {events : List TEEEvent} :
    resultId ∈ submittedResults events ↔ .resultSubmitted resultId ∈ events := by
  rw [submittedResults, List.mem_filterMap]
  constructor
  · rintro ⟨event, hevent, hresult⟩
    cases event with
    | resultSubmitted id => exact Option.some.inj hresult ▸ hevent
    | resultChallenged | resultFinalized | resultExpired | disputeResolved => cases hresult
  · exact fun h => ⟨_, h, rfl⟩

/-- What a pass attempts when the node answers the poll. -/
theorem mem_autoFinalize_iff {rpcConfig : CircuitBreakerConfig} {rpcCheckedAt polledAt : ℕ}
    {events : List TEEEvent} {breakers : Breakers} :
    resultId ∈ (autoFinalize config rpcConfig rpcCheckedAt polledAt (some events) calls
        breakers).1 ↔
      ¬ Refuses rpcConfig rpcCheckedAt breakers.rpc ∧
        ∃ k, (submittedResults events)[k]? = some resultId ∧
          ∀ j ≤ k, ¬ Refuses config (calls j).checkedAt
            (breakerAt config calls breakers.chain j) := by
  rw [← mem_finalizeLoop_iff, ← allowRequest_eq_false_iff, autoFinalize]
  obtain ⟨allowed, rpc⟩ := allowRequest rpcConfig rpcCheckedAt breakers.rpc
  cases allowed with
  | false => exact iff_of_false List.not_mem_nil fun h => h.1 rfl
  | true => exact (and_iff_right nofun).symm

/-- A pass that reaches the node attempts every finalizable result exactly when the breaker of the
node lets it poll, and the other breaker has not been open for less than its timeout at any check
up to the result. When this one starts closed and nobody disturbs the pass, this means that there
are never as many failures in a row as its threshold. -/
theorem finalizable_attempted_iff (finalizable : List UInt8 → Prop)
    (config rpcConfig : CircuitBreakerConfig) (rpcCheckedAt polledAt : ℕ) (events : List TEEEvent)
    (calls : ℕ → Call) (breakers : Breakers) :
    (AllAttempted finalizable events
        (autoFinalize config rpcConfig rpcCheckedAt polledAt (some events) calls breakers).1 ↔
      ∀ resultId ∈ submittedResults events, finalizable resultId →
        ¬ Refuses rpcConfig rpcCheckedAt breakers.rpc ∧
        ∃ k, (submittedResults events)[k]? = some resultId ∧
          ∀ j ≤ k, ¬ Refuses config (calls j).checkedAt (breakerAt config calls breakers.chain j)) ∧
    (¬ Refuses rpcConfig rpcCheckedAt breakers.rpc → breakers.chain.state = .closed →
      breakers.chain.consecutiveFailures < config.failureThreshold → Undisturbed config calls →
      (AllAttempted finalizable events
          (autoFinalize config rpcConfig rpcCheckedAt polledAt (some events) calls breakers).1 ↔
        ∀ resultId ∈ submittedResults events, finalizable resultId →
          ∃ k, (submittedResults events)[k]? = some resultId ∧
            ∀ j ≤ k, failuresInARow calls breakers.chain.consecutiveFailures j <
              config.failureThreshold)) := by
  have hfirst : AllAttempted finalizable events
      (autoFinalize config rpcConfig rpcCheckedAt polledAt (some events) calls breakers).1 ↔
        ∀ resultId ∈ submittedResults events, finalizable resultId →
          ¬ Refuses rpcConfig rpcCheckedAt breakers.rpc ∧
          ∃ k, (submittedResults events)[k]? = some resultId ∧
            ∀ j ≤ k, ¬ Refuses config (calls j).checkedAt
              (breakerAt config calls breakers.chain j) :=
    forall_congr' fun resultId => imp_congr mem_submittedResults.symm
      (imp_congr_right fun _ => mem_autoFinalize_iff)
  refine ⟨hfirst, fun hrpc hclosed hcarried hundisturbed => hfirst.trans ?_⟩
  refine forall₂_congr fun resultId _ => imp_congr_right fun _ => ?_
  rw [and_iff_right hrpc]
  exact exists_congr fun k =>
    and_congr_right fun _ => not_refuses_iff hundisturbed hclosed hcarried k

/-- Three results whose calls revert, and then one that can be finalized. -/
def threeRevertsFirst : List TEEEvent :=
  [.resultSubmitted [1], .resultSubmitted [2], .resultSubmitted [3], .resultSubmitted [4]]

/-- One call in a second. -/
def secondCalls (k : ℕ) : Call :=
  ⟨[], k * 10 ^ 9, [], ⟨decide (3 ≤ k), k * 10 ^ 9 + 1⟩⟩

/-- The fourth result is not attempted. -/
theorem finalizable_after_three_reverts :
    (autoFinalize chainConfig CircuitBreakerConfig.default 0 0 (some threeRevertsFirst)
      secondCalls ⟨InnerState.new, InnerState.new⟩).1 = [[1], [2], [3]] ∧
    ¬ AllAttempted (· = [4]) threeRevertsFirst
      (autoFinalize chainConfig CircuitBreakerConfig.default 0 0 (some threeRevertsFirst)
        secondCalls ⟨InnerState.new, InnerState.new⟩).1 := by
  have hattempted : (autoFinalize chainConfig CircuitBreakerConfig.default 0 0
      (some threeRevertsFirst) secondCalls ⟨InnerState.new, InnerState.new⟩).1 =
        [[1], [2], [3]] := by
    decide
  refine ⟨hattempted, fun hall => ?_⟩
  have hfourth := hall [4] (by decide) rfl
  rw [hattempted] at hfourth
  exact absurd hfourth (by decide)

end WorldZk.AutoFinalize
