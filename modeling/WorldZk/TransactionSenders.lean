import WorldZk.NonceManager

/-!
# The prover's senders

`send_claim_with_retry` and `send_submit_with_retry` take a nonce, send the transaction with it and
wait for the receipt. After an error they ask the nonce manager to handle it, and then they give up
or take another nonce. Calls run in parallel over one manager, and a call is a task of it.

A nonce that a sender has taken leaves a gap when its send fails with an error that does not make
the manager sync: nobody sends with it, and the counter is above it.
-/

namespace WorldZk.TransactionSenders

open NonceManager StepRuns

/-! ## The errors -/

/-- The texts after which `is_retryable_error` gives up. -/
def PERMANENT_ERRORS : List String :=
  ["nonce too low", "insufficient funds", "execution reverted", "already claimed",
    "already completed", "request not found", "not pending", "invalid signature", "gas too low",
    "max fee per gas less than block base fee"]

/-- The texts after which it tries again. -/
def TRANSIENT_ERRORS : List String :=
  ["timeout", "timed out", "connection", "network", "rate limit", "too many requests", "429",
    "500", "502", "503", "504", "temporarily unavailable", "try again", "retry", "econnreset",
    "econnrefused", "socket hang up"]

/-- `is_retryable_error` on the lowercase error. -/
def isRetryableError (errorLower : List Char) : Bool :=
  let contains (text : String) : Bool := decide (text.toList <:+: errorLower)
  if PERMANENT_ERRORS.any contains then false
  else TRANSIENT_ERRORS.any contains

/-! ## The system -/

/-- Where a call is in its loop. -/
inductive SenderPhase
  /-- At the head of the loop, after so many attempts. -/
  | looping (attempts : ℕ)
  | sending (attempts : ℕ)
  /-- The transaction is broadcast and has no receipt yet. -/
  | confirming (attempts : ℕ)
  /-- In `handle_nonce_error`. -/
  | handling (attempts : ℕ) (errorLower : List Char)
  | returned (succeeded : Bool)
deriving DecidableEq

structure SenderSystem where
  manager : ManagerState
  phases : ℕ → SenderPhase
  /-- The nonces of all transactions that were ever broadcast. -/
  broadcast : List ℕ
  /-- The count that `new` or the last `sync_from_chain` has stored. -/
  lastSynced : ℕ

inductive SenderAction
  | takeNonce (task : ℕ)
  | sendAccepted (task : ℕ)
  | sendFailed (task : ℕ) (errorLower : List Char)
  | receiptArrived (task : ℕ)
  | receiptFailed (task : ℕ) (errorLower : List Char)
  | acquireLock (task : ℕ)
  | getTransactionCount (task : ℕ)
  | rpcError (task : ℕ)
  | swapNonce (task : ℕ)
  | resetPending (task : ℕ)
  | errorHandled (task : ℕ)
  | advance (count : ℕ)

def start (count : ℕ) : SenderSystem :=
  ⟨NonceManager.start count, fun _ => .looping 0, [], count⟩

def setPhase (s : SenderSystem) (task : ℕ) (phase : SenderPhase) : SenderSystem :=
  { s with phases := Function.update s.phases task phase }

/-- A call after an error was handled. -/
def afterError (maxRetries attempts : ℕ) (errorLower : List Char) : SenderPhase :=
  if !isRetryableError errorLower || decide (maxRetries ≤ attempts) then .returned false
  else .looping attempts

def step (maxRetries : ℕ) (s : SenderSystem) : SenderAction → Option SenderSystem
  | .takeNonce task =>
    match s.phases task with
    | .looping attempts =>
      (NonceManager.step s.manager (.nextNonce task)).map fun manager =>
        setPhase { s with manager := manager } task (.sending (attempts + 1))
    | _ => none
  | .sendAccepted task =>
    match s.phases task, s.manager.tasks task with
    | .sending attempts, .sent nonce =>
      some (setPhase { s with broadcast := s.broadcast ++ [nonce] } task (.confirming attempts))
    | _, _ => none
  | .sendFailed task errorLower =>
    match s.phases task with
    | .sending attempts =>
      (NonceManager.step s.manager (.handleNonceError task errorLower)).map fun manager =>
        setPhase { s with manager := manager } task (.handling attempts errorLower)
    | _ => none
  | .receiptArrived task =>
    match s.phases task with
    | .confirming _ =>
      (NonceManager.step s.manager (.transactionCompleted task)).map fun manager =>
        setPhase { s with manager := manager } task (.returned true)
    | _ => none
  | .receiptFailed task errorLower =>
    match s.phases task with
    | .confirming attempts =>
      (NonceManager.step s.manager (.handleNonceError task errorLower)).map fun manager =>
        setPhase { s with manager := manager } task (.handling attempts errorLower)
    | _ => none
  | .acquireLock task =>
    (NonceManager.step s.manager (.acquireLock task)).map fun manager =>
      { s with manager := manager }
  | .getTransactionCount task =>
    (NonceManager.step s.manager (.getTransactionCount task)).map fun manager =>
      { s with manager := manager }
  | .rpcError task =>
    (NonceManager.step s.manager (.rpcError task)).map fun manager =>
      setPhase { s with manager := manager } task (.returned false)
  | .swapNonce task =>
    (NonceManager.step s.manager (.swapNonce task)).map fun manager =>
      { s with manager := manager, lastSynced := manager.currentNonce }
  | .resetPending task =>
    (NonceManager.step s.manager (.resetPending task)).map fun manager =>
      { s with manager := manager }
  | .errorHandled task =>
    match s.phases task with
    | .handling attempts errorLower =>
      (NonceManager.step s.manager (.completeHandled task)).map fun manager =>
        setPhase { s with manager := manager } task (afterError maxRetries attempts errorLower)
    | _ => none
  | .advance count =>
    (NonceManager.step s.manager (.advance count)).map fun manager =>
      { s with manager := manager }

/-! ## Gaps -/

/-- The nonce whose error a task is syncing for, until the counter is overwritten. -/
def syncingFor : TaskState → Option ℕ
  | .waiting used => used
  | .locked used => used
  | .counted used _ => used
  | _ => none

/-- The task is sending with the nonce, or it is syncing after the send has failed. -/
def Carries (s : SenderSystem) (task nonce : ℕ) : Prop :=
  (∃ attempts, s.phases task = .sending attempts ∧ s.manager.tasks task = .sent nonce) ∨
    syncingFor (s.manager.tasks task) = some nonce

/-- Every nonce from the last synced count to that of a broadcast transaction is broadcast, is still
to be handed out, or is with a task whose send or sync has not ended. -/
def NoGap (s : SenderSystem) : Prop :=
  ∀ n ∈ s.broadcast, ∀ m, s.lastSynced ≤ m → m < n →
    m ∈ s.broadcast ∨ s.manager.currentNonce ≤ m ∨ ∃ task, Carries s task m

/-- Nothing is lost when the task drops the nonce. -/
def Dispensable (s : SenderSystem) (task nonce : ℕ) : Prop :=
  nonce < s.lastSynced ∨ s.manager.currentNonce ≤ nonce ∨ nonce ∈ s.broadcast ∨
    ∃ other, other ≠ task ∧ Carries s other nonce

/-- A send that fails without an error about the nonce, and a sync that fails, drop a nonce that can
be dropped. -/
def Regular (s : SenderSystem) : SenderAction → Prop
  | .sendFailed task errorLower => needsSync errorLower = false →
    ∀ nonce, s.manager.tasks task = .sent nonce → Dispensable s task nonce
  | .rpcError task =>
    ∀ nonce, s.manager.tasks task = .locked (some nonce) → Dispensable s task nonce
  | _ => True

/-! ## What an action does -/

variable {s t : SenderSystem} {a : SenderAction} {maxRetries : ℕ}

/-- What an action does to the nonces. -/
inductive Effect (s : SenderSystem) (a : SenderAction) (t : SenderSystem) : Prop
  | took (task attempts : ℕ) (idle : s.manager.tasks task = .idle)
      (synced : t.lastSynced = s.lastSynced) (sent : t.broadcast = s.broadcast)
      (current : t.manager.currentNonce = (s.manager.currentNonce + 1) % U64)
      (tasks : t.manager.tasks =
        Function.update s.manager.tasks task (.sent s.manager.currentNonce))
      (phases : t.phases = Function.update s.phases task (.sending (attempts + 1)))
  | accepted (task attempts nonce : ℕ) (sending : s.manager.tasks task = .sent nonce)
      (synced : t.lastSynced = s.lastSynced) (sent : t.broadcast = s.broadcast ++ [nonce])
      (manager : t.manager = s.manager)
      (phases : t.phases = Function.update s.phases task (.confirming attempts))
  | moved (task : ℕ) (state : TaskState) (phase : SenderPhase)
      (synced : t.lastSynced = s.lastSynced) (sent : t.broadcast = s.broadcast)
      (current : t.manager.currentNonce = s.manager.currentNonce)
      (tasks : t.manager.tasks = Function.update s.manager.tasks task state)
      (phases : t.phases = Function.update s.phases task phase)
      (keeps : Regular s a → ∀ nonce, Carries s task nonce →
        syncingFor state = some nonce ∨ Dispensable s task nonce)
  | overwritten (synced : t.lastSynced = t.manager.currentNonce) (sent : t.broadcast = s.broadcast)
  | unchanged (synced : t.lastSynced = s.lastSynced) (sent : t.broadcast = s.broadcast)
      (current : t.manager.currentNonce = s.manager.currentNonce)
      (tasks : t.manager.tasks = s.manager.tasks) (phases : t.phases = s.phases)

theorem Carries.of_phase {task nonce : ℕ} {state : TaskState} {phase : SenderPhase}
    (h : Carries s task nonce) (hphase : s.phases task = phase)
    (hsending : ∀ attempts, phase ≠ .sending attempts) (htask : s.manager.tasks task = state) :
    syncingFor state = some nonce := by
  rcases h with ⟨attempts, hsame, -⟩ | hsyncing
  · exact absurd (hphase.symm.trans hsame) (hsending attempts)
  · rwa [htask] at hsyncing

theorem Carries.of_state {task nonce : ℕ} {state : TaskState} (h : Carries s task nonce)
    (htask : s.manager.tasks task = state) (hsent : ∀ n, state ≠ .sent n) :
    syncingFor state = some nonce := by
  rcases h with ⟨_, -, hsame⟩ | hsyncing
  · exact absurd (htask.symm.trans hsame) (hsent nonce)
  · rwa [htask] at hsyncing

theorem Carries.of_sent {task nonce sent : ℕ} (h : Carries s task nonce)
    (htask : s.manager.tasks task = .sent sent) : nonce = sent := by
  rcases h with ⟨_, -, hsame⟩ | hsyncing
  · exact TaskState.sent.inj (hsame.symm.trans htask)
  · rw [htask] at hsyncing
    cases hsyncing

theorem step_effect (h : step maxRetries s a = some t) : Effect s a t := by
  cases a with
  | takeNonce task =>
    simp only [step] at h
    split at h
    case h_1 attempts hphase =>
      obtain ⟨manager, hmanager, rfl⟩ := Option.map_eq_some_iff.mp h
      simp only [NonceManager.step] at hmanager
      split at hmanager
      case h_1 hidle =>
        cases hmanager
        exact .took task attempts hidle rfl rfl rfl rfl rfl
      case h_2 => cases hmanager
    case h_2 => cases h
  | sendAccepted task =>
    simp only [step] at h
    split at h
    case h_1 attempts nonce hphase htask =>
      cases h
      exact .accepted task attempts nonce htask rfl rfl rfl rfl
    case h_2 => cases h
  | sendFailed task errorLower =>
    simp only [step] at h
    split at h
    case h_1 attempts hphase =>
      obtain ⟨manager, hmanager, rfl⟩ := Option.map_eq_some_iff.mp h
      simp only [NonceManager.step] at hmanager
      split at hmanager
      case h_1 nonce htask =>
        cases hmanager
        refine .moved task _ _ rfl rfl rfl rfl rfl fun hregular n hcarries => ?_
        obtain rfl := hcarries.of_sent htask
        cases hneeds : needsSync errorLower with
        | true => exact .inl rfl
        | false => exact .inr (hregular hneeds n htask)
      case h_2 => cases hmanager
    case h_2 => cases h
  | receiptArrived task | receiptFailed task =>
    simp only [step] at h
    split at h
    case h_1 attempts hphase =>
      obtain ⟨manager, hmanager, rfl⟩ := Option.map_eq_some_iff.mp h
      simp only [NonceManager.step] at hmanager
      split at hmanager
      case h_1 nonce htask =>
        cases hmanager
        refine .moved task _ _ rfl rfl rfl rfl rfl fun _ n hcarries => ?_
        cases hcarries.of_phase hphase (fun _ h => by cases h) htask
      case h_2 => cases hmanager
    case h_2 => cases h
  | acquireLock task =>
    obtain ⟨manager, hmanager, rfl⟩ := Option.map_eq_some_iff.mp h
    simp only [NonceManager.step] at hmanager
    split at hmanager
    case h_1 used htask _ =>
      cases hmanager
      refine .moved task _ _ rfl rfl rfl rfl (Function.update_eq_self task _).symm
        fun _ n hcarries => .inl ?_
      have hused : used = some n := hcarries.of_state htask fun _ h => by cases h
      exact hused
    case h_2 => cases hmanager
  | getTransactionCount task =>
    obtain ⟨manager, hmanager, rfl⟩ := Option.map_eq_some_iff.mp h
    simp only [NonceManager.step] at hmanager
    split at hmanager
    case h_1 used htask =>
      cases hmanager
      refine .moved task _ _ rfl rfl rfl rfl (Function.update_eq_self task _).symm
        fun _ n hcarries => .inl ?_
      have hused : used = some n := hcarries.of_state htask fun _ h => by cases h
      exact hused
    case h_2 => cases hmanager
  | rpcError task =>
    obtain ⟨manager, hmanager, rfl⟩ := Option.map_eq_some_iff.mp h
    simp only [NonceManager.step] at hmanager
    split at hmanager
    case h_1 used htask =>
      cases hmanager
      refine .moved task _ _ rfl rfl rfl rfl rfl fun hregular n hcarries => .inr (hregular n ?_)
      have hused : used = some n := hcarries.of_state htask fun _ h => by cases h
      rw [htask, hused]
    case h_2 => cases hmanager
  | swapNonce task =>
    obtain ⟨manager, hmanager, rfl⟩ := Option.map_eq_some_iff.mp h
    exact .overwritten rfl rfl
  | resetPending task =>
    obtain ⟨manager, hmanager, rfl⟩ := Option.map_eq_some_iff.mp h
    simp only [NonceManager.step] at hmanager
    split at hmanager
    case h_1 used htask =>
      cases hmanager
      refine .moved task _ _ rfl rfl rfl rfl (Function.update_eq_self task _).symm
        fun _ n hcarries => ?_
      cases hcarries.of_state htask fun _ h => by cases h
    case h_2 => cases hmanager
  | errorHandled task =>
    simp only [step] at h
    split at h
    case h_1 attempts errorLower hphase =>
      obtain ⟨manager, hmanager, rfl⟩ := Option.map_eq_some_iff.mp h
      simp only [NonceManager.step] at hmanager
      split at hmanager
      case h_1 nonce htask =>
        cases hmanager
        refine .moved task _ _ rfl rfl rfl rfl rfl fun _ n hcarries => ?_
        cases hcarries.of_state htask fun _ h => by cases h
      case h_2 => cases hmanager
    case h_2 => cases h
  | advance count =>
    obtain ⟨manager, hmanager, rfl⟩ := Option.map_eq_some_iff.mp h
    simp only [NonceManager.step] at hmanager
    split at hmanager
    case isTrue =>
      cases hmanager
      exact .unchanged rfl rfl rfl rfl rfl
    case isFalse => cases hmanager

/-! ## Runs -/

/-- Every nonce that has been handed out since the last synced count is broadcast or with a task. -/
def AllKept (s : SenderSystem) : Prop :=
  ∀ m, s.lastSynced ≤ m → m < s.manager.currentNonce → m ∈ s.broadcast ∨ ∃ task, Carries s task m

theorem Carries.of_update {task other nonce : ℕ} {state : TaskState} {phase : SenderPhase}
    (h : Carries s other nonce) (hother : other ≠ task)
    (htasks : t.manager.tasks = Function.update s.manager.tasks task state)
    (hphases : t.phases = Function.update s.phases task phase) : Carries t other nonce := by
  unfold Carries
  rw [htasks, hphases, Function.update_of_ne hother, Function.update_of_ne hother]
  exact h

theorem AllKept.step (h : AllKept s) (hregular : Regular s a)
    (hstep : step maxRetries s a = some t) : AllKept t := by
  intro m hsynced hcurrent
  cases step_effect hstep with
  | took task attempts idle synced sent current tasks phases =>
    rw [synced] at hsynced
    rw [current] at hcurrent
    by_cases hm : m = s.manager.currentNonce
    · subst hm
      refine .inr ⟨task, .inl ⟨attempts + 1, ?_, ?_⟩⟩
      · rw [phases, Function.update_self]
      · rw [tasks, Function.update_self]
    · have hlt : m < s.manager.currentNonce := by
        have := (Nat.mod_le _ _).trans_lt' hcurrent
        omega
      rw [sent]
      refine (h m hsynced hlt).imp_right fun ⟨other, hother⟩ => ⟨other, ?_⟩
      refine hother.of_update ?_ tasks phases
      rintro rfl
      cases hother.of_state idle fun _ h => by cases h
  | accepted task attempts nonce sending synced sent manager phases =>
    rw [synced] at hsynced
    rw [manager] at hcurrent
    rw [sent]
    rcases h m hsynced hcurrent with hsent | ⟨other, hother⟩
    · exact .inl (List.mem_append_left _ hsent)
    · by_cases htask : other = task
      · subst htask
        exact .inl (List.mem_append_right _ (List.mem_singleton.mpr (hother.of_sent sending)))
      · have htasks : t.manager.tasks =
            Function.update s.manager.tasks task (s.manager.tasks task) := by
          rw [manager, Function.update_eq_self]
        exact .inr ⟨other, hother.of_update htask htasks phases⟩
  | moved task state phase synced sent current tasks phases keeps =>
    rw [synced] at hsynced
    rw [current] at hcurrent
    rw [sent]
    rcases h m hsynced hcurrent with hsent | ⟨other, hother⟩
    · exact .inl hsent
    · by_cases htask : other = task
      · subst htask
        rcases keeps hregular m hother with
          hstate | hlow | hhigh | hsent | ⟨third, hthird, hcarries⟩
        · refine .inr ⟨other, .inr ?_⟩
          rw [tasks, Function.update_self]
          exact hstate
        · exact absurd hlow (not_lt.mpr hsynced)
        · exact absurd hhigh (not_le.mpr hcurrent)
        · exact .inl hsent
        · exact .inr ⟨third, hcarries.of_update hthird tasks phases⟩
      · exact .inr ⟨other, hother.of_update htask tasks phases⟩
  | overwritten synced sent =>
    rw [synced] at hsynced
    exact absurd hcurrent (not_lt.mpr hsynced)
  | unchanged synced sent current tasks phases =>
    rw [synced] at hsynced
    rw [current] at hcurrent
    rw [sent]
    refine (h m hsynced hcurrent).imp_right fun ⟨other, hother⟩ => ⟨other, ?_⟩
    unfold Carries
    rw [tasks, phases]
    exact hother

theorem AllKept.noGap (h : AllKept s) : NoGap s := by
  intro n _ m hsynced _
  by_cases hcurrent : m < s.manager.currentNonce
  · exact (h m hsynced hcurrent).imp_right .inr
  · exact .inr (.inl (not_lt.mp hcurrent))

/-- As long as failed sends and failed syncs drop only nonces that can be dropped, there is no
gap. -/
theorem noGap_of_meets {count : ℕ} {actions : List SenderAction}
    (hmeets : Meets (step maxRetries) Regular (start count) actions)
    (hrun : runSteps (step maxRetries) (start count) actions = some t) : NoGap t := by
  refine AllKept.noGap (runSteps_invariant (I := AllKept)
    (fun s a t hkept hregular hstep => hkept.step hregular hstep) ?_ hmeets hrun)
  exact fun m hsynced hcurrent => absurd hcurrent (not_lt.mpr hsynced)

/-- A handed out nonce that is neither broadcast nor with a task. -/
def Lost (s : SenderSystem) (nonce : ℕ) : Prop :=
  s.lastSynced ≤ nonce ∧ nonce < s.manager.currentNonce ∧ nonce ∉ s.broadcast ∧
    ∀ task, ¬Carries s task nonce

theorem lost_of_dropped {task nonce : ℕ} {state : TaskState} {phase : SenderPhase}
    (hdrop : ¬Dispensable s task nonce) (synced : t.lastSynced = s.lastSynced)
    (sent : t.broadcast = s.broadcast) (current : t.manager.currentNonce = s.manager.currentNonce)
    (htasks : t.manager.tasks = Function.update s.manager.tasks task state)
    (hphases : t.phases = Function.update s.phases task phase)
    (hphase : ∀ attempts, phase ≠ .sending attempts) (hstate : syncingFor state = none) :
    Lost t nonce := by
  simp only [Dispensable, not_or, not_lt, not_le, not_exists, not_and] at hdrop
  obtain ⟨hsynced, hcurrent, hsent, hothers⟩ := hdrop
  refine ⟨synced ▸ hsynced, current ▸ hcurrent, sent ▸ hsent, fun other hcarries => ?_⟩
  by_cases htask : other = task
  · subst htask
    have hcarried : t.manager.tasks other = state := by rw [htasks, Function.update_self]
    have hended : t.phases other = phase := by rw [hphases, Function.update_self]
    have hsyncing := hcarries.of_phase hended hphase hcarried
    rw [hstate] at hsyncing
    cases hsyncing
  · refine hothers other htask ?_
    unfold Carries at hcarries
    rwa [htasks, hphases, Function.update_of_ne htask, Function.update_of_ne htask] at hcarries

/-- Any other failure loses the nonce. -/
theorem lost_of_not_regular (h : step maxRetries s a = some t) (hnot : ¬Regular s a) :
    ∃ nonce, Lost t nonce := by
  cases a with
  | sendFailed task errorLower =>
    simp only [Regular, not_forall] at hnot
    obtain ⟨hneeds, nonce, htask, hdrop⟩ := hnot
    simp only [step] at h
    split at h
    case h_1 attempts hphase =>
      obtain ⟨manager, hmanager, rfl⟩ := Option.map_eq_some_iff.mp h
      simp only [NonceManager.step, htask, hneeds] at hmanager
      cases hmanager
      exact ⟨nonce, lost_of_dropped hdrop rfl rfl rfl rfl rfl (fun _ h => by cases h) rfl⟩
    case h_2 => cases h
  | rpcError task =>
    simp only [Regular, not_forall] at hnot
    obtain ⟨nonce, htask, hdrop⟩ := hnot
    obtain ⟨manager, hmanager, rfl⟩ := Option.map_eq_some_iff.mp h
    simp only [NonceManager.step, htask] at hmanager
    cases hmanager
    exact ⟨nonce, lost_of_dropped hdrop rfl rfl rfl rfl rfl (fun _ h => by cases h) rfl⟩
  | _ => exact absurd trivial hnot

theorem AllKept.not_lost (h : AllKept s) (nonce : ℕ) : ¬Lost s nonce := by
  rintro ⟨hsynced, hcurrent, hsent, hnone⟩
  rcases h nonce hsynced hcurrent with hbroadcast | ⟨task, hcarries⟩
  · exact hsent hbroadcast
  · exact hnone task hcarries

theorem AllKept.lost_none_iff {actions : List SenderAction} (h : AllKept s)
    (hrun : runSteps (TransactionSenders.step maxRetries) s actions = some t) :
    (∀ as u, as <+: actions → runSteps (TransactionSenders.step maxRetries) s as = some u →
        ∀ nonce, ¬Lost u nonce) ↔
      Meets (TransactionSenders.step maxRetries) Regular s actions := by
  induction actions generalizing s with
  | nil =>
    refine ⟨fun _ => trivial, fun _ as u has hu => ?_⟩
    obtain rfl := List.prefix_nil.mp has
    cases hu
    exact h.not_lost
  | cons a actions ih =>
    obtain ⟨s', hstep, hrest⟩ := runSteps_cons.mp hrun
    constructor
    · intro hkeeps
      have hregular : Regular s a := by
        by_contra hnot
        obtain ⟨nonce, hlost⟩ := lost_of_not_regular hstep hnot
        exact hkeeps [a] s' ⟨actions, rfl⟩ (runSteps_cons.mpr ⟨s', hstep, rfl⟩) nonce hlost
      refine .cons hregular hstep ((ih (h.step hregular hstep) hrest).mp fun as u has hu => ?_)
      exact hkeeps (a :: as) u (List.cons_prefix_cons.mpr ⟨rfl, has⟩)
        (runSteps_cons.mpr ⟨s', hstep, hu⟩)
    · intro hmeets as u has hu
      cases as with
      | nil =>
        cases hu
        exact h.not_lost
      | cons b as =>
        obtain ⟨rfl, hprefix⟩ := List.cons_prefix_cons.mp has
        obtain ⟨v, hv, hu⟩ := runSteps_cons.mp hu
        obtain rfl := Option.some.inj (hstep.symm.trans hv)
        exact (ih (h.step hmeets.1 hstep) hrest).mpr (hmeets.2 s' hstep) as u hprefix hu

/-- A run loses no nonce in any of its states if and only if its failed sends and failed syncs drop
only nonces that can be dropped. -/
theorem nothing_lost_iff {count : ℕ} {actions : List SenderAction}
    (hrun : runSteps (step maxRetries) (start count) actions = some t) :
    (∀ as u, as <+: actions → runSteps (step maxRetries) (start count) as = some u →
        ∀ nonce, ¬Lost u nonce) ↔
      Meets (step maxRetries) Regular (start count) actions :=
  AllKept.lost_none_iff (fun _ hsynced hcurrent => absurd hcurrent (not_lt.mpr hsynced)) hrun

/-- Two calls; the first one's transaction is refused as known, and its task syncs. -/
def refusedThenSent : List SenderAction :=
  [.takeNonce 0, .takeNonce 1, .sendAccepted 1, .sendFailed 0 "already known".toList,
    .acquireLock 0, .getTransactionCount 0, .swapNonce 0, .resetPending 0, .errorHandled 0,
    .receiptArrived 1, .takeNonce 2, .sendAccepted 2]

theorem refusedThenSent_noGap :
    ∃ t, runSteps (step 3) (start 0) refusedThenSent = some t ∧ t.broadcast = [1, 0] ∧ NoGap t := by
  have hneeds : needsSync "already known".toList = true := by decide
  have hmeets : Meets (step 3) Regular (start 0) refusedThenSent := by
    refine .cons trivial rfl (.cons trivial rfl (.cons trivial rfl (.cons ?_ rfl (.cons trivial rfl
      (.cons trivial rfl (.cons trivial rfl (.cons trivial rfl (.cons trivial rfl (.cons trivial rfl
      (.cons trivial rfl (.cons trivial rfl trivial)))))))))))
    intro hfalse
    rw [hneeds] at hfalse
    cases hfalse
  exact ⟨_, rfl, rfl, noGap_of_meets hmeets rfl⟩

/-- The first transaction of a call meets a lost connection, and the second one goes out. -/
def lostConnection : List SenderAction :=
  [.takeNonce 0, .sendFailed 0 "connection refused".toList, .errorHandled 0, .takeNonce 0,
    .sendAccepted 0]

theorem lostConnection_gap :
    ∃ t, runSteps (step 3) (start 0) lostConnection = some t ∧ t.broadcast = [1] ∧ ¬NoGap t := by
  refine ⟨_, rfl, rfl, fun hgap => ?_⟩
  rcases hgap 1 (List.mem_singleton_self 1) 0 le_rfl Nat.one_pos with
    hsent | hcurrent | ⟨task, hcarries⟩
  · cases List.mem_singleton.mp hsent
  · exact absurd hcurrent (by decide)
  · cases task with
    | zero =>
      rcases hcarries with ⟨_, hphase, -⟩ | hsyncing
      · cases hphase
      · cases hsyncing
    | succ task =>
      rcases hcarries with ⟨_, hphase, -⟩ | hsyncing
      · cases hphase
      · cases hsyncing

/-- The first transaction takes the nonce `0` and loses it. -/
theorem lostConnection_loses :
    ¬∀ as u, as <+: lostConnection → runSteps (step 3) (start 0) as = some u →
      ∀ nonce, ¬Lost u nonce := by
  refine (nothing_lost_iff rfl).not.mpr fun hmeets => ?_
  rcases (hmeets.2 _ rfl).1 (by decide) 0 rfl with
    hsynced | hcurrent | hsent | ⟨other, hother, ⟨_, hphase, -⟩ | hsyncing⟩
  · exact absurd hsynced (by decide)
  · exact absurd hcurrent (by decide)
  · cases hsent
  · cases other with
    | zero => exact hother rfl
    | succ other => cases hphase
  · cases other with
    | zero => exact hother rfl
    | succ other => cases hsyncing

end WorldZk.TransactionSenders
