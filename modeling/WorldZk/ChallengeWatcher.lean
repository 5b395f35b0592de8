import Mathlib.Data.List.Basic
import Mathlib.Order.Basic
import WorldZk.HexText
import WorldZk.NamedInstances
import WorldZk.StepRuns

/-!
# The operator's watch loop

`cmd_watch` polls the chain for events, answers each challenge in a task of its own and writes its
block cursor and the ids it has processed to a state file. The cursor, the ids and the tasks move
separately, so every point at which the process can be interrupted is an action here.
-/

namespace WorldZk.ChallengeWatcher

open HexText StepRuns
open scoped NamedInstances

def MAX_PROCESSED_IDS : ℕ := 10000

/-- The permits of `proof_semaphore`. -/
def PROOF_PERMITS : ℕ := 10

/-- The 24 hours that `cmd_watch` gives a dispute. -/
def DISPUTE_WINDOW : ℕ := 86400

inductive TEEEvent
  | resultSubmitted (resultId : List UInt8)
  | resultChallenged (resultId : List UInt8)
  | resultFinalized (resultId : List UInt8)
  | resultExpired (resultId : List UInt8)
  | disputeResolved (resultId : List UInt8)
deriving DecidableEq, Repr

/-- `format!("0x{}", hex::encode(result_id))`. -/
def ridHex (resultId : List UInt8) : List Char := '0' :: 'x' :: hexEncode resultId

theorem ridHex_injective : Function.Injective ridHex := by
  intro r r' h
  simp only [ridHex, List.cons.injEq, true_and] at h
  exact hexEncode_injective h

/-! ## The tracker of processed ids -/

/-- `evict_excess`, and `from_vec` when a state file is read: the last ids are kept. -/
def evictExcess (ids : List (List Char)) : List (List Char) :=
  ids.drop (ids.length - MAX_PROCESSED_IDS)

/-- `ProcessedEventTracker::insert`. -/
def insertId (ids : List (List Char)) (id : List Char) : List (List Char) :=
  if id ∈ ids then ids else evictExcess (ids ++ [id])

theorem mem_of_mem_evictExcess {ids : List (List Char)} {id : List Char}
    (h : id ∈ evictExcess ids) : id ∈ ids :=
  List.mem_of_mem_drop h

theorem mem_of_mem_insertId {ids : List (List Char)} {id x : List Char} (h : x ∈ insertId ids id) :
    x ∈ ids ∨ x = id := by
  rw [insertId] at h
  split at h
  · exact .inl h
  · simpa using mem_of_mem_evictExcess h

/-- What the state file holds. -/
structure OperatorState where
  lastPolledBlock : ℕ
  activeDisputes : List (List Char × ℕ)
  processedEventIds : List (List Char)
deriving DecidableEq, Repr

/-- `OperatorState::default()`. -/
def emptyState : OperatorState := ⟨0, [], []⟩

/-! ## One process -/

structure Process where
  dryRun : Bool
  shuttingDown : Bool
  opState : OperatorState
  fromBlock : ℕ
  /-- The events of the poll that are still to be looked at, inside a cycle of the loop. -/
  batch : Option (List TEEEvent)
  /-- The result ids of the spawned tasks that hold a permit. -/
  tasks : List (List UInt8)

def Process.start (dryRun : Bool) (opState : OperatorState) : Process :=
  ⟨dryRun, false, opState, opState.lastPolledBlock, none, []⟩

/-- The events that the process has polled and not looked at. -/
def Process.pending (p : Process) : List TEEEvent := p.batch.getD []

/-- What the process writes to the state file. -/
def Process.snapshot (p : Process) : OperatorState :=
  { p.opState with lastPolledBlock := p.fromBlock }

/-- `active_disputes.insert`. -/
def trackDispute (st : OperatorState) (rid : List Char) (deadline : ℕ) : OperatorState :=
  { st with activeDisputes := (rid, deadline) :: st.activeDisputes.filter (·.1 ≠ rid) }

/-- `active_disputes.remove`. -/
def untrackDispute (st : OperatorState) (rid : List Char) : OperatorState :=
  { st with activeDisputes := st.activeDisputes.filter (·.1 ≠ rid) }

def markProcessed (st : OperatorState) (rid : List Char) : OperatorState :=
  { st with processedEventIds := insertId st.processedEventIds rid }

/-- The body of the loop over a poll's events. -/
def Process.onEvent (p : Process) (now : ℕ) : TEEEvent → Process
  | .resultChallenged resultId =>
    let rid := ridHex resultId
    if rid ∈ p.opState.processedEventIds then p
    else
      let opState := trackDispute p.opState rid (now + DISPUTE_WINDOW)
      if p.dryRun then { p with opState := markProcessed opState rid }
      else if p.tasks.length < PROOF_PERMITS then
        { p with opState := markProcessed opState rid, tasks := resultId :: p.tasks }
      -- No permit: skipped without a mark, and the loop goes on to the next event.
      else { p with opState }
  | .resultSubmitted _ => p
  | .resultFinalized resultId | .resultExpired resultId | .disputeResolved resultId =>
    { p with opState := untrackDispute p.opState (ridHex resultId) }

/-- One turn of the loop over a poll's events, with its `break` when the shutdown has begun. -/
def Process.nextEvent (p : Process) (now : ℕ) : Option Process :=
  match p.batch with
  | some (event :: rest) =>
    if p.shuttingDown then some { p with batch := some [] }
    else some { p.onEvent now event with batch := some rest }
  | _ => none

/-! ## The chain, the state file and the process -/

structure World where
  latest : ℕ
  /-- The events of the contract with their blocks. -/
  events : List (ℕ × TEEEvent)
  stateFile : Option OperatorState
  process : Option Process
  /-- The result ids for which `handle_challenge` ran to its end. -/
  handled : List (List UInt8)

def World.start : World := ⟨0, [], none, none, []⟩

/-- What a process finds when the state file can be read. -/
def World.stored (w : World) : OperatorState :=
  match w.stateFile with
  | none => emptyState
  | some st => { st with processedEventIds := evictExcess st.processedEventIds }

/-- `load_or_default`: a file that cannot be read or parsed counts as missing. -/
def World.loadOrDefault (w : World) (readable : Bool) : OperatorState :=
  if readable then w.stored else emptyState

/-- `poll_events`, with the error path that leaves the cursor where it was. -/
def World.pollEvents (w : World) (fromBlock : ℕ) (answered : Bool) : List TEEEvent × ℕ :=
  if answered = false ∨ w.latest < fromBlock then ([], fromBlock)
  else ((w.events.filter fun e => fromBlock ≤ e.1 ∧ e.1 ≤ w.latest).map (·.2), w.latest + 1)

/-- `StateStore::save`, which replaces the file as a whole or not at all. -/
def World.save (w : World) (st : OperatorState) (written : Bool) : World :=
  { w with stateFile := if written then some st else w.stateFile }

inductive Action
  /-- The chain gets a block with these events. -/
  | mineBlock (events : List TEEEvent)
  | startProcess (dryRun readable : Bool)
  | pollEvents (answered : Bool)
  | nextEvent (now : ℕ)
  /-- The end of a cycle. -/
  | persist (written : Bool)
  | taskDone (resultId : List UInt8)
  | taskCancelled (resultId : List UInt8)
  | signalShutdown
  /-- The loop has ended and the tasks are done or the wait for them timed out. -/
  | exitProcess (written : Bool)
  | crash

/-- The process of a world that has one, where it is in the state that the action needs. -/
def World.running (w : World) (allowed : Process → Bool) : Option Process :=
  w.process.filter allowed

def step (w : World) : Action → Option World
  | .mineBlock events =>
    some { w with
      latest := w.latest + 1
      events := w.events ++ events.map fun e => (w.latest + 1, e) }
  | .startProcess dryRun readable =>
    match w.process with
    | none => some { w with process := some (.start dryRun (w.loadOrDefault readable)) }
    | some _ => none
  | .pollEvents answered =>
    (w.running fun p => p.batch.isNone && !p.shuttingDown).map fun p =>
      let (events, nextBlock) := w.pollEvents p.fromBlock answered
      { w with process := some { p with batch := some events, fromBlock := nextBlock } }
  | .nextEvent now =>
    (w.process.bind fun p => p.nextEvent now).map fun p => { w with process := some p }
  | .persist written =>
    (w.running fun p => p.batch == some []).map fun p =>
      { w.save p.snapshot written with
        process := some { p with opState := p.snapshot, batch := none } }
  | .taskDone resultId =>
    (w.running fun p => p.tasks.contains resultId).map fun p =>
      { w with
        process := some { p with tasks := p.tasks.erase resultId }
        handled := resultId :: w.handled }
  | .taskCancelled resultId =>
    (w.running fun p => p.tasks.contains resultId && p.shuttingDown).map fun p =>
      { w with process := some { p with tasks := p.tasks.erase resultId } }
  | .signalShutdown =>
    (w.running fun _ => true).map fun p => { w with process := some { p with shuttingDown := true } }
  | .exitProcess written =>
    (w.running fun p => p.batch.isNone && p.shuttingDown).map fun p =>
      { w.save p.snapshot written with process := none }
  | .crash => (w.running fun _ => true).map fun _ => { w with process := none }

theorem running_eq_some {w : World} {allowed : Process → Bool} {p : Process} :
    w.running allowed = some p ↔ w.process = some p ∧ allowed p = true := by
  rw [World.running, Option.filter_eq_some_iff]

/-! ## No challenge is lost -/

/-- `handle_challenge` ran to its end for the result, or a task of the process runs it. -/
def World.Taken (w : World) (resultId : List UInt8) : Prop :=
  resultId ∈ w.handled ∨ ∃ p, w.process = some p ∧ resultId ∈ p.tasks

/-- The process is still going to handle a challenge of the block: a task runs, or the process has
not marked it and has its event in the poll at hand or in one to come. -/
def World.StillToHandle (w : World) (block : ℕ) (resultId : List UInt8) : Prop :=
  ∃ p, w.process = some p ∧ (resultId ∈ p.tasks ∨
    p.shuttingDown = false ∧ ridHex resultId ∉ p.opState.processedEventIds ∧
      (.resultChallenged resultId ∈ p.pending ∨ p.fromBlock ≤ block))

/-- A challenge below the persisted cursor was handled, or the process is going to handle it. A later
process starts at that cursor. -/
def NoChallengeLost (w : World) : Prop :=
  ∀ block resultId, (block, .resultChallenged resultId) ∈ w.events →
    block < w.stored.lastPolledBlock → resultId ∈ w.handled ∨ w.StillToHandle block resultId

/-- Tasks may end with the process: a process that starts from `st` polls and takes their challenges
again. -/
def World.Recoverable (w : World) (tasks : List (List UInt8)) (st : OperatorState) : Prop :=
  ∀ resultId ∈ tasks, resultId ∉ w.handled →
    ridHex resultId ∉ st.processedEventIds ∧
      ∀ block, (block, .resultChallenged resultId) ∈ w.events → st.lastPolledBlock ≤ block

/-- No branch that leaves a challenge out is taken. -/
def KeepsChallenges (w : World) : Action → Prop
  | .nextEvent _ => ∀ p event rest, w.process = some p → p.batch = some (event :: rest) →
      -- The `break` drops the whole rest of the poll.
      (p.shuttingDown = true → ∀ resultId, .resultChallenged resultId ∈ event :: rest →
        ridHex resultId ∈ p.opState.processedEventIds ∨ resultId ∈ w.handled) ∧
      (p.shuttingDown = false → ∀ resultId, event = .resultChallenged resultId →
        ridHex resultId ∈ p.opState.processedEventIds ∨ resultId ∈ w.handled ∨
          p.dryRun = false ∧ p.tasks.length < PROOF_PERMITS)
  | .taskCancelled resultId => resultId ∈ w.handled
  | .exitProcess written => ∀ p, w.process = some p →
      w.Recoverable p.tasks (if written then p.snapshot else w.stored)
  | .crash => ∀ p, w.process = some p → w.Recoverable p.tasks w.stored
  | _ => True

/-- What a state accounts for: the challenges of its ids and of the blocks below its cursor, those of
`pending` apart. -/
structure Covers (w : World) (st : OperatorState) (pending : List TEEEvent) : Prop where
  cursor : st.lastPolledBlock ≤ w.latest + 1
  processed : ∀ resultId, ridHex resultId ∈ st.processedEventIds → w.Taken resultId
  polled : ∀ block resultId, (block, .resultChallenged resultId) ∈ w.events →
    block < st.lastPolledBlock → w.Taken resultId ∨ .resultChallenged resultId ∈ pending

structure Accounted (w : World) : Prop where
  mined : ∀ e ∈ w.events, e.1 ≤ w.latest
  stateFile : Covers w w.stored []
  process : ∀ p, w.process = some p → Covers w p.snapshot p.pending

variable {w w' : World} {st : OperatorState} {pending : List TEEEvent} {p q : Process}

theorem Accounted.noChallengeLost (h : Accounted w) : NoChallengeLost w := by
  intro block resultId hevent hblock
  rcases h.stateFile.polled block resultId hevent hblock with (hhandled | ⟨p, hp, htask⟩) | hnone
  · exact .inl hhandled
  · exact .inr ⟨p, hp, .inl htask⟩
  · cases hnone

theorem covers_emptyState (w : World) (pending : List TEEEvent) : Covers w emptyState pending := by
  refine ⟨Nat.zero_le _, fun resultId h => ?_, fun block resultId _ h => ?_⟩
  · cases h
  · exact absurd h (Nat.not_lt_zero _)

/-- A step that leaves the chain alone and loses no taken challenge keeps what a state covers. -/
theorem Covers.of_taken (h : Covers w st pending) (hlatest : w'.latest = w.latest)
    (hevents : w'.events = w.events) (htaken : ∀ resultId, w.Taken resultId → w'.Taken resultId) :
    Covers w' st pending := by
  refine ⟨hlatest ▸ h.cursor, fun resultId hid => htaken _ (h.processed _ hid), ?_⟩
  intro block resultId hevent hblock
  rw [hevents] at hevent
  exact (h.polled block resultId hevent hblock).imp_left (htaken resultId)

theorem Covers.of_evicted (h : Covers w st pending) :
    Covers w { st with processedEventIds := evictExcess st.processedEventIds } pending := by
  refine ⟨h.cursor, fun resultId hid => ?_, h.polled⟩
  dsimp only at hid
  exact h.processed resultId (mem_of_mem_evictExcess hid)

/-- A process that ends leaves a covered state behind if its tasks are recoverable from it. -/
theorem Covers.of_recoverable (h : Covers w st []) (hp : w.process = some p)
    (hrec : w.Recoverable p.tasks st) (hlatest : w'.latest = w.latest)
    (hevents : w'.events = w.events) (hhandled : w'.handled = w.handled) : Covers w' st [] := by
  have hends : ∀ resultId, w.Taken resultId → w'.Taken resultId ∨
      resultId ∈ p.tasks ∧ resultId ∉ w.handled := by
    intro resultId htaken
    by_cases hmem : resultId ∈ w.handled
    · exact .inl (.inl (hhandled ▸ hmem))
    · rcases htaken with htaken | ⟨p', hp', htask⟩
      · exact absurd htaken hmem
      · cases hp.symm.trans hp'
        exact .inr ⟨htask, hmem⟩
  refine ⟨hlatest ▸ h.cursor, fun resultId hid => ?_, fun block resultId hevent hblock => ?_⟩
  · rcases hends resultId (h.processed resultId hid) with htaken | ⟨htask, hmem⟩
    · exact htaken
    · exact absurd hid (hrec resultId htask hmem).1
  · rw [hevents] at hevent
    rcases h.polled block resultId hevent hblock with htaken | hnone
    · rcases hends resultId htaken with htaken | ⟨htask, hmem⟩
      · exact .inl htaken
      · exact absurd hblock (Nat.not_lt.mpr ((hrec resultId htask hmem).2 block hevent))
    · cases hnone

/-! ## What an action does -/

/-- An event either marks no id, or it is an open challenge that a dry run or a new task takes. -/
inductive EventEffect (p : Process) (event : TEEEvent) (q : Process) : Prop
  | unmarked (ids : q.opState.processedEventIds = p.opState.processedEventIds)
      (tasks : q.tasks = p.tasks)
      (left : ∀ resultId, event = .resultChallenged resultId →
        ridHex resultId ∈ p.opState.processedEventIds ∨
          p.dryRun = false ∧ PROOF_PERMITS ≤ p.tasks.length)
  | dryRun (resultId : List UInt8) (challenged : event = .resultChallenged resultId)
      (isOpen : ridHex resultId ∉ p.opState.processedEventIds) (mode : p.dryRun = true)
      (ids : q.opState.processedEventIds = insertId p.opState.processedEventIds (ridHex resultId))
      (tasks : q.tasks = p.tasks)
  | spawned (resultId : List UInt8) (challenged : event = .resultChallenged resultId)
      (ids : q.opState.processedEventIds = insertId p.opState.processedEventIds (ridHex resultId))
      (tasks : q.tasks = resultId :: p.tasks)

theorem onEvent_fromBlock (p : Process) (now : ℕ) (event : TEEEvent) :
    (p.onEvent now event).fromBlock = p.fromBlock := by
  cases event with
  | resultChallenged resultId =>
    simp only [Process.onEvent]
    split_ifs <;> rfl
  | resultSubmitted | resultFinalized | resultExpired | disputeResolved => rfl

theorem onEvent_effect (p : Process) (now : ℕ) (event : TEEEvent) :
    EventEffect p event (p.onEvent now event) := by
  cases event with
  | resultChallenged resultId =>
    simp only [Process.onEvent]
    split_ifs with hmem hdry hpermit
    · refine .unmarked rfl rfl fun resultId' h => .inl ?_
      cases h
      exact hmem
    · exact .dryRun resultId rfl hmem hdry rfl rfl
    · exact .spawned resultId rfl rfl rfl
    · exact .unmarked rfl rfl fun _ _ => .inr ⟨Bool.eq_false_iff.mpr hdry, Nat.not_lt.mp hpermit⟩
  | resultSubmitted | resultFinalized | resultExpired | disputeResolved =>
    exact .unmarked rfl rfl fun _ h => by cases h

/-- A new process over the same chain and file: what was taken still is. -/
theorem taken_of_tasks (hp : w.process = some p) (hq : w'.process = some q)
    (hhandled : ∀ x ∈ w.handled, x ∈ w'.handled)
    (htasks : ∀ x ∈ p.tasks, x ∈ q.tasks ∨ x ∈ w'.handled) (resultId : List UInt8)
    (h : w.Taken resultId) : w'.Taken resultId := by
  rcases h with h | ⟨p', hp', htask⟩
  · exact .inl (hhandled _ h)
  · cases hp.symm.trans hp'
    rcases htasks _ htask with htask | hdone
    · exact .inr ⟨q, hq, htask⟩
    · exact .inl hdone

/-- A step that leaves the chain and the state file alone. -/
theorem Accounted.of_process {handled : List (List UInt8)} (h : Accounted w)
    (htaken : ∀ resultId, w.Taken resultId →
      { w with process := some q, handled }.Taken resultId)
    (hcovers : Covers { w with process := some q, handled } q.snapshot q.pending) :
    Accounted { w with process := some q, handled } := by
  refine ⟨h.mined, h.stateFile.of_taken rfl rfl htaken, fun p' hp' => ?_⟩
  cases hp'
  exact hcovers

theorem Accounted.of_sameTasks (h : Accounted w) (hp : w.process = some p)
    (htasks : q.tasks = p.tasks) (hcovers : Covers w q.snapshot q.pending) :
    Accounted { w with process := some q } := by
  have htaken : ∀ resultId, w.Taken resultId → { w with process := some q }.Taken resultId :=
    taken_of_tasks hp rfl (fun x hx => hx) fun x hx => .inl (htasks ▸ hx)
  exact h.of_process htaken (hcovers.of_taken rfl rfl htaken)

/-- A new block is not below any cursor. -/
theorem Covers.mineBlock (h : Covers w st pending) (events : List TEEEvent)
    (htaken : ∀ resultId, w.Taken resultId → w'.Taken resultId)
    (hlatest : w'.latest = w.latest + 1)
    (hevents : w'.events = w.events ++ events.map fun e => (w.latest + 1, e)) :
    Covers w' st pending := by
  refine ⟨?_, fun resultId hid => htaken _ (h.processed _ hid), ?_⟩
  · rw [hlatest]
    exact Nat.le_succ_of_le h.cursor
  · intro block resultId hevent hblock
    rw [hevents, List.mem_append] at hevent
    rcases hevent with hold | hnew
    · exact (h.polled block resultId hold hblock).imp_left (htaken resultId)
    · obtain ⟨e, -, he⟩ := List.mem_map.mp hnew
      cases he
      exact absurd hblock (Nat.not_lt.mpr h.cursor)

theorem Covers.pollEvents (h : Covers w p.snapshot []) (hmined : ∀ e ∈ w.events, e.1 ≤ w.latest)
    (answered : Bool) :
    Covers w { p.opState with lastPolledBlock := (w.pollEvents p.fromBlock answered).2 }
      (w.pollEvents p.fromBlock answered).1 := by
  rw [World.pollEvents]
  split_ifs with hskip
  · exact h
  · refine ⟨Nat.le_refl _, h.processed, fun block resultId hevent hblock => ?_⟩
    by_cases hold : block < p.fromBlock
    · rcases h.polled block resultId hevent hold with htaken | hnone
      · exact .inl htaken
      · cases hnone
    · refine .inr (List.mem_map.mpr ⟨_, List.mem_filter.mpr ⟨hevent, ?_⟩, rfl⟩)
      simpa using ⟨Nat.not_lt.mp hold, hmined _ hevent⟩

/-- One event of the poll, when the process answers it or has answered it before. -/
theorem accounted_onEvent {event : TEEEvent} {rest : List TEEEvent} (h : Accounted w)
    (hp : w.process = some p) (hbatch : p.batch = some (event :: rest)) (now : ℕ)
    (hok : ∀ resultId, event = .resultChallenged resultId →
      ridHex resultId ∈ p.opState.processedEventIds ∨ resultId ∈ w.handled ∨
        p.dryRun = false ∧ p.tasks.length < PROOF_PERMITS) :
    Accounted { w with process := some { p.onEvent now event with batch := some rest } } := by
  have hcovers : Covers w p.snapshot (event :: rest) := by
    have := h.process p hp
    rwa [Process.pending, hbatch] at this
  have heffect := onEvent_effect p now event
  have hfrom := onEvent_fromBlock p now event
  generalize p.onEvent now event = q at heffect hfrom
  have htaken : ∀ resultId, w.Taken resultId →
      { w with process := some { q with batch := some rest } }.Taken resultId := by
    refine taken_of_tasks hp rfl (fun x hx => hx) fun x hx => .inl ?_
    cases heffect with
    | unmarked _ tasks _ | dryRun _ _ _ _ _ tasks => exact tasks ▸ hx
    | spawned _ _ _ tasks => exact tasks ▸ List.mem_cons_of_mem _ hx
  -- The challenge at hand is taken, whichever branch it went through.
  have hhead : ∀ resultId, event = .resultChallenged resultId →
      { w with process := some { q with batch := some rest } }.Taken resultId := by
    intro resultId hevent
    rcases hok resultId hevent with hmem | hdone | ⟨hdry, hpermit⟩
    · exact htaken _ (hcovers.processed _ hmem)
    · exact .inl hdone
    · cases heffect with
      | unmarked _ _ left =>
        rcases left resultId hevent with hmem | ⟨-, hfull⟩
        · exact htaken _ (hcovers.processed _ hmem)
        · exact absurd hpermit (Nat.not_lt.mpr hfull)
      | dryRun _ _ _ mode => exact absurd mode (by rw [hdry]; decide)
      | spawned resultId' challenged _ tasks =>
        rw [hevent] at challenged
        cases challenged
        exact .inr ⟨_, rfl, tasks ▸ List.mem_cons_self⟩
  have hids : ∀ resultId, ridHex resultId ∈ q.opState.processedEventIds →
      ridHex resultId ∈ p.opState.processedEventIds ∨ event = .resultChallenged resultId := by
    intro resultId hid
    cases heffect with
    | unmarked ids => exact .inl (ids ▸ hid)
    | dryRun r challenged _ _ ids | spawned r challenged ids =>
      rw [ids] at hid
      refine (mem_of_mem_insertId hid).imp_right fun heq => ?_
      rw [challenged, ridHex_injective heq]
  refine h.of_process htaken ⟨hfrom.trans_le hcovers.cursor, fun resultId hid => ?_, ?_⟩
  · rcases hids resultId hid with hmem | hevent
    · exact htaken _ (hcovers.processed _ hmem)
    · exact hhead resultId hevent
  · intro block resultId hmem hblock
    rcases hcovers.polled block resultId hmem (hblock.trans_eq hfrom) with hdone | hpending
    · exact .inl (htaken _ hdone)
    · rcases List.mem_cons.mp hpending with hevent | hrest
      · exact .inl (hhead resultId hevent.symm)
      · exact .inr hrest

/-- The `break` of a shutdown, when no open challenge is left in the poll. -/
theorem accounted_break {batch : List TEEEvent} (h : Accounted w) (hp : w.process = some p)
    (hbatch : p.batch = some batch)
    (hok : ∀ resultId, .resultChallenged resultId ∈ batch →
      ridHex resultId ∈ p.opState.processedEventIds ∨ resultId ∈ w.handled) :
    Accounted { w with process := some { p with batch := some [] } } := by
  have hcovers : Covers w p.snapshot batch := by
    have := h.process p hp
    rwa [Process.pending, hbatch] at this
  refine h.of_sameTasks hp rfl ⟨hcovers.cursor, hcovers.processed, ?_⟩
  intro block resultId hevent hblock
  rcases hcovers.polled block resultId hevent hblock with hdone | hpending
  · exact .inl hdone
  · rcases hok resultId hpending with hmem | hdone
    · exact .inl (hcovers.processed _ hmem)
    · exact .inl (.inl hdone)

theorem accounted_taskEnd {handled : List (List UInt8)} (h : Accounted w) (hp : w.process = some p)
    (resultId : List UInt8) (hhandled : ∀ x ∈ w.handled, x ∈ handled) (hdone : resultId ∈ handled) :
    Accounted { w with process := some { p with tasks := p.tasks.erase resultId }, handled } := by
  have htaken : ∀ x, w.Taken x →
      { w with process := some { p with tasks := p.tasks.erase resultId }, handled }.Taken x := by
    refine taken_of_tasks hp rfl hhandled fun x hx => ?_
    by_cases heq : x = resultId
    · exact .inr (heq ▸ hdone)
    · exact .inl ((List.mem_erase_of_ne heq).mpr hx)
  exact h.of_process htaken ((h.process p hp).of_taken rfl rfl htaken)

theorem covers_saved {st₁ : OperatorState} (hold : Covers w st₁ []) (hnew : Covers w st [])
    (written : Bool) : Covers w (if written then st else st₁) [] := by
  cases written with
  | true => exact hnew
  | false => exact hold

theorem covers_save {w₁ : World} {written : Bool}
    (h : Covers w₁ (if written then st else w.stored) [])
    (hfile : w₁.stateFile = (w.save st written).stateFile) : Covers w₁ w₁.stored [] := by
  rw [World.stored, hfile]
  cases written with
  | true => exact h.of_evicted
  | false => exact h

theorem keeps_accounted {a : Action} (h : Accounted w) (hok : KeepsChallenges w a)
    (hstep : step w a = some w') : Accounted w' := by
  cases a with
  | mineBlock events =>
    cases hstep
    refine ⟨fun e he => ?_, h.stateFile.mineBlock events (fun _ hx => hx) rfl rfl,
      fun p hp => (h.process p hp).mineBlock events (fun _ hx => hx) rfl rfl⟩
    rcases List.mem_append.mp he with hold | hnew
    · exact Nat.le_succ_of_le (h.mined e hold)
    · obtain ⟨event, -, rfl⟩ := List.mem_map.mp hnew
      exact Nat.le_refl _
  | startProcess dryRun readable =>
    rw [step] at hstep
    split at hstep
    case h_1 hnone =>
      cases hstep
      have htaken : ∀ x, w.Taken x → { w with
          process := some (.start dryRun (w.loadOrDefault readable)) }.Taken x := by
        rintro x (hdone | ⟨p, hp, -⟩)
        · exact .inl hdone
        · cases hnone.symm.trans hp
      refine h.of_process htaken ?_
      cases readable with
      | true => exact h.stateFile.of_taken rfl rfl htaken
      | false => exact covers_emptyState _ _
    case h_2 => cases hstep
  | pollEvents answered =>
    obtain ⟨p, hrunning, rfl⟩ := Option.map_eq_some_iff.mp hstep
    obtain ⟨hp, hallowed⟩ := running_eq_some.mp hrunning
    have hbatch : p.batch = none := by
      simpa using (Bool.and_eq_true_iff.mp hallowed).1
    have hcovers := h.process p hp
    rw [Process.pending, hbatch] at hcovers
    exact h.of_sameTasks hp rfl (hcovers.pollEvents h.mined answered)
  | nextEvent now =>
    obtain ⟨q, hnext, rfl⟩ := Option.map_eq_some_iff.mp hstep
    obtain ⟨p, hp, hq⟩ := Option.bind_eq_some_iff.mp hnext
    rw [Process.nextEvent] at hq
    split at hq
    case h_1 event rest hbatch =>
      obtain ⟨hbreak, hevent⟩ := hok p event rest hp hbatch
      split at hq
      case isTrue hdown =>
        cases hq
        exact accounted_break h hp hbatch (hbreak hdown)
      case isFalse hdown =>
        cases hq
        exact accounted_onEvent h hp hbatch now (hevent (Bool.eq_false_iff.mpr hdown))
    case h_2 => cases hq
  | persist written =>
    obtain ⟨p, hrunning, rfl⟩ := Option.map_eq_some_iff.mp hstep
    obtain ⟨hp, hallowed⟩ := running_eq_some.mp hrunning
    have hbatch : p.batch = some [] := eq_of_beq hallowed
    have hcovers := h.process p hp
    rw [Process.pending, hbatch] at hcovers
    have htaken : ∀ resultId, w.Taken resultId → { w.save p.snapshot written with
        process := some { p with opState := p.snapshot, batch := none } }.Taken resultId :=
      taken_of_tasks hp rfl (fun x hx => hx) fun x hx => .inl hx
    have hsaved := covers_saved h.stateFile hcovers written
    refine ⟨h.mined, covers_save (hsaved.of_taken rfl rfl htaken) rfl, fun q hq => ?_⟩
    cases hq
    exact hcovers.of_taken rfl rfl htaken
  | taskDone resultId =>
    obtain ⟨p, hrunning, rfl⟩ := Option.map_eq_some_iff.mp hstep
    obtain ⟨hp, -⟩ := running_eq_some.mp hrunning
    exact accounted_taskEnd h hp resultId (fun x hx => List.mem_cons_of_mem _ hx)
      List.mem_cons_self
  | taskCancelled resultId =>
    obtain ⟨p, hrunning, rfl⟩ := Option.map_eq_some_iff.mp hstep
    obtain ⟨hp, -⟩ := running_eq_some.mp hrunning
    exact accounted_taskEnd h hp resultId (fun x hx => hx) hok
  | signalShutdown =>
    obtain ⟨p, hrunning, rfl⟩ := Option.map_eq_some_iff.mp hstep
    obtain ⟨hp, -⟩ := running_eq_some.mp hrunning
    exact h.of_sameTasks hp rfl (h.process p hp)
  | exitProcess written =>
    obtain ⟨p, hrunning, rfl⟩ := Option.map_eq_some_iff.mp hstep
    obtain ⟨hp, hallowed⟩ := running_eq_some.mp hrunning
    have hbatch : p.batch = none := by
      simpa using (Bool.and_eq_true_iff.mp hallowed).1
    have hcovers := h.process p hp
    rw [Process.pending, hbatch] at hcovers
    have hsaved := covers_saved h.stateFile hcovers written
    refine ⟨h.mined, covers_save (hsaved.of_recoverable hp (hok p hp) rfl rfl rfl) rfl,
      fun q hq => ?_⟩
    cases hq
  | crash =>
    obtain ⟨p, hrunning, rfl⟩ := Option.map_eq_some_iff.mp hstep
    obtain ⟨hp, -⟩ := running_eq_some.mp hrunning
    refine ⟨h.mined, h.stateFile.of_recoverable hp (hok p hp) rfl rfl rfl, fun q hq => ?_⟩
    cases hq

/-- As long as no branch leaves a challenge out, no challenge is lost, over restarts and shutdowns. -/
theorem noChallengeLost_of_meets {actions : List Action} {t : World}
    (hmeets : Meets step KeepsChallenges .start actions)
    (hrun : runSteps step .start actions = some t) : NoChallengeLost t := by
  refine (runSteps_invariant (fun w a t h hok hstep => keeps_accounted h hok hstep) ?_ hmeets
    hrun).noChallengeLost
  refine ⟨fun e he => ?_, covers_emptyState _ _, fun p hp => ?_⟩
  · cases he
  · cases hp

def challengedId (n : ℕ) : List UInt8 := UInt8.ofNat n :: List.replicate 31 0

/-- A challenge is taken, its task ends, and the process shuts down and is started again. -/
def answeredRun : List Action :=
  [.mineBlock [.resultChallenged (challengedId 0)], .startProcess false true, .pollEvents true,
    .nextEvent 0, .persist true, .taskDone (challengedId 0), .signalShutdown, .exitProcess true,
    .startProcess false true]

private theorem answeredRun_meets : Meets step KeepsChallenges .start answeredRun := by
  refine .cons trivial rfl (.cons trivial rfl (.cons trivial rfl (.cons ?_ rfl (.cons trivial rfl
    (.cons trivial rfl (.cons trivial rfl (.cons ?_ rfl (.cons trivial rfl trivial))))))))
  · rintro p event rest ⟨⟩ ⟨⟩
    refine ⟨fun hdown => ?_, fun _ resultId _ => .inr (.inr (by decide))⟩
    cases hdown
  · rintro p ⟨⟩ resultId htask
    cases htask

theorem answeredRun_noChallengeLost :
    ∃ t, runSteps step .start answeredRun = some t ∧
      (1, .resultChallenged (challengedId 0)) ∈ t.events ∧ 1 < t.stored.lastPolledBlock ∧
      NoChallengeLost t :=
  ⟨_, rfl, List.mem_cons_self, by decide, noChallengeLost_of_meets answeredRun_meets rfl⟩

/-- Eleven challenges in one block find ten permits; the eleventh is skipped, and the cursor is
saved past its block. -/
def burstRun : List Action :=
  [.mineBlock ((List.range 11).map fun n => .resultChallenged (challengedId n)),
    .startProcess false true, .pollEvents true] ++ List.replicate 11 (.nextEvent 0) ++
    [.persist true]

theorem burstRun_challenge_lost :
    ∃ t, runSteps step .start burstRun = some t ∧ ¬NoChallengeLost t := by
  refine ⟨_, rfl, fun h => ?_⟩
  rcases h 1 (challengedId 10) (by decide) (by decide) with hhandled | ⟨p, hp, hstill⟩
  · cases hhandled
  · cases hp
    revert hstill
    decide

end WorldZk.ChallengeWatcher
