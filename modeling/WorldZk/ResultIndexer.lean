import WorldZk.LogConsumers
import WorldZk.ResultEvents
import WorldZk.StepRuns

/-!
# The indexer of the TEE results

The store of the indexer service, the events that it applies and its polls of the chain. A poll
applies the events of the blocks from the last indexed one and then moves on; one that is cut off
begins again at the same block. The chain has no reorganisations, and the transactions of a block
run as `TEEMLVerifier` runs them.
-/

namespace WorldZk.ResultIndexer

open FieldArithmetic HexText Keccak256 LogConsumers ResultEvents StepRuns TeeDisputes TeeReentrancy
open TeeVerifier Transcript

/-! ## The store -/

/-- The text of `{:#x}`. -/
def lowerHex (bytes : List UInt8) : List Char := '0' :: 'x' :: hexEncode bytes

structure ResultRow where
  id : List Char
  modelHash : List Char
  inputHash : List Char
  output : List Char
  submitter : List Char
  status : String
  blockNumber : ℕ
  timestamp : ℕ
  challenger : Option (List Char)
deriving DecidableEq, Repr

/-- `INSERT OR IGNORE`, with the columns that the statement leaves out at their defaults. -/
def insertResult (rows : List ResultRow) (id modelHash inputHash submitter : List Char)
    (blockNumber : ℕ) : List ResultRow :=
  if rows.any (·.id = id) then rows
  else rows ++ [⟨id, modelHash, inputHash, [], submitter, "submitted", blockNumber, 0, none⟩]

/-- The two `UPDATE` statements, on a row. -/
def ResultRow.withStatus (row : ResultRow) (status : String) : Option (List Char) → ResultRow
  | some c => { row with status := status, challenger := some c }
  | none => { row with status := status }

def updateResultStatus (rows : List ResultRow) (id : List Char) (status : String)
    (challenger : Option (List Char)) : List ResultRow :=
  rows.map fun row => if row.id = id then row.withStatus status challenger else row

def getResult (rows : List ResultRow) (id : List Char) : Option ResultRow :=
  rows.find? (·.id = id)

def applyEvent (rows : List ResultRow) : TEEEvent → List ResultRow
  | .resultSubmitted resultId modelHash inputHash submitter blockNumber =>
    insertResult rows (lowerHex resultId) (lowerHex modelHash) (lowerHex inputHash)
      (lowerHex submitter) blockNumber
  | .resultChallenged resultId challenger =>
    updateResultStatus rows (lowerHex resultId) "challenged" (some (lowerHex challenger))
  | .resultFinalized resultId => updateResultStatus rows (lowerHex resultId) "finalized" none
  | .resultExpired resultId => updateResultStatus rows (lowerHex resultId) "finalized" none
  | .disputeResolved resultId _ => updateResultStatus rows (lowerHex resultId) "resolved" none

/-! ## The chain -/

section World

variable (recover : ℕ → List UInt8 → Option ℕ)

/-- The logs of a block on a contract. -/
def blockLogs (c : TeeContract) : List Transaction → List Log
  | [] => []
  | tx :: txs =>
    match execute recover c tx with
    | .ok c' => emitted c' tx ++ blockLogs c' txs
    | .error _ => blockLogs c txs

def chainLogs (c : TeeContract) : List (List Transaction) → List (List Log)
  | [] => []
  | block :: chain => blockLogs recover c block :: chainLogs (run recover c block) chain

/-- The contract after the blocks. -/
def stateAfter (c : TeeContract) (chain : List (List Transaction)) : TeeContract :=
  run recover c chain.flatten

/-! ## The indexer -/

/-- The chain and the indexer. -/
structure World where
  chain : List (List Transaction)
  rows : List ResultRow
  lastIndexedBlock : ℕ
  /-- The events of a poll that are still to be applied, and the block after the latest one. -/
  batch : Option (List TEEEvent × ℕ)
  /-- The events whose write failed; `poll_and_index` only logs them. -/
  failed : List TEEEvent

def World.start : World := ⟨[], [], 0, none, []⟩

inductive IndexerAction
  | mineBlock (txs : List Transaction)
  | poll
  | applyNext (written : Bool)
  | setLastIndexedBlock
  /-- The process stops, or the write of `set_last_indexed_block` fails. -/
  | stop

/-- A transaction of a block: the contract sees the block's number and a time that its `uint40`
fields tell from the empty one. -/
def inBlock (number : ℕ) (tx : Transaction) : Bool :=
  tx.msg.blockNumber == number && uint40 tx.msg.timestamp != 0

def step (c₀ : TeeContract) (w : World) : IndexerAction → Option World
  | .mineBlock txs =>
    if txs.all (inBlock w.chain.length) then some { w with chain := w.chain ++ [txs] } else none
  | .poll =>
    match w.batch with
    | some _ => none
    | none =>
      if w.chain.length ≤ w.lastIndexedBlock then some w
      else
        let logs := ((chainLogs recover c₀ w.chain).drop w.lastIndexedBlock).flatten
        some { w with batch := some (logs.filterMap parseLog, w.chain.length) }
  | .applyNext written =>
    match w.batch with
    | some (event :: events, next) =>
      if written then
        some { w with rows := applyEvent w.rows event, batch := some (events, next) }
      else some { w with batch := some (events, next), failed := w.failed ++ [event] }
    | _ => none
  | .setLastIndexedBlock =>
    match w.batch with
    | some ([], next) => some { w with lastIndexedBlock := next, batch := none }
    | _ => none
  | .stop => some { w with batch := none }

end World

/-! ## One row -/

/-- The columns that a status event writes. -/
@[ext] structure StatusPatch where
  status : Option String
  challenger : Option (List Char)

/-- The later patch is on the left. -/
instance : Monoid StatusPatch where
  one := ⟨none, none⟩
  mul p q := ⟨p.status.or q.status, p.challenger.or q.challenger⟩
  one_mul _ := rfl
  mul_one p := StatusPatch.ext (Option.or_none ..) (Option.or_none ..)
  mul_assoc _ _ _ := StatusPatch.ext (Option.or_assoc ..) (Option.or_assoc ..)

instance : MulAction StatusPatch ResultRow where
  smul p row :=
    { row with status := p.status.getD row.status, challenger := p.challenger.or row.challenger }
  one_smul _ := rfl
  mul_smul p q row := by
    obtain ⟨status, challenger⟩ := p
    cases status <;> cases challenger <;> rfl

theorem patch_again (p : StatusPatch) (row : ResultRow) : p • p • row = p • row := by
  obtain ⟨status, challenger⟩ := p
  cases status <;> cases challenger <;> rfl

/-- What an event does to its own row. -/
def ownChange : TEEEvent → RecordChange ResultRow StatusPatch
  | .resultSubmitted resultId modelHash inputHash submitter blockNumber =>
    .insert ⟨lowerHex resultId, lowerHex modelHash, lowerHex inputHash, [], lowerHex submitter,
      "submitted", blockNumber, 0, none⟩
  | .resultChallenged _ challenger => .patch ⟨some "challenged", some (lowerHex challenger)⟩
  | .resultFinalized _ => .patch ⟨some "finalized", none⟩
  | .resultExpired _ => .patch ⟨some "finalized", none⟩
  | .disputeResolved _ _ => .patch ⟨some "resolved", none⟩

/-- What an event does to the row of an id. -/
def changeOf (id : List Char) (event : TEEEvent) : RecordChange ResultRow StatusPatch :=
  if lowerHex event.resultId = id then ownChange event else .keep

theorem getResult_insertResult (rows : List ResultRow)
    (id key modelHash inputHash submitter : List Char) (blockNumber : ℕ) :
    getResult (insertResult rows id modelHash inputHash submitter blockNumber) key =
      if id = key then
        (getResult rows key).or
          (some ⟨id, modelHash, inputHash, [], submitter, "submitted", blockNumber, 0, none⟩)
      else getResult rows key := by
  simp only [insertResult, getResult]
  by_cases hold : rows.any (·.id = id) = true
  · rw [if_pos hold]
    split
    case isTrue heq =>
      subst heq
      obtain ⟨row, hrow⟩ :=
        Option.isSome_iff_exists.mp (List.find?_isSome.mpr (List.any_eq_true.mp hold))
      rw [hrow, Option.some_or]
    case isFalse => rfl
  · rw [if_neg hold, List.find?_append]
    split
    case isTrue heq => rw [List.find?_cons_of_pos (by simpa using heq)]
    case isFalse hne =>
      rw [List.find?_cons_of_neg (by simpa using hne), List.find?_nil, Option.or_none]

theorem withStatus_id (row : ResultRow) (status : String) (challenger : Option (List Char)) :
    (row.withStatus status challenger).id = row.id := by
  cases challenger <;> rfl

theorem withStatus_eq_smul (row : ResultRow) (status : String) (challenger : Option (List Char)) :
    row.withStatus status challenger = (⟨some status, challenger⟩ : StatusPatch) • row := by
  cases challenger <;> rfl

theorem getResult_updateResultStatus (rows : List ResultRow) (id key : List Char) (status : String)
    (challenger : Option (List Char)) :
    getResult (updateResultStatus rows id status challenger) key =
      if id = key then (getResult rows key).map fun row =>
        (⟨some status, challenger⟩ : StatusPatch) • row
      else getResult rows key := by
  have hid : ((fun row : ResultRow => decide (row.id = key)) ∘ fun row =>
      if row.id = id then row.withStatus status challenger else row) =
        fun row => decide (row.id = key) := by
    funext row
    simp only [Function.comp_apply]
    split
    · rw [withStatus_id]
    · rfl
  rw [getResult, updateResultStatus, List.find?_map, hid, ← getResult]
  cases hrow : getResult rows key with
  | none => simp only [Option.map_none, ite_self]
  | some row =>
    have hkey : row.id = key := by simpa using List.find?_some hrow
    rw [Option.map_some, Option.map_some, withStatus_eq_smul, hkey]
    by_cases heq : id = key
    · rw [if_pos heq, if_pos heq.symm]
    · rw [if_neg heq, if_neg (Ne.symm heq)]

theorem getResult_applyEvent (rows : List ResultRow) (event : TEEEvent) (id : List Char) :
    getResult (applyEvent rows event) id = (changeOf id event).apply (getResult rows id) := by
  rw [changeOf]
  split
  case isTrue heq =>
    subst heq
    cases event
    case resultSubmitted => exact (getResult_insertResult ..).trans (if_pos rfl)
    all_goals exact (getResult_updateResultStatus ..).trans (if_pos rfl)
  case isFalse hne =>
    cases event
    case resultSubmitted => exact (getResult_insertResult ..).trans (if_neg hne)
    all_goals exact (getResult_updateResultStatus ..).trans (if_neg hne)

/-! ## The record of a result -/

/-- The `id` column of a result. -/
def rowId (resultId : ℕ) : List Char := lowerHex (word resultId)

theorem lowerHex_injective : Function.Injective lowerHex := by
  intro x y h
  simp only [lowerHex, List.cons.injEq, true_and] at h
  exact hexEncode_injective h

theorem rowId_inj {i j : ℕ} (hi : i < 2 ^ 256) (hj : j < 2 ^ 256) : rowId i = rowId j ↔ i = j := by
  refine ⟨fun h => ?_, congrArg rowId⟩
  have hbytes : word i = word j := lowerHex_injective h
  have hvalue := congrArg beValue hbytes
  rwa [beValue_wordToBeBytes hi, beValue_wordToBeBytes hj] at hvalue

/-- The status of a record. -/
def statusOf (c : TeeContract) (resultId : ℕ) : String :=
  if c.disputeResolved resultId then "resolved"
  else if (c.results resultId).finalized then "finalized"
  else if (c.results resultId).challenged then "challenged"
  else "submitted"

/-- The row that a record of the contract makes. -/
def recordRow (c : TeeContract) (resultId blockNumber : ℕ) : ResultRow where
  id := rowId resultId
  modelHash := lowerHex (word (c.results resultId).modelHash)
  inputHash := lowerHex (word (c.results resultId).inputHash)
  output := []
  submitter := lowerHex (addressOf (word (c.results resultId).submitter))
  status := statusOf c resultId
  blockNumber := blockNumber
  timestamp := 0
  challenger :=
    if (c.results resultId).challenged then
      some (lowerHex (addressOf (word (c.results resultId).challenger)))
    else none

/-- The row of a result and the record of it. The id of a result is the hash of its submitter, its
model, its input and the number of its block. -/
inductive Shows (c : TeeContract) (resultId : ℕ) : Option ResultRow → Prop
  | absent (missing : (c.results resultId).submittedAt = 0) : Shows c resultId none
  | present (blockNumber : ℕ) (found : (c.results resultId).submittedAt ≠ 0)
      (origin : generateResultId (c.results resultId).submitter (c.results resultId).modelHash
        (c.results resultId).inputHash blockNumber = resultId) :
      Shows c resultId (some (recordRow c resultId blockNumber))

/-- What holds of the records after every transaction. -/
structure Recorded (c : TeeContract) : Prop where
  submitted_of_challenged : ∀ i, (c.results i).challenged = true → (c.results i).submittedAt ≠ 0
  challenged_of_resolved : ∀ i, c.disputeResolved i = true → (c.results i).challenged = true
  lt_of_submitted : ∀ i, (c.results i).submittedAt ≠ 0 → i < 2 ^ 256

theorem recorded_initialStorage (self chainId admin remainderVerifier : ℕ) :
    Recorded (initialStorage self chainId admin remainderVerifier) where
  submitted_of_challenged _ h := by cases h
  challenged_of_resolved _ h := by cases h
  lt_of_submitted _ h := (h rfl).elim

variable {recover : ℕ → List UInt8 → Option ℕ} {c c' : TeeContract} {msg : Message}
  {events : List TEEEvent} {resultId : ℕ} {x : Option ResultRow}

theorem Recorded.unresolved (h : Recorded c) {i : ℕ} (hi : (c.results i).challenged = false) :
    c.disputeResolved i = false := by
  rw [← Bool.not_eq_true] at hi ⊢
  exact fun hresolved => hi (h.challenged_of_resolved i hresolved)

/-- A transaction that writes one record. -/
theorem Recorded.update (h : Recorded c) {i : ℕ} {r : PackedMLResult}
    (hresults : c'.results = Function.update c.results i r)
    (hresolved : ∀ j, j ≠ i → c'.disputeResolved j = c.disputeResolved j)
    (hchallenged : r.challenged = true → r.submittedAt ≠ 0)
    (hsettled : c'.disputeResolved i = true → r.challenged = true)
    (hlt : r.submittedAt ≠ 0 → i < 2 ^ 256) : Recorded c' := by
  have hwritten : c'.results i = r := by rw [hresults, Function.update_self]
  have hother {j : ℕ} (hj : j ≠ i) : c'.results j = c.results j := by
    rw [hresults, Function.update_of_ne hj]
  refine ⟨fun j => ?_, fun j => ?_, fun j => ?_⟩ <;> by_cases hj : j = i
  · rwa [hj, hwritten]
  · rw [hother hj]
    exact h.submitted_of_challenged j
  · rwa [hj, hwritten]
  · rw [hother hj, hresolved j hj]
    exact h.challenged_of_resolved j
  · rwa [hj, hwritten]
  · rw [hother hj]
    exact h.lt_of_submitted j

theorem recorded_of_effect (h : ResultEffect c msg c' events) (hc : Recorded c) :
    Recorded c' := by
  cases h with
  | none results resolved =>
    refine ⟨?_, ?_, ?_⟩
    all_goals rw [results]
    · exact hc.submitted_of_challenged
    · rw [resolved]
      exact hc.challenged_of_resolved
    · exact hc.lt_of_submitted
  | submitted i r fresh stamp origin unchallenged unsettled results resolved =>
    refine hc.update results (fun j _ => by rw [resolved]) (fun h => ?_) (fun h => ?_) fun _ => ?_
    · rw [unchallenged] at h
      cases h
    · rw [resolved] at h
      exact (hc.submitted_of_challenged i (hc.challenged_of_resolved i h) fresh).elim
    · rw [← origin]
      exact keccak256_lt _
  | challenged i deadline found unsettled unchallenged results resolved =>
    exact hc.update results (fun j _ => by rw [resolved]) (fun _ => found) (fun _ => rfl)
      fun _ => hc.lt_of_submitted i found
  | extended i deadline results resolved =>
    exact hc.update results (fun j _ => by rw [resolved]) (hc.submitted_of_challenged i)
      (fun h => hc.challenged_of_resolved i (by rwa [resolved] at h)) (hc.lt_of_submitted i)
  | finalized i found unchallenged results resolved =>
    exact hc.update results (fun j _ => by rw [resolved]) (hc.submitted_of_challenged i)
      (fun h => hc.challenged_of_resolved i (by rwa [resolved] at h)) (hc.lt_of_submitted i)
  | settled i won wasChallenged results resolved =>
    exact hc.update results (fun j hj => by rw [resolved, Function.update_of_ne hj])
      (hc.submitted_of_challenged i) (fun _ => wasChallenged) (hc.lt_of_submitted i)

/-! ## The row along a run -/

theorem changeOf_self {event : TEEEvent} (h : event.resultId = word resultId) :
    changeOf (rowId resultId) event = ownChange event :=
  if_pos (congrArg lowerHex h)

theorem changeOf_other {event : TEEEvent} {i : ℕ} (h : event.resultId = word i) (hi : i < 2 ^ 256)
    (hid : resultId < 2 ^ 256) (hne : i ≠ resultId) :
    changeOf (rowId resultId) event = .keep :=
  if_neg fun heq => hne ((rowId_inj hi hid).mp ((congrArg lowerHex h).symm.trans heq))

/-- A record that stays as it is. -/
theorem Shows.of_eq (h : Shows c resultId x) (hresult : c'.results resultId = c.results resultId)
    (hresolved : c'.disputeResolved resultId = c.disputeResolved resultId) :
    Shows c' resultId x := by
  cases h with
  | absent missing => exact .absent (by rwa [hresult])
  | present blockNumber found origin =>
    have hrow : recordRow c resultId blockNumber = recordRow c' resultId blockNumber := by
      simp only [recordRow, statusOf, hresult, hresolved]
    rw [hrow]
    exact .present blockNumber (by rwa [hresult]) (by rwa [hresult])

/-- The row of a result that a transaction does not write. -/
theorem shows_of_keeps (h : Shows c resultId x)
    (hresult : c'.results resultId = c.results resultId)
    (hresolved : c'.disputeResolved resultId = c.disputeResolved resultId)
    (hkeep : ∀ event ∈ events, changeOf (rowId resultId) event = .keep) :
    Patchable x (events.map (changeOf (rowId resultId))) ∧
      Shows c' resultId ((events.map (changeOf (rowId resultId))).foldl RecordChange.apply x) := by
  induction events with
  | nil => exact ⟨trivial, h.of_eq hresult hresolved⟩
  | cons event events ih =>
    obtain ⟨hfirst, hrest⟩ := List.forall_mem_cons.mp hkeep
    rw [List.map_cons, hfirst]
    exact ih hrest

/-- The row of a result whose record is written over. -/
theorem shows_of_patches (h : Shows c resultId x) (hfound : (c.results resultId).submittedAt ≠ 0)
    (hstamp : (c'.results resultId).submittedAt = (c.results resultId).submittedAt)
    (hsubmitter : (c'.results resultId).submitter = (c.results resultId).submitter)
    (hmodel : (c'.results resultId).modelHash = (c.results resultId).modelHash)
    (hinput : (c'.results resultId).inputHash = (c.results resultId).inputHash)
    (hrow : ∀ blockNumber, (events.map (changeOf (rowId resultId))).foldl RecordChange.apply
      (some (recordRow c resultId blockNumber)) = some (recordRow c' resultId blockNumber)) :
    Patchable x (events.map (changeOf (rowId resultId))) ∧
      Shows c' resultId ((events.map (changeOf (rowId resultId))).foldl RecordChange.apply x) := by
  cases h with
  | absent missing => exact (hfound missing).elim
  | present blockNumber found origin =>
    refine ⟨patchable_some _ _, ?_⟩
    rw [hrow]
    exact .present blockNumber (by rwa [hstamp]) (by rwa [hsubmitter, hmodel, hinput])

theorem shows_of_effect (h : ResultEffect c msg c' events) (hc : Recorded c)
    (hstamp : uint40 msg.timestamp ≠ 0) (hid : resultId < 2 ^ 256) (hx : Shows c resultId x) :
    Patchable x (events.map (changeOf (rowId resultId))) ∧
      Shows c' resultId ((events.map (changeOf (rowId resultId))).foldl RecordChange.apply x) := by
  cases h with
  | none results resolved =>
    exact ⟨trivial, hx.of_eq (by rw [results]) (by rw [resolved])⟩
  | submitted i r fresh stamp origin unchallenged unsettled results resolved =>
    by_cases hi : i = resultId
    case neg =>
      refine shows_of_keeps hx (by rw [results, Function.update_of_ne (Ne.symm hi)])
        (by rw [resolved]) fun event hevent => ?_
      cases List.mem_singleton.mp hevent
      exact changeOf_other rfl (origin ▸ keccak256_lt _) hid hi
    subst hi
    cases hx with
    | present _ found => exact (found fresh).elim
    | absent =>
      have hunresolved : c.disputeResolved i = false := by
        apply hc.unresolved
        rw [← Bool.not_eq_true]
        exact fun h => hc.submitted_of_challenged i h fresh
      have hresult : c'.results i = r := by rw [results, Function.update_self]
      have hrow : recordRow c' i msg.blockNumber =
          ⟨rowId i, lowerHex (word r.modelHash), lowerHex (word r.inputHash), [],
            lowerHex (addressOf (word r.submitter)), "submitted", msg.blockNumber, 0, none⟩ := by
        simp only [recordRow, statusOf, hresult, resolved, hunresolved, unchallenged, unsettled,
          Bool.false_eq_true, if_false]
      rw [List.map_singleton, changeOf_self rfl]
      refine ⟨trivial, ?_⟩
      have hshows : Shows c' i (some (recordRow c' i msg.blockNumber)) :=
        .present msg.blockNumber (by rwa [hresult, stamp]) (by rwa [hresult])
      rwa [hrow] at hshows
  | challenged i deadline found unsettled unchallenged results resolved =>
    by_cases hi : i = resultId
    case neg =>
      refine shows_of_keeps hx (by rw [results, Function.update_of_ne (Ne.symm hi)])
        (by rw [resolved]) fun event hevent => ?_
      cases List.mem_singleton.mp hevent
      exact changeOf_other rfl (hc.lt_of_submitted i found) hid hi
    subst hi
    have hresult : c'.results i = challengedBy (c.results i) msg deadline := by
      rw [results, Function.update_self]
    refine shows_of_patches hx found (by rw [hresult]; rfl) (by rw [hresult]; rfl)
      (by rw [hresult]; rfl) (by rw [hresult]; rfl) fun blockNumber => ?_
    have hunresolved := hc.unresolved unchallenged
    rw [List.map_singleton, changeOf_self rfl]
    simp only [List.foldl_cons, List.foldl_nil, ownChange, RecordChange.apply, recordRow, statusOf,
      hresult, resolved, hunresolved, challengedBy, unsettled, Bool.false_eq_true, if_false, if_true]
    rfl
  | extended i deadline results resolved =>
    by_cases hi : i = resultId
    · subst hi
      have hresult : c'.results i = { c.results i with disputeDeadline := deadline } := by
        rw [results, Function.update_self]
      cases hx with
      | absent missing => exact ⟨trivial, .absent (by rwa [hresult])⟩
      | present blockNumber found origin =>
        have hrow : recordRow c i blockNumber = recordRow c' i blockNumber := by
          simp only [recordRow, statusOf, hresult, resolved]
        refine ⟨trivial, ?_⟩
        rw [hrow]
        exact .present blockNumber (by rwa [hresult]) (by rwa [hresult])
    · exact ⟨trivial, hx.of_eq (by rw [results, Function.update_of_ne (Ne.symm hi)])
        (by rw [resolved])⟩
  | finalized i found unchallenged results resolved =>
    by_cases hi : i = resultId
    case neg =>
      refine shows_of_keeps hx (by rw [results, Function.update_of_ne (Ne.symm hi)])
        (by rw [resolved]) fun event hevent => ?_
      have hevent : event.resultId = word i := by
        rcases List.mem_pair.mp hevent with rfl | rfl <;> rfl
      exact changeOf_other hevent (hc.lt_of_submitted i found) hid hi
    subst hi
    have hresult : c'.results i = { c.results i with finalized := true } := by
      rw [results, Function.update_self]
    refine shows_of_patches hx found (by rw [hresult]) (by rw [hresult]) (by rw [hresult])
      (by rw [hresult]) fun blockNumber => ?_
    have hunresolved := hc.unresolved unchallenged
    rw [List.map_cons, List.map_singleton, changeOf_self rfl, changeOf_self rfl]
    simp only [List.foldl_cons, List.foldl_nil, ownChange, RecordChange.apply, recordRow, statusOf,
      hresult, resolved, hunresolved, unchallenged, Bool.false_eq_true, if_false, if_true]
    rfl
  | settled i won wasChallenged results resolved =>
    have found := hc.submitted_of_challenged i wasChallenged
    by_cases hi : i = resultId
    case neg =>
      refine shows_of_keeps hx (by rw [results, Function.update_of_ne (Ne.symm hi)])
        (by rw [resolved, Function.update_of_ne (Ne.symm hi)]) fun event hevent => ?_
      cases List.mem_singleton.mp hevent
      exact changeOf_other rfl (hc.lt_of_submitted i found) hid hi
    subst hi
    have hresult : c'.results i = { c.results i with finalized := true } := by
      rw [results, Function.update_self]
    have hsettled : c'.disputeResolved i = true := by
      rw [resolved, Function.update_self]
    refine shows_of_patches hx found (by rw [hresult]) (by rw [hresult]) (by rw [hresult])
      (by rw [hresult]) fun blockNumber => ?_
    rw [List.map_singleton, changeOf_self rfl]
    simp only [List.foldl_cons, List.foldl_nil, ownChange, RecordChange.apply, recordRow, statusOf,
      hresult, hsettled, if_true]
    rfl

/-- The changes of a row by the logs. -/
def changesOf (resultId : ℕ) (logs : List Log) : List (RecordChange ResultRow StatusPatch) :=
  (logs.filterMap parseLog).map (changeOf (rowId resultId))

theorem changesOf_append (resultId : ℕ) (logs logs' : List Log) :
    changesOf resultId (logs ++ logs') = changesOf resultId logs ++ changesOf resultId logs' := by
  rw [changesOf, List.filterMap_append, List.map_append, changesOf, changesOf]

theorem changesOf_flatten (resultId : ℕ) (blocks : List (List Log)) :
    changesOf resultId blocks.flatten = (blocks.map (changesOf resultId)).flatten := by
  rw [changesOf, List.filterMap_flatten, List.map_flatten, List.map_map]
  rfl

/-- The row along the transactions of a block. -/
theorem shows_of_block (recover : ℕ → List UInt8 → Option ℕ) {txs : List Transaction}
    (hc : Recorded c) (hx : Shows c resultId x) (hid : resultId < 2 ^ 256)
    (hstamp : ∀ tx ∈ txs, uint40 tx.msg.timestamp ≠ 0) :
    Recorded (run recover c txs) ∧ Patchable x (changesOf resultId (blockLogs recover c txs)) ∧
      Shows (run recover c txs) resultId
        ((changesOf resultId (blockLogs recover c txs)).foldl RecordChange.apply x) := by
  induction txs generalizing c x with
  | nil => exact ⟨hc, trivial, hx⟩
  | cons tx txs ih =>
    obtain ⟨hfirst, hrest⟩ := List.forall_mem_cons.mp hstamp
    rw [run, List.foldl_cons, ← run, TeeVerifier.step, blockLogs]
    cases hexec : execute recover c tx with
    | error e => exact ih hc hx hrest
    | ok c' =>
      have heffect := execute_effect hexec
      obtain ⟨hpatch, hshows⟩ := shows_of_effect heffect hc hfirst hid hx
      obtain ⟨hrecorded, hpatches, hrun⟩ := ih (recorded_of_effect heffect hc) hshows hrest
      dsimp only
      rw [changesOf_append, patchable_append, List.foldl_append]
      exact ⟨hrecorded, ⟨hpatch, hpatches⟩, hrun⟩

theorem stateAfter_cons (block : List Transaction) (chain : List (List Transaction)) :
    stateAfter recover c (block :: chain) = stateAfter recover (run recover c block) chain :=
  List.foldl_append

/-- The row along the chain. -/
theorem shows_of_chain (recover : ℕ → List UInt8 → Option ℕ) {chain : List (List Transaction)}
    (hc : Recorded c) (hx : Shows c resultId x) (hid : resultId < 2 ^ 256)
    (hstamp : ∀ tx ∈ chain.flatten, uint40 tx.msg.timestamp ≠ 0) :
    Patchable x ((chainLogs recover c chain).map (changesOf resultId)).flatten ∧
      Shows (stateAfter recover c chain) resultId
        (((chainLogs recover c chain).map (changesOf resultId)).flatten.foldl
          RecordChange.apply x) := by
  induction chain generalizing c x with
  | nil => exact ⟨trivial, hx⟩
  | cons block chain ih =>
    rw [List.flatten_cons, List.forall_mem_append] at hstamp
    obtain ⟨hrecorded, hpatch, hshows⟩ := shows_of_block recover hc hx hid hstamp.1
    obtain ⟨hpatches, hchain⟩ := ih hrecorded hshows hstamp.2
    rw [chainLogs, List.map_cons, List.flatten_cons, patchable_append, List.foldl_append,
      stateAfter_cons]
    exact ⟨⟨hpatch, hpatches⟩, hchain⟩

theorem chainLogs_append (c : TeeContract) (chain : List (List Transaction))
    (block : List Transaction) :
    chainLogs recover c (chain ++ [block]) =
      chainLogs recover c chain ++ [blockLogs recover (stateAfter recover c chain) block] := by
  induction chain generalizing c with
  | nil => rfl
  | cons first chain ih =>
    rw [List.cons_append, chainLogs, chainLogs, ih, stateAfter_cons, List.cons_append]

theorem length_chainLogs (c : TeeContract) (chain : List (List Transaction)) :
    (chainLogs recover c chain).length = chain.length := by
  induction chain generalizing c with
  | nil => rfl
  | cons block chain ih => rw [chainLogs, List.length_cons, ih, List.length_cons]

theorem chainLogs_take (c : TeeContract) (chain : List (List Transaction)) (n : ℕ) :
    chainLogs recover c (chain.take n) = (chainLogs recover c chain).take n := by
  induction chain generalizing c n with
  | nil => rw [List.take_nil, chainLogs, List.take_nil]
  | cons block chain ih =>
    cases n with
    | zero => rfl
    | succ n => rw [List.take_succ_cons, chainLogs, chainLogs, List.take_succ_cons, ih]

/-! ## The row along the polls -/

variable {c₀ : TeeContract} {w w' : World} {actions : List IndexerAction}

/-- The indexer as a consumer of the changes of one row. -/
def rowConsumer (recover : ℕ → List UInt8 → Option ℕ) (c₀ : TeeContract) (resultId : ℕ)
    (w : World) : Consumer (Option ResultRow) (RecordChange ResultRow StatusPatch) where
  blocks := (chainLogs recover c₀ w.chain).map (changesOf resultId)
  cursor := w.lastIndexedBlock
  view := getResult w.rows (rowId resultId)
  batch := w.batch.map (Prod.map (List.map (changeOf (rowId resultId))) id)

/-- The chain's times, and the row of a result of which no write failed. -/
structure Indexed (recover : ℕ → List UInt8 → Option ℕ) (c₀ : TeeContract) (resultId : ℕ)
    (w : World) : Prop where
  stamps : ∀ tx ∈ w.chain.flatten, uint40 tx.msg.timestamp ≠ 0
  tracks : (∀ event ∈ w.failed, event.resultId ≠ word resultId) →
    Tracks RecordChange.apply none (rowConsumer recover c₀ resultId w)

theorem indexed_start (recover : ℕ → List UInt8 → Option ℕ) (c₀ : TeeContract) (resultId : ℕ) :
    Indexed recover c₀ resultId World.start where
  stamps _ h := by cases h
  tracks _ := Tracks.start none

theorem Indexed.patchable (h : Indexed recover c₀ resultId w) (hc : Recorded c₀)
    (hfresh : (c₀.results resultId).submittedAt = 0) (hid : resultId < 2 ^ 256) :
    Patchable none (rowConsumer recover c₀ resultId w).blocks.flatten :=
  (shows_of_chain recover hc (.absent hfresh) hid h.stamps).1

/-- A step of the consumer. -/
theorem Indexed.of_step (h : Indexed recover c₀ resultId w) (hc : Recorded c₀)
    (hfresh : (c₀.results resultId).submittedAt = 0) (hid : resultId < 2 ^ 256)
    (hchain : w'.chain = w.chain) (hfailed : w'.failed = w.failed)
    (a : ConsumerAction (RecordChange ResultRow StatusPatch))
    (hstep : LogConsumers.step RecordChange.apply (rowConsumer recover c₀ resultId w) a =
      some (rowConsumer recover c₀ resultId w')) : Indexed recover c₀ resultId w' where
  stamps := by rw [hchain]; exact h.stamps
  tracks hwritten :=
    (h.tracks (by rwa [hfailed] at hwritten)).step (replayable_apply patch_again)
      (h.patchable hc hfresh hid) hstep

theorem Indexed.step (h : Indexed recover c₀ resultId w) (hc : Recorded c₀)
    (hfresh : (c₀.results resultId).submittedAt = 0) (hid : resultId < 2 ^ 256)
    {a : IndexerAction} (hstep : step recover c₀ w a = some w') :
    Indexed recover c₀ resultId w' := by
  cases a with
  | mineBlock txs =>
    simp only [ResultIndexer.step] at hstep
    split at hstep
    case isFalse => cases hstep
    case isTrue hall =>
      cases hstep
      refine ⟨fun tx htx => ?_, fun hwritten => ?_⟩
      · rw [List.flatten_append, List.mem_append, List.flatten_singleton] at htx
        rcases htx with hold | hnew
        · exact h.stamps tx hold
        · have hblock := List.all_eq_true.mp hall tx hnew
          rw [inBlock, Bool.and_eq_true, bne_iff_ne] at hblock
          exact hblock.2
      · have hblocks := (h.tracks hwritten).append
          (changesOf resultId (blockLogs recover (stateAfter recover c₀ w.chain) txs))
        simpa only [rowConsumer, chainLogs_append, List.map_append, List.map_cons,
          List.map_nil] using hblocks
  | poll =>
    simp only [ResultIndexer.step] at hstep
    split at hstep
    case h_1 => cases hstep
    case h_2 hidle =>
      split at hstep
      case isTrue =>
        cases hstep
        exact h
      case isFalse =>
        cases hstep
        refine h.of_step hc hfresh hid rfl rfl .poll ?_
        have hevents := changesOf_flatten resultId
          ((chainLogs recover c₀ w.chain).drop w.lastIndexedBlock)
        simp only [changesOf] at hevents
        simp only [LogConsumers.step, rowConsumer, hidle, Option.map_none, Option.map_some,
          Prod.map_apply, id, List.length_map, length_chainLogs, hevents, List.map_drop]
  | applyNext written =>
    simp only [ResultIndexer.step] at hstep
    split at hstep
    case h_2 => cases hstep
    case h_1 event events next hbusy =>
      split at hstep
      case isTrue =>
        cases hstep
        refine h.of_step hc hfresh hid rfl rfl .applyNext ?_
        simp only [LogConsumers.step, rowConsumer, hbusy, Option.map_some, Prod.map_apply, id,
          List.map_cons, getResult_applyEvent]
      case isFalse =>
        cases hstep
        refine ⟨h.stamps, fun hwritten => ?_⟩
        rw [List.forall_mem_append, List.forall_mem_singleton] at hwritten
        have hkeep : changeOf (rowId resultId) event = .keep :=
          if_neg fun heq => hwritten.2 (lowerHex_injective heq)
        refine (h.tracks hwritten.1).step (replayable_apply patch_again)
          (h.patchable hc hfresh hid) (a := .applyNext) ?_
        simp only [LogConsumers.step, rowConsumer, hbusy, Option.map_some, Prod.map_apply, id,
          List.map_cons, hkeep, RecordChange.apply]
  | setLastIndexedBlock =>
    simp only [ResultIndexer.step] at hstep
    split at hstep
    case h_2 => cases hstep
    case h_1 next hbusy =>
      cases hstep
      refine h.of_step hc hfresh hid rfl rfl .commit ?_
      simp only [LogConsumers.step, rowConsumer, hbusy, Option.map_some, Prod.map_apply, id,
        List.map_nil, Option.map_none]
  | stop =>
    cases hstep
    exact h.of_step hc hfresh hid rfl rfl .stop rfl

/-- When a poll has moved on, the row of a result of which no write failed is the record of the
contract after the last block of the poll, however often earlier polls were cut off and began
again. -/
theorem row_of_completed_poll {self chainId admin remainderVerifier : ℕ}
    (hrun : runSteps (step recover (initialStorage self chainId admin remainderVerifier))
      World.start actions = some w)
    (hstep : step recover (initialStorage self chainId admin remainderVerifier) w
      .setLastIndexedBlock = some w') (hid : resultId < 2 ^ 256)
    (hwritten : ∀ event ∈ w'.failed, event.resultId ≠ word resultId) :
    Shows (stateAfter recover (initialStorage self chainId admin remainderVerifier)
      (w'.chain.take w'.lastIndexedBlock)) resultId (getResult w'.rows (rowId resultId)) := by
  have hc := recorded_initialStorage self chainId admin remainderVerifier
  have hindexed := runSteps_invariant
    (I := Indexed recover (initialStorage self chainId admin remainderVerifier) resultId)
    (fun _ _ _ h _ hstep => h.step hc rfl hid hstep) (indexed_start recover _ resultId)
    meets_true hrun
  simp only [step] at hstep
  split at hstep
  case h_2 => cases hstep
  case h_1 next hbusy =>
    cases hstep
    have hbatch : (rowConsumer recover (initialStorage self chainId admin remainderVerifier) resultId
        w).batch = some ([], next) := by
      rw [rowConsumer, hbusy]
      rfl
    have hview := (hindexed.tracks hwritten).view_eq (replayable_apply patch_again)
      (hindexed.patchable hc rfl hid) hbatch
    have hstamp : ∀ tx ∈ (w.chain.take next).flatten, uint40 tx.msg.timestamp ≠ 0 :=
      fun tx htx => hindexed.stamps tx
        ((List.take_sublist next w.chain).flatten.subset htx)
    have hshows := (shows_of_chain recover hc (.absent rfl) hid hstamp).2
    rw [chainLogs_take, List.map_take] at hshows
    have hrow : getResult w.rows (rowId resultId) = _ := hview
    dsimp only
    rw [hrow]
    exact hshows

/-- Block `1` has a result of `12`, which `13` challenges; the first poll is cut off between the
two events. -/
def cutOffPolls : List IndexerAction :=
  let verifiers : Verifiers := fun _ _ => ⟨false, []⟩
  [.mineBlock [],
    .mineBlock (sampleTransaction verifiers 10 0 100 (.registerEnclave sampleEnclave 0) ::
      sampleOpening verifiers 1),
    .poll, .applyNext true, .stop, .poll, .applyNext true, .applyNext true]

theorem row_after_cut_off_poll : ∃ w w',
    runSteps (step sampleRecover (initialStorage 15 1 10 11)) World.start cutOffPolls = some w ∧
      step sampleRecover (initialStorage 15 1 10 11) w .setLastIndexedBlock = some w' ∧
        Shows (stateAfter sampleRecover (initialStorage 15 1 10 11)
            (w'.chain.take w'.lastIndexedBlock)) (generateResultId 12 1 0 1)
          (getResult w'.rows (rowId (generateResultId 12 1 0 1))) := by
  have hfailed : ((runSteps (step sampleRecover (initialStorage 15 1 10 11)) World.start
      cutOffPolls).bind fun w => (step sampleRecover (initialStorage 15 1 10 11) w
        .setLastIndexedBlock).map World.failed) = some [] := by
    decide +kernel
  obtain ⟨w, hrun, hw⟩ := Option.bind_eq_some_iff.mp hfailed
  obtain ⟨w', hstep, hnone⟩ := Option.map_eq_some_iff.mp hw
  refine ⟨w, w', hrun, hstep, row_of_completed_poll hrun hstep (keccak256_lt _) fun event h => ?_⟩
  rw [hnone] at h
  cases h

end WorldZk.ResultIndexer
