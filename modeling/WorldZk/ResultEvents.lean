import WorldZk.HexText
import WorldZk.TeeReentrancy

/-!
# The events of the TEE result contract

What `TEEMLVerifier` logs about its results and what `parse_log` of the watcher crate reads in the
logs. The events of the functions behind `onlyAdmin` and `onlyTimelocked`, which no reader of
results knows, are left out.
-/

namespace WorldZk.ResultEvents

open CheckedRuns FieldArithmetic Keccak256 TeeVerifier TeeDisputes TeeReentrancy Transcript

/-- The `B256` of a word. -/
abbrev word (w : ℕ) : List UInt8 := wordToBeBytes w

/-- The last twenty bytes of a word. -/
def addressOf (bytes : List UInt8) : List UInt8 := (bytes.drop 12).take 20

structure Log where
  topics : List (List UInt8)
  data : List UInt8
  blockNumber : Option ℕ
deriving DecidableEq, Repr

/-! ## Topics -/

def eventTopic (signature : String) : List UInt8 := word (keccak256 (utf8 signature))

def TOPIC_RESULT_SUBMITTED : List UInt8 :=
  eventTopic "ResultSubmitted(bytes32,bytes32,bytes32,address)"

def TOPIC_RESULT_CHALLENGED : List UInt8 := eventTopic "ResultChallenged(bytes32,address)"

def TOPIC_RESULT_FINALIZED : List UInt8 := eventTopic "ResultFinalized(bytes32)"

def TOPIC_RESULT_EXPIRED : List UInt8 := eventTopic "ResultExpired(bytes32)"

def TOPIC_DISPUTE_RESOLVED : List UInt8 := eventTopic "DisputeResolved(bytes32,bool)"

/-- The topic of an event that the watcher does not know. -/
def TOPIC_DISPUTE_EXTENDED : List UInt8 := eventTopic "DisputeExtended(bytes32,uint256)"

/-- The topics, those that `parse_log` tests for in the opposite order. -/
def topics : List (List UInt8) :=
  [TOPIC_DISPUTE_EXTENDED, TOPIC_DISPUTE_RESOLVED, TOPIC_RESULT_EXPIRED, TOPIC_RESULT_FINALIZED,
    TOPIC_RESULT_CHALLENGED, TOPIC_RESULT_SUBMITTED]

theorem beValue_topics : topics.map beValue =
    [0xb7e717c7db158e68bc74d451398113d1eaa76e583fd35b43535ff2f4782fbb4c,
      0x6309d9f2499864a4f9d4ddb22f2b493afde8c215a1cd2e178647596cffe2efa4,
      0xce91eec3d4a12846bcc25bfcd925bccaece98d36b8460504eef566bb9f0a92f6,
      0x531940df687601ed4136aa673e705589fdac82035576fb0b7379964b97193792,
      0xddad479d6cf293bb88e77dd5fad20b1133db1dcb443bf02abd352ac3a09842f1,
      0xcbbfd00437c68789269982ebb1774629efbc497b9dd3e767a3870820602c35f1] := by
  decide +kernel

theorem topics_nodup : topics.Nodup :=
  .of_map beValue (by rw [beValue_topics]; decide)

/-! ## Parsing -/

/-- `TEEEvent` of the watcher crate. -/
inductive TEEEvent
  | resultSubmitted (resultId modelHash inputHash submitter : List UInt8) (blockNumber : ℕ)
  | resultChallenged (resultId challenger : List UInt8)
  | resultFinalized (resultId : List UInt8)
  | resultExpired (resultId : List UInt8)
  | disputeResolved (resultId : List UInt8) (proverWon : Bool)
deriving DecidableEq, Repr

def TEEEvent.resultId : TEEEvent → List UInt8
  | resultSubmitted resultId .. => resultId
  | resultChallenged resultId _ => resultId
  | resultFinalized resultId => resultId
  | resultExpired resultId => resultId
  | disputeResolved resultId _ => resultId

def parseLog (log : Log) : Option TEEEvent :=
  match log.topics with
  | [] => none
  | topic0 :: rest =>
    if topic0 = TOPIC_RESULT_SUBMITTED then do
      let resultId ← rest[0]?
      let modelHash ← rest[1]?
      let submitterTopic ← rest[2]?
      if log.data.length < 32 then none
      else
        some (.resultSubmitted resultId modelHash (log.data.take 32) (addressOf submitterTopic)
          (log.blockNumber.getD 0))
    else if topic0 = TOPIC_RESULT_CHALLENGED then do
      let resultId ← rest[0]?
      if log.data.length < 32 then none
      else some (.resultChallenged resultId (addressOf log.data))
    else if topic0 = TOPIC_RESULT_FINALIZED then do
      let resultId ← rest[0]?
      some (.resultFinalized resultId)
    else if topic0 = TOPIC_RESULT_EXPIRED then do
      let resultId ← rest[0]?
      some (.resultExpired resultId)
    else if topic0 = TOPIC_DISPUTE_RESOLVED then do
      let resultId ← rest[0]?
      if log.data.length < 32 then none
      else some (.disputeResolved resultId (log.data[31]? != some 0))
    else none

/-! ## What the contract logs -/

/-- The logs of a transaction that did not revert, with the storage that it left. -/
def emitted (c' : TeeContract) (tx : Transaction) : List Log :=
  let number := some tx.msg.blockNumber
  match tx.operation with
  | .submitResult modelHash inputHash _ _ =>
    let resultId := generateResultId tx.msg.sender modelHash inputHash tx.msg.blockNumber
    [⟨[TOPIC_RESULT_SUBMITTED, word resultId, word modelHash, word tx.msg.sender], word inputHash,
      number⟩]
  | .challenge resultId =>
    [⟨[TOPIC_RESULT_CHALLENGED, word resultId], word tx.msg.sender, number⟩]
  -- `_settleDispute` has written the outcome that it logs.
  | .resolveDispute resultId _ | .resolveDisputeHybrid resultId _ _
  | .resolveDisputeHybridChunked resultId _ _ _ _ | .resolveDisputeByTimeout resultId =>
    [⟨[TOPIC_DISPUTE_RESOLVED, word resultId],
      word (if c'.disputeProverWon resultId then 1 else 0), number⟩]
  | .extendDisputeWindow resultId =>
    [⟨[TOPIC_DISPUTE_EXTENDED, word resultId], word (c'.results resultId).disputeDeadline, number⟩]
  | .finalize resultId =>
    [⟨[TOPIC_RESULT_EXPIRED, word resultId], [], number⟩,
      ⟨[TOPIC_RESULT_FINALIZED, word resultId], [], number⟩]
  | _ => []

/-- The events that the watcher reads in the logs of a transaction. -/
def eventsOf (c' : TeeContract) (tx : Transaction) : List TEEEvent :=
  (emitted c' tx).filterMap parseLog

theorem parseLog_submitted (resultId modelHash inputHash sender number : ℕ) :
    parseLog ⟨[TOPIC_RESULT_SUBMITTED, word resultId, word modelHash, word sender], word inputHash,
      some number⟩ = some (.resultSubmitted (word resultId) (word modelHash) (word inputHash)
        (addressOf (word sender)) number) := by
  have htake : (word inputHash).take 32 = word inputHash :=
    List.take_of_length_le (by rw [length_wordToBeBytes])
  simp [parseLog, htake]

theorem parseLog_challenged (resultId sender : ℕ) (number : Option ℕ) :
    parseLog ⟨[TOPIC_RESULT_CHALLENGED, word resultId], word sender, number⟩ =
      some (.resultChallenged (word resultId) (addressOf (word sender))) := by
  have htopics := topics_nodup
  simp only [topics, List.nodup_cons, List.mem_cons, List.not_mem_nil, or_false, not_or] at htopics
  simp [parseLog, htopics]

theorem parseLog_finalized (resultId : ℕ) (number : Option ℕ) :
    parseLog ⟨[TOPIC_RESULT_FINALIZED, word resultId], [], number⟩ =
      some (.resultFinalized (word resultId)) := by
  have htopics := topics_nodup
  simp only [topics, List.nodup_cons, List.mem_cons, List.not_mem_nil, or_false, not_or] at htopics
  simp [parseLog, htopics]

theorem parseLog_expired (resultId : ℕ) (number : Option ℕ) :
    parseLog ⟨[TOPIC_RESULT_EXPIRED, word resultId], [], number⟩ =
      some (.resultExpired (word resultId)) := by
  have htopics := topics_nodup
  simp only [topics, List.nodup_cons, List.mem_cons, List.not_mem_nil, or_false, not_or] at htopics
  simp [parseLog, htopics]

theorem parseLog_resolved (resultId : ℕ) (proverWon : Bool) (number : Option ℕ) :
    parseLog ⟨[TOPIC_DISPUTE_RESOLVED, word resultId], word (if proverWon then 1 else 0), number⟩ =
      some (.disputeResolved (word resultId) proverWon) := by
  have htopics := topics_nodup
  simp only [topics, List.nodup_cons, List.mem_cons, List.not_mem_nil, or_false, not_or] at htopics
  simp only [parseLog, htopics, if_false, length_wordToBeBytes]
  cases proverWon <;> rfl

theorem parseLog_extended (resultId deadline : ℕ) (number : Option ℕ) :
    parseLog ⟨[TOPIC_DISPUTE_EXTENDED, word resultId], word deadline, number⟩ = none := by
  have htopics := topics_nodup
  simp only [topics, List.nodup_cons, List.mem_cons, List.not_mem_nil, or_false, not_or] at htopics
  simp [parseLog, htopics]

/-! ## One transaction -/

/-- What a transaction that does not revert does to the results, with the events of its logs. -/
inductive ResultEffect (c : TeeContract) (msg : Message) (c' : TeeContract) : List TEEEvent → Prop
  | none (results : c'.results = c.results) (resolved : c'.disputeResolved = c.disputeResolved) :
      ResultEffect c msg c' []
  | submitted (resultId : ℕ) (r : PackedMLResult) (fresh : (c.results resultId).submittedAt = 0)
      (stamp : r.submittedAt = uint40 msg.timestamp)
      (origin : generateResultId r.submitter r.modelHash r.inputHash msg.blockNumber = resultId)
      (unchallenged : r.challenged = false) (unsettled : r.finalized = false)
      (results : c'.results = Function.update c.results resultId r)
      (resolved : c'.disputeResolved = c.disputeResolved) :
      ResultEffect c msg c' [.resultSubmitted (word resultId) (word r.modelHash)
        (word r.inputHash) (addressOf (word r.submitter)) msg.blockNumber]
  | challenged (resultId deadline : ℕ) (found : (c.results resultId).submittedAt ≠ 0)
      (unsettled : (c.results resultId).finalized = false)
      (unchallenged : (c.results resultId).challenged = false)
      (results : c'.results = Function.update c.results resultId
        (challengedBy (c.results resultId) msg deadline))
      (resolved : c'.disputeResolved = c.disputeResolved) :
      ResultEffect c msg c' [.resultChallenged (word resultId) (addressOf (word msg.sender))]
  | extended (resultId deadline : ℕ)
      (results : c'.results = Function.update c.results resultId
        { c.results resultId with disputeDeadline := deadline })
      (resolved : c'.disputeResolved = c.disputeResolved) :
      ResultEffect c msg c' []
  | finalized (resultId : ℕ) (found : (c.results resultId).submittedAt ≠ 0)
      (unchallenged : (c.results resultId).challenged = false)
      (results : c'.results = Function.update c.results resultId
        { c.results resultId with finalized := true })
      (resolved : c'.disputeResolved = c.disputeResolved) :
      ResultEffect c msg c' [.resultExpired (word resultId), .resultFinalized (word resultId)]
  | settled (resultId : ℕ) (won : Bool) (wasChallenged : (c.results resultId).challenged = true)
      (results : c'.results = Function.update c.results resultId
        { c.results resultId with finalized := true })
      (resolved : c'.disputeResolved = Function.update c.disputeResolved resultId true) :
      ResultEffect c msg c' [.disputeResolved (word resultId) won]

variable {recover : ℕ → List UInt8 → Option ℕ} {c c' : TeeContract} {tx : Transaction}

theorem submitResult_effect {msg : Message} {modelHash inputHash resultId : ℕ}
    {result attestation : List UInt8}
    (h : submitResult recover c msg modelHash inputHash result attestation = .ok (resultId, c')) :
    resultId = generateResultId msg.sender modelHash inputHash msg.blockNumber ∧
      (c.results resultId).submittedAt = 0 ∧ ∃ r : PackedMLResult,
        r.submittedAt = uint40 msg.timestamp ∧ r.submitter = msg.sender ∧
          r.modelHash = modelHash ∧ r.inputHash = inputHash ∧ r.challenged = false ∧
            r.finalized = false ∧ c' = setResult c resultId r := by
  simp only [submitResult, bind_eq_ok] at h
  obtain ⟨_, -, _, -, h⟩ := h
  split at h
  · cases h
  · simp only [bind_eq_ok, require_eq_ok, pure_eq_ok, Prod.mk.injEq, beq_iff_eq] at h
    obtain ⟨_, -, _, -, _, hfresh, _, -, rfl, rfl⟩ := h
    exact ⟨rfl, hfresh, _, rfl, rfl, rfl, rfl, rfl, rfl, rfl⟩

theorem settleDispute_effect {accepts : ℕ → ℕ → Bool} {resultId : ℕ} {valid : Bool}
    (h : settleDispute c accepts resultId valid = .ok c') :
    c'.results = Function.update c.results resultId
        { c.results resultId with finalized := true } ∧
      c'.disputeResolved = Function.update c.disputeResolved resultId true := by
  simp only [settleDispute, bind_eq_ok, pay_eq_ok] at h
  obtain ⟨totalPot, -, -, rfl⟩ := h
  exact ⟨rfl, rfl⟩

theorem resolveWith_effect {verifiers : Verifiers} {accepts : ℕ → ℕ → Bool} {resultId : ℕ}
    {call : VerifierCall} (h : resolveWith c verifiers accepts resultId call = .ok c')
    (msg : Message) (number : Option ℕ) : ResultEffect c msg c'
      ([⟨[TOPIC_DISPUTE_RESOLVED, word resultId],
        word (if c'.disputeProverWon resultId then 1 else 0), number⟩].filterMap parseLog) := by
  simp only [resolveWith, bind_eq_ok, checkDisputed_eq_ok] at h
  obtain ⟨_, ⟨hchallenged, -⟩, _, -, valid, -, hsettle⟩ := h
  obtain ⟨hresults, hresolved⟩ := settleDispute_effect hsettle
  rw [List.filterMap_cons_some (parseLog_resolved _ _ _), List.filterMap_nil]
  exact .settled resultId _ hchallenged hresults hresolved

theorem finalize_effect {msg : Message} {accepts : ℕ → ℕ → Bool} {resultId : ℕ}
    (h : finalize c msg accepts resultId = .ok c') :
    (c.results resultId).submittedAt ≠ 0 ∧ (c.results resultId).challenged = false ∧
      c'.results = Function.update c.results resultId
          { c.results resultId with finalized := true } ∧
        c'.disputeResolved = c.disputeResolved := by
  simp only [finalize, bind_eq_ok, require_eq_ok, bne_iff_ne, Bool.not_eq_true'] at h
  obtain ⟨_, -, _, hfound, _, -, _, hunchallenged, _, -, h⟩ := h
  split at h
  · obtain ⟨-, rfl⟩ := pay_eq_ok.mp h
    exact ⟨hfound, hunchallenged, rfl, rfl⟩
  · obtain rfl := pure_eq_ok.mp h
    exact ⟨hfound, hunchallenged, rfl, rfl⟩

theorem dispatch_effect (h : dispatch recover c tx = .ok c') :
    ResultEffect c tx.msg c' (eventsOf c' tx) := by
  by_cases hadmin : isAdmin tx.operation = true
  · have hsame := admin_sameResults h hadmin
    obtain ⟨msg, operation, verifiers, accepts⟩ := tx
    cases operation <;> simp only [isAdmin, Bool.false_eq_true] at hadmin <;>
      exact .none hsame.results hsame.disputeResolved
  obtain ⟨msg, operation, verifiers, accepts⟩ := tx
  cases operation <;> simp only [isAdmin, Bool.false_eq_true, not_true_eq_false] at hadmin
  case submitResult modelHash inputHash result attestation =>
    obtain ⟨⟨resultId, c₁⟩, hsubmit, rfl⟩ := map_eq_ok.mp h
    obtain ⟨hid, hfresh, r, hstamp, hsubmitter, hmodel, hinput, hunchallenged, hunsettled, hc⟩ :=
      submitResult_effect hsubmit
    have hevents : eventsOf c₁ ⟨msg, .submitResult modelHash inputHash result attestation,
        verifiers, accepts⟩ = [.resultSubmitted (word resultId) (word r.modelHash)
          (word r.inputHash) (addressOf (word r.submitter)) msg.blockNumber] := by
      rw [eventsOf, emitted, List.filterMap_cons_some (parseLog_submitted _ _ _ _ _),
        List.filterMap_nil, ← hid, hsubmitter, hmodel, hinput]
    simp only [hevents]
    refine .submitted resultId r hfresh hstamp ?_ hunchallenged hunsettled ?_ ?_
    · rw [hsubmitter, hmodel, hinput, hid]
    · rw [hc]
      rfl
    · rw [hc]
      rfl
  case challenge resultId =>
    obtain ⟨hfound, hunsettled, hunchallenged, deadline, hc⟩ := challenge_eq_ok h
    rw [eventsOf, emitted, List.filterMap_cons_some (parseLog_challenged _ _ _),
      List.filterMap_nil]
    refine .challenged resultId deadline hfound hunsettled hunchallenged ?_ ?_
    · rw [hc]
      rfl
    · rw [hc]
      rfl
  case extendDisputeWindow resultId =>
    obtain ⟨-, -, -, -, hc⟩ := extendDisputeWindow_eq_ok h
    rw [eventsOf, emitted, List.filterMap_cons_none (parseLog_extended _ _ _), List.filterMap_nil]
    refine .extended resultId (uint40 ((c.results resultId).disputeDeadline + EXTENSION_PERIOD))
      ?_ ?_
    · rw [hc]
      rfl
    · rw [hc]
      rfl
  case finalize resultId =>
    obtain ⟨hfound, hunchallenged, hresults, hresolved⟩ := finalize_effect h
    rw [eventsOf, emitted, List.filterMap_cons_some (parseLog_expired _ _),
      List.filterMap_cons_some (parseLog_finalized _ _), List.filterMap_nil]
    exact .finalized resultId hfound hunchallenged hresults hresolved
  case receive =>
    obtain rfl := pure_eq_ok.mp h
    exact .none rfl rfl
  case resolveDispute =>
    simp only [dispatch, resolveDispute, bind_eq_ok] at h
    obtain ⟨_, -, h⟩ := h
    exact resolveWith_effect h msg _
  case resolveDisputeHybrid =>
    simp only [dispatch, resolveDisputeHybrid, bind_eq_ok] at h
    obtain ⟨_, -, _, -, h⟩ := h
    exact resolveWith_effect h msg _
  case resolveDisputeHybridChunked =>
    simp only [dispatch, resolveDisputeHybridChunked, bind_eq_ok] at h
    obtain ⟨_, -, _, -, h⟩ := h
    exact resolveWith_effect h msg _
  case resolveDisputeByTimeout resultId =>
    simp only [dispatch, resolveDisputeByTimeout, bind_eq_ok, checkDisputed_eq_ok] at h
    obtain ⟨_, -, _, ⟨hchallenged, -⟩, _, -, hsettle⟩ := h
    obtain ⟨hresults, hresolved⟩ := settleDispute_effect hsettle
    rw [eventsOf, emitted, List.filterMap_cons_some (parseLog_resolved _ _ _),
      List.filterMap_nil]
    exact .settled resultId _ hchallenged hresults hresolved

/-- The credited value is on the balance only. -/
theorem ResultEffect.of_credit {msg : Message} {value : ℕ} {events : List TEEEvent}
    (h : ResultEffect (credit c value) msg c' events) : ResultEffect c msg c' events := by
  cases h with
  | none results resolved => exact .none results resolved
  | submitted resultId r fresh stamp origin unchallenged unsettled results resolved =>
    exact .submitted resultId r fresh stamp origin unchallenged unsettled results resolved
  | challenged resultId deadline found unsettled unchallenged results resolved =>
    exact .challenged resultId deadline found unsettled unchallenged results resolved
  | extended resultId deadline results resolved => exact .extended resultId deadline results resolved
  | finalized resultId found unchallenged results resolved =>
    exact .finalized resultId found unchallenged results resolved
  | settled resultId won wasChallenged results resolved =>
    exact .settled resultId won wasChallenged results resolved

theorem execute_effect (h : execute recover c tx = .ok c') :
    ResultEffect c tx.msg c' (eventsOf c' tx) :=
  (dispatch_effect (execute_eq_ok.mp h).2).of_credit

end WorldZk.ResultEvents
