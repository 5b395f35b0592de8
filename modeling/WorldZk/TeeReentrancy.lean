import WorldZk.TeeDisputes
import WorldZk.ReentrantCalls

/-!
# The TEE result contract and its external calls

`TEEMLVerifier` makes two kinds of external call, to the verifier of a dispute and to the payee of
a stake. Here they are cut out of the functions, so that the callee may call the contract again;
the `nonReentrant` functions then revert. The state also keeps what was paid and what the verifier
answered.
-/

namespace WorldZk.TeeReentrancy

open CheckedRuns ReentrantCalls TeeVerifier TeeDisputes

/-! ## Calls and their bodies -/

inductive ExternalCall
  | verify (verifier : ℕ) (call : VerifierCall)
  | pay (payee amount : ℕ)

structure Payout where
  resultId : ℕ
  payee : ℕ
  amount : ℕ
deriving DecidableEq, Repr

/-- A call on the verifier for a dispute and what it returned, `none` when it reverted. -/
structure VerifierAnswer where
  resultId : ℕ
  call : VerifierCall
  returnData : Option (List UInt8)
deriving DecidableEq, Repr

structure TeeState where
  storage : TeeContract
  entered : Bool
  payouts : List Payout
  answers : List VerifierAnswer

inductive GuardedError
  | reentrantCall
  | reverted (e : TeeError)
deriving DecidableEq, Repr

structure TeeMessage where
  msg : Message
  operation : Operation

abbrev TeeBody : Type := Body ExternalCall (List UInt8) GuardedError TeeState

def withStorage (s : TeeState) (c : TeeContract) : TeeState := { s with storage := c }

/-- A check, or a function without external calls. -/
def reverting {α : Type} (x : TeeCall α) : Except GuardedError α := x.mapError .reverted

/-- A payment of a result's stakes. A failed transfer makes the whole call revert. -/
def payTo (s : TeeState) (failed : TeeError) (resultId payee amount : ℕ) : TeeBody :=
  if amount ≤ s.storage.balance then
    .call (.pay payee amount)
      { s with
        storage := { s.storage with balance := s.storage.balance - amount }
        payouts := s.payouts ++ [⟨resultId, payee, amount⟩] }
      fun answer s' =>
        match answer with
        | some _ => .done s'
        | none => .revert (.reverted failed)
  else .revert (.reverted failed)

/-- The storage after `_settleDispute`, before the payment. -/
def markSettled (c : TeeContract) (resultId : ℕ) (proofValid : Bool) : TeeContract :=
  { setResult c resultId { c.results resultId with finalized := true } with
    disputeResolved := Function.update c.disputeResolved resultId true
    disputeProverWon := Function.update c.disputeProverWon resultId proofValid }

/-- `_settleDispute`. -/
def settle (s : TeeState) (resultId : ℕ) (proofValid : Bool) : TeeBody :=
  let r := s.storage.results resultId
  .after (reverting (addChecked r.challengeBond r.proverStakeAmount)) fun totalPot =>
    payTo (withStorage s (markSettled s.storage resultId proofValid)) .payoutFailed resultId
      (if proofValid then r.submitter else r.challenger) totalPot

/-- What a low-level call returns to its caller. -/
def toResponse : Option (List UInt8) → Response
  | some returnData => ⟨true, returnData⟩
  | none => ⟨false, []⟩

/-- The part that the three resolution functions share. -/
def resolve (s : TeeState) (resultId : ℕ) (call : VerifierCall) : TeeBody :=
  .after (reverting (checkDisputed s.storage resultId)) fun _ =>
    .after (reverting (require (s.storage.remainderVerifier != 0) .noVerifierSet)) fun _ =>
      .call (.verify s.storage.remainderVerifier call) s fun answer s' =>
        .after (reverting (proofValid (toResponse answer))) fun valid =>
          settle { s' with answers := s'.answers ++ [⟨resultId, call, answer⟩] } resultId valid

def resolveByTimeout (s : TeeState) (msg : Message) (resultId : ℕ) : TeeBody :=
  .after (reverting (checkDisputed s.storage resultId)) fun _ =>
    .after (reverting (require
        (decide ((s.storage.results resultId).disputeDeadline ≤ msg.timestamp))
          .deadlineNotReached)) fun _ =>
      settle s resultId false

/-- The checks of `finalize`. -/
def checkFinalize (c : TeeContract) (msg : Message) (resultId : ℕ) : TeeCall Unit := do
  let r := c.results resultId
  require (r.submittedAt != 0) .resultNotFound
  require (decide (r.challengeDeadline ≤ msg.timestamp)) .challengeWindowNotPassed
  require (!r.challenged) .resultIsChallenged
  require (!r.finalized) .alreadyFinalized

def finalizeResult (s : TeeState) (msg : Message) (resultId : ℕ) : TeeBody :=
  .after (reverting (checkFinalize s.storage msg resultId)) fun _ =>
    let r := s.storage.results resultId
    let s' := withStorage s (setResult s.storage resultId { r with finalized := true })
    if 0 < r.proverStakeAmount then
      payTo s' .stakeReturnFailed resultId r.submitter r.proverStakeAmount
    else .done s'

def nonReentrant (s : TeeState) (f : TeeState → TeeBody) : TeeBody :=
  .guarded TeeState.entered (fun entered s => { s with entered := entered }) .reentrantCall s f

/-- A function without external calls. -/
def plain (s : TeeState) (x : TeeCall TeeContract) : TeeBody :=
  .after (reverting x) fun c => .done (withStorage s c)

section EntryPoints

variable (recover : ℕ → List UInt8 → Option ℕ)

/-- The function that a message calls. -/
def dispatchBody (tx : TeeMessage) (s : TeeState) : TeeBody :=
  let notPaused (b : TeeBody) : TeeBody := .after (reverting (whenNotPaused s.storage)) fun _ => b
  match tx.operation with
  | .submitResult modelHash inputHash result attestation =>
    notPaused (nonReentrant s fun s => plain s
      (Prod.snd <$> submitResult recover s.storage tx.msg modelHash inputHash result attestation))
  | .challenge resultId =>
    notPaused (nonReentrant s fun s => plain s (challenge s.storage tx.msg resultId))
  | .resolveDispute resultId tuple =>
    notPaused (nonReentrant s fun s => resolve s resultId
      (if s.storage.useStylusVerifier then .verifyDAGProofStylus tuple else .verifyDAGProof tuple))
  | .resolveDisputeHybrid resultId tuple ecGroth16Proof =>
    notPaused (nonReentrant s fun s =>
      .after (reverting (require s.storage.useStylusGroth16 .hybridNotEnabled)) fun _ =>
        resolve s resultId (.verifyDAGProofStylusGroth16 tuple ecGroth16Proof))
  | .resolveDisputeHybridChunked resultId tuple ecGroth16Proofs totalChunks opsDigest =>
    notPaused (nonReentrant s fun s =>
      .after (reverting (require s.storage.useStylusGroth16 .hybridNotEnabled)) fun _ =>
        resolve s resultId
          (.verifyDAGProofStylusGroth16Chunked tuple ecGroth16Proofs totalChunks opsDigest))
  | .resolveDisputeByTimeout resultId =>
    notPaused (nonReentrant s fun s => resolveByTimeout s tx.msg resultId)
  | .extendDisputeWindow resultId =>
    nonReentrant s fun s => plain s (extendDisputeWindow s.storage tx.msg resultId)
  | .finalize resultId => notPaused (nonReentrant s fun s => finalizeResult s tx.msg resultId)
  -- The functions behind `onlyAdmin` and `onlyTimelocked`, and `receive`, call nobody.
  | operation =>
    plain s (dispatch recover s.storage
      ⟨tx.msg, operation, fun _ _ => ⟨false, []⟩, fun _ _ => false⟩)

/-- One message, whose value is on the balance before the function body runs. -/
def teeBody (tx : TeeMessage) (s : TeeState) : TeeBody :=
  .after (reverting (require (tx.operation.payable || tx.msg.value == 0) .notPayable)) fun _ =>
    dispatchBody recover tx (withStorage s (credit s.storage tx.msg.value))

end EntryPoints

/-- The contract right after its deployment. -/
def deployed (c : TeeContract) : TeeState := ⟨c, false, [], []⟩

/-! ## What each function does to the storage -/

variable {recover : ℕ → List UInt8 → Option ℕ} {c c' : TeeContract} {s t : TeeState}

theorem reverting_eq_ok {α : Type} {x : TeeCall α} {a : α} :
    reverting x = .ok a ↔ x = .ok a := by
  cases x <;> simp [reverting, Except.mapError]

/-- Only parameters, enclaves and the balance may differ. -/
structure SameResults (c c' : TeeContract) : Prop where
  results : c'.results = c.results
  disputeResolved : c'.disputeResolved = c.disputeResolved
  disputeProverWon : c'.disputeProverWon = c.disputeProverWon
  disputeExtensions : c'.disputeExtensions = c.disputeExtensions
  balance : c.balance ≤ c'.balance
  proverStake : 0 < c.proverStake → 0 < c'.proverStake

theorem credit_sameResults (c : TeeContract) (value : ℕ) : SameResults c (credit c value) :=
  ⟨rfl, rfl, rfl, rfl, Nat.le_add_right _ _, id⟩

theorem admin_sameResults {tx : Transaction} (h : dispatch recover c tx = .ok c')
    (hadmin : isAdmin tx.operation = true) : SameResults c c' := by
  obtain ⟨msg, operation, verifiers, accepts⟩ := tx
  cases operation <;> simp only [isAdmin, Bool.false_eq_true] at hadmin <;>
    simp only [dispatch, registerEnclave, revokeEnclave, setRemainderVerifier,
      setChallengeBondAmount, setProverStake, setChallengeWindow, setDisputeWindow,
      setUseStylusVerifier, setUseStylusGroth16, pause, unpause, changeAdmin, setTimelock,
      checkAmount, bind_eq_ok, pure_eq_ok, require_eq_ok, bne_iff_ne] at h
  case registerEnclave | revokeEnclave =>
    obtain ⟨_, -, _, -, _, -, rfl⟩ := h
    exact ⟨rfl, rfl, rfl, rfl, le_rfl, id⟩
  case setUseStylusVerifier | setUseStylusGroth16 | setTimelock =>
    obtain ⟨_, -, rfl⟩ := h
    exact ⟨rfl, rfl, rfl, rfl, le_rfl, id⟩
  case setProverStake amount =>
    obtain ⟨_, -, _, ⟨_, hamount, -⟩, rfl⟩ := h
    exact ⟨rfl, rfl, rfl, rfl, le_rfl, fun _ => Nat.pos_of_ne_zero hamount⟩
  all_goals
    obtain ⟨_, -, _, -, rfl⟩ := h
    exact ⟨rfl, rfl, rfl, rfl, le_rfl, id⟩

theorem submitResult_eq_ok {msg : Message} {modelHash inputHash resultId : ℕ}
    {result attestation : List UInt8}
    (h : submitResult recover c msg modelHash inputHash result attestation = .ok (resultId, c')) :
    c.proverStake ≤ msg.value ∧ (c.results resultId).submittedAt = 0 ∧
      ∃ r, c' = setResult c resultId r ∧ r.finalized = false ∧ r.challenged = false ∧
        r.disputeDeadline = 0 ∧ r.submitter = msg.sender ∧ r.proverStakeAmount = msg.value := by
  simp only [submitResult, bind_eq_ok, require_eq_ok, decide_eq_true_eq] at h
  obtain ⟨_, -, _, hstake, h⟩ := h
  split at h
  · cases h
  · simp only [bind_eq_ok, require_eq_ok, pure_eq_ok, Prod.mk.injEq, beq_iff_eq] at h
    obtain ⟨_, -, _, -, _, hfresh, _, -, rfl, rfl⟩ := h
    exact ⟨hstake, hfresh, _, rfl, rfl, rfl, rfl, rfl, rfl⟩

/-- The record of a result after a challenge. -/
def challengedBy (r : PackedMLResult) (msg : Message) (deadline : ℕ) : PackedMLResult :=
  { r with
    challenged := true
    challenger := msg.sender
    challengeBond := msg.value
    disputeDeadline := uint40 deadline }

theorem challenge_eq_ok {msg : Message} {resultId : ℕ} (h : challenge c msg resultId = .ok c') :
    (c.results resultId).submittedAt ≠ 0 ∧ (c.results resultId).finalized = false ∧
      (c.results resultId).challenged = false ∧
        ∃ deadline, c' = setResult c resultId (challengedBy (c.results resultId) msg deadline) := by
  simp only [challenge, bind_eq_ok, pure_eq_ok, require_eq_ok, bne_iff_ne, Bool.not_eq_true'] at h
  obtain ⟨_, -, _, hsubmitted, _, hopen, _, hunchallenged, _, -, _, -, deadline, -, rfl⟩ := h
  exact ⟨hsubmitted, hopen, hunchallenged, deadline, rfl⟩

/-- The storage after an extension. -/
def extended (c : TeeContract) (resultId : ℕ) : TeeContract :=
  let r := c.results resultId
  { setResult c resultId
      { r with disputeDeadline := uint40 (r.disputeDeadline + EXTENSION_PERIOD) } with
    disputeExtensions :=
      Function.update c.disputeExtensions resultId (c.disputeExtensions resultId + 1) }

theorem extendDisputeWindow_eq_ok {msg : Message} {resultId : ℕ}
    (h : extendDisputeWindow c msg resultId = .ok c') :
    (c.results resultId).challenged = true ∧ c.disputeResolved resultId = false ∧
      (c.results resultId).submitter = msg.sender ∧ c.disputeExtensions resultId = 0 ∧
        c' = extended c resultId := by
  simp only [extendDisputeWindow, bind_eq_ok, pure_eq_ok, checkDisputed_eq_ok, require_eq_ok,
    beq_iff_eq, decide_eq_true_eq] at h
  obtain ⟨_, ⟨hchallenged, hopen⟩, _, hsubmitter, _, hextensions, rfl⟩ := h
  exact ⟨hchallenged, hopen, hsubmitter, Nat.lt_one_iff.mp hextensions, rfl⟩

theorem checkFinalize_eq_ok {msg : Message} {resultId : ℕ} {u : Unit} :
    checkFinalize c msg resultId = .ok u ↔
      (c.results resultId).submittedAt ≠ 0 ∧
        (c.results resultId).challengeDeadline ≤ msg.timestamp ∧
          (c.results resultId).challenged = false ∧ (c.results resultId).finalized = false := by
  simp only [checkFinalize, bind_eq_ok, require_eq_ok, bne_iff_ne, decide_eq_true_eq,
    Bool.not_eq_true', exists_const]

/-! ## Rules for the bodies -/

section Rules

variable {I : TeeState → Prop} {G : TeeState → TeeState → Prop} {post : TeeState → Prop}

theorem safe_plain {x : TeeCall TeeContract} (h : ∀ c, x = .ok c → post (withStorage s c)) :
    (plain s x).Safe I G post :=
  Body.safe_after fun c hc => h c (reverting_eq_ok.mp hc)

theorem safe_nonReentrant {f : TeeState → TeeBody}
    (h : s.entered = false →
      (f { s with entered := true }).Safe I G fun t => post { t with entered := false }) :
    (nonReentrant s f).Safe I G post :=
  Body.safe_guarded h

/-- The state in which a payee gets control. -/
def paidState (s : TeeState) (resultId payee amount : ℕ) : TeeState :=
  { s with
    storage := { s.storage with balance := s.storage.balance - amount }
    payouts := s.payouts ++ [⟨resultId, payee, amount⟩] }

theorem safe_payTo {failed : TeeError} {resultId payee amount : ℕ}
    (hpay : amount ≤ s.storage.balance → I (paidState s resultId payee amount))
    (hpost : ∀ t, amount ≤ s.storage.balance → I t → G (paidState s resultId payee amount) t →
      post t) :
    (payTo s failed resultId payee amount).Safe I G post := by
  unfold payTo
  split
  case isTrue hle => exact ⟨hpay hle, trivial, fun _ t hI hG => hpost t hle hI hG⟩
  case isFalse => trivial

theorem safe_check {α : Type} {x : TeeCall α} {f : α → TeeBody}
    (h : ∀ a, x = .ok a → (f a).Safe I G post) : (Body.after (reverting x) f).Safe I G post :=
  Body.safe_after fun a ha => h a (reverting_eq_ok.mp ha)

end Rules

/-! ## Runs without re-entrancy -/

/-- The answers that a transaction of the plain model fixes. -/
def answersOf (tx : Transaction) : ExternalCall → Option (List UInt8)
  | .verify verifier call =>
    if (tx.verifiers verifier call).success then some (tx.verifiers verifier call).returnData
    else none
  | .pay payee amount => if tx.accepts payee amount then some [] else none

/-- The body ends with the given storage when the calls are answered as in `tx`. -/
def EndsWith (tx : Transaction) (b : TeeBody) (c : TeeContract) (entered : Bool) : Prop :=
  ∃ t, b.eval (answersOf tx) = .ok t ∧ t.storage = c ∧ t.entered = entered

variable {tx : Transaction}

theorem endsWith_check {α : Type} {x : TeeCall α} {f : α → TeeBody} {a : α} {entered : Bool}
    (hx : x = .ok a) (h : EndsWith tx (f a) c entered) :
    EndsWith tx (.after (reverting x) f) c entered := by
  obtain ⟨t, ht, hstorage⟩ := h
  refine ⟨t, ?_, hstorage⟩
  rw [Body.eval_after, reverting_eq_ok.mpr hx, ok_bind, ht]

theorem endsWith_plain {x : TeeCall TeeContract} (hx : x = .ok c) :
    EndsWith tx (plain s x) c s.entered :=
  endsWith_check hx ⟨_, rfl, rfl, rfl⟩

theorem endsWith_nonReentrant {f : TeeState → TeeBody} (hentered : s.entered = false)
    (h : EndsWith tx (f { s with entered := true }) c true) :
    EndsWith tx (nonReentrant s f) c false := by
  obtain ⟨t, ht, rfl, -⟩ := h
  refine ⟨{ t with entered := false }, ?_, rfl, rfl⟩
  rw [nonReentrant, Body.guarded, hentered, if_neg Bool.false_ne_true, Body.eval_atEnd, ht]
  rfl

theorem endsWith_payTo {failed : TeeError} {resultId payee amount : ℕ}
    (h : pay s.storage tx.accepts failed payee amount = .ok c) :
    EndsWith tx (payTo s failed resultId payee amount) c s.entered := by
  obtain ⟨⟨hle, haccepts⟩, rfl⟩ := pay_eq_ok.mp h
  refine ⟨paidState s resultId payee amount, ?_, rfl, rfl⟩
  rw [payTo, if_pos hle, Body.eval, answersOf, if_pos haccepts]
  rfl

theorem endsWith_settle {resultId : ℕ} {valid : Bool}
    (h : settleDispute s.storage tx.accepts resultId valid = .ok c) :
    EndsWith tx (settle s resultId valid) c s.entered := by
  simp only [settleDispute, bind_eq_ok] at h
  obtain ⟨totalPot, hpot, hpay⟩ := h
  refine endsWith_check hpot ?_
  exact endsWith_payTo hpay

theorem proofValid_answersOf {verifier : ℕ} {call : VerifierCall} :
    proofValid (toResponse (answersOf tx (.verify verifier call))) =
      proofValid (tx.verifiers verifier call) := by
  cases hsuccess : (tx.verifiers verifier call).success with
  | false => simp [answersOf, hsuccess, toResponse, proofValid]
  | true => simp [answersOf, hsuccess, toResponse, proofValid]

theorem endsWith_resolve {resultId : ℕ} {call : VerifierCall}
    (h : resolveWith s.storage tx.verifiers tx.accepts resultId call = .ok c) :
    EndsWith tx (resolve s resultId call) c s.entered := by
  simp only [resolveWith, bind_eq_ok] at h
  obtain ⟨_, hdisputed, _, hverifier, valid, hvalid, hsettle⟩ := h
  refine endsWith_check hdisputed (endsWith_check hverifier ?_)
  rw [← proofValid_answersOf] at hvalid
  have hends := endsWith_check hvalid (endsWith_settle (s := { s with
    answers := s.answers ++ [⟨resultId, call,
      answersOf tx (.verify s.storage.remainderVerifier call)⟩] }) hsettle)
  exact hends

theorem endsWith_finalize {resultId : ℕ}
    (h : finalize s.storage tx.msg tx.accepts resultId = .ok c) :
    EndsWith tx (finalizeResult s tx.msg resultId) c s.entered := by
  simp only [finalize, bind_eq_ok] at h
  obtain ⟨_, -, _, hsubmitted, _, hdeadline, _, hunchallenged, _, hopen, hpay⟩ := h
  have hcheck : checkFinalize s.storage tx.msg resultId = .ok () := by
    simp only [checkFinalize, hsubmitted, hdeadline, hunchallenged, hopen, ok_bind]
  refine endsWith_check hcheck ?_
  dsimp only
  split
  case isTrue hstake =>
    rw [if_pos hstake] at hpay
    exact endsWith_payTo hpay
  case isFalse hstake =>
    rw [if_neg hstake] at hpay
    obtain rfl := pure_eq_ok.mp hpay
    exact ⟨_, rfl, rfl, rfl⟩

theorem endsWith_dispatch (hentered : s.entered = false)
    (h : dispatch recover s.storage tx = .ok c) :
    EndsWith tx (dispatchBody recover ⟨tx.msg, tx.operation⟩ s) c false := by
  obtain ⟨msg, operation, verifiers, accepts⟩ := tx
  cases operation
  case submitResult =>
    have hpaused : whenNotPaused s.storage = .ok () := by
      obtain ⟨_, hsubmit, -⟩ := map_eq_ok.mp h
      simp only [submitResult, bind_eq_ok] at hsubmit
      obtain ⟨_, hpaused, -⟩ := hsubmit
      exact hpaused
    exact endsWith_check hpaused (endsWith_nonReentrant hentered (endsWith_plain h))
  case challenge resultId =>
    have hpaused : whenNotPaused s.storage = .ok () := by
      simp only [dispatch, challenge, bind_eq_ok] at h
      obtain ⟨_, hpaused, -⟩ := h
      exact hpaused
    exact endsWith_check hpaused (endsWith_nonReentrant hentered (endsWith_plain h))
  case resolveDispute =>
    simp only [dispatch, resolveDispute, bind_eq_ok] at h
    obtain ⟨_, hpaused, h⟩ := h
    exact endsWith_check hpaused (endsWith_nonReentrant hentered (endsWith_resolve h))
  case resolveDisputeHybrid =>
    simp only [dispatch, resolveDisputeHybrid, bind_eq_ok] at h
    obtain ⟨_, hpaused, _, hhybrid, h⟩ := h
    exact endsWith_check hpaused
      (endsWith_nonReentrant hentered (endsWith_check hhybrid (endsWith_resolve h)))
  case resolveDisputeHybridChunked =>
    simp only [dispatch, resolveDisputeHybridChunked, bind_eq_ok] at h
    obtain ⟨_, hpaused, _, hhybrid, h⟩ := h
    exact endsWith_check hpaused
      (endsWith_nonReentrant hentered (endsWith_check hhybrid (endsWith_resolve h)))
  case resolveDisputeByTimeout =>
    simp only [dispatch, resolveDisputeByTimeout, bind_eq_ok] at h
    obtain ⟨_, hpaused, _, hdisputed, _, htime, h⟩ := h
    exact endsWith_check hpaused (endsWith_nonReentrant hentered
      (endsWith_check hdisputed (endsWith_check htime (endsWith_settle h))))
  case extendDisputeWindow resultId =>
    apply endsWith_nonReentrant (f := fun s => plain s
      (extendDisputeWindow s.storage msg resultId)) hentered
    exact endsWith_plain h
  case finalize =>
    have hpaused : whenNotPaused s.storage = .ok () := by
      simp only [dispatch, TeeVerifier.finalize, bind_eq_ok] at h
      obtain ⟨_, hpaused, -⟩ := h
      exact hpaused
    exact endsWith_check hpaused (endsWith_nonReentrant hentered (endsWith_finalize h))
  all_goals
    rw [← hentered]
    exact endsWith_plain h

theorem calls_of_execute (hentered : s.entered = false)
    (h : execute recover s.storage tx = .ok c) :
    ∃ t, Calls (teeBody recover) ⟨tx.msg, tx.operation⟩ s t ∧ t.storage = c ∧
      t.entered = false := by
  obtain ⟨hvalue, hdispatch⟩ := execute_eq_ok.mp h
  have hrequire :
      require (tx.operation.payable || tx.msg.value == 0) TeeError.notPayable = .ok () := by
    rw [require_eq_ok]
    exact hvalue
  have hcredited : (withStorage s (credit s.storage tx.msg.value)).entered = false := hentered
  have hends : EndsWith tx (teeBody recover ⟨tx.msg, tx.operation⟩ s) c false := by
    refine endsWith_check hrequire ?_
    exact endsWith_dispatch hcredited hdispatch
  obtain ⟨t, heval, hstorage, hentered'⟩ := hends
  exact ⟨t, Calls.of_eval heval, hstorage, hentered'⟩

/-- Every run of the plain model is a run here. -/
theorem run_of_plain (txs : List Transaction) (hentered : s.entered = false) :
    ∃ t, Run (teeBody recover) s t ∧ t.storage = TeeVerifier.run recover s.storage txs ∧
      t.entered = false := by
  induction txs using List.reverseRecOn with
  | nil => exact ⟨s, .refl, rfl, hentered⟩
  | append_singleton txs tx ih =>
    obtain ⟨t, hrun, hstorage, hwaiting⟩ := ih
    rw [run_append_singleton, ← hstorage]
    cases hexecute : execute recover t.storage tx with
    | error e =>
      rw [step, hexecute]
      exact ⟨t, hrun, rfl, hwaiting⟩
    | ok c =>
      rw [step_of_execute hexecute]
      obtain ⟨u, hcalls, hu⟩ := calls_of_execute hwaiting hexecute
      exact ⟨u, hrun.tail ⟨_, hcalls⟩, hu⟩

end WorldZk.TeeReentrancy
