import WorldZk.OwnedContracts
import WorldZk.ReentrantCalls
import WorldZk.Sha256

/-!
# The execution engine

`ExecutionEngine`: requests with an escrowed tip, their claims and proofs, and the payments that
settle them. Its calls to the reputation contract, to the payees and to the callback of a request
are external calls in the sense of `ReentrantCalls`; the registry and the verifiers are only read,
and what they answer is an input of each call. The state also keeps the payments made and the
ether that was forced onto the contract.
-/

namespace WorldZk.ExecutionEngine

open CheckedRuns ReentrantCalls OwnedContracts

/-! ## Storage -/

inductive RequestStatus
  | pending
  | claimed
  | completed
  | expired
  | cancelled
deriving DecidableEq, Repr

structure ExecutionRequest where
  id : ℕ
  imageId : ℕ
  inputDigest : ℕ
  requester : ℕ
  createdAt : ℕ
  expiresAt : ℕ
  callbackContract : ℕ
  status : RequestStatus
  claimedBy : ℕ
  claimedAt : ℕ
  claimDeadline : ℕ
  tip : ℕ
  maxTip : ℕ
deriving DecidableEq, Repr

/-- What a request slot reads before it is written. -/
def ExecutionRequest.empty : ExecutionRequest := ⟨0, 0, 0, 0, 0, 0, 0, .pending, 0, 0, 0, 0, 0⟩

structure EngineStorage where
  admin : Administration
  reputation : ℕ
  requests : ℕ → ExecutionRequest
  nextRequestId : ℕ
  protocolFeeBps : ℕ
  feeRecipient : ℕ
  proverCompletedCount : ℕ → ℕ
  proverEarnings : ℕ → ℕ
  balance : ℕ

/-- `MIN_TIP`, in wei. -/
def MIN_TIP : ℕ := 10 ^ 14

def DEFAULT_EXPIRATION : ℕ := 60 * 60

def CLAIM_WINDOW : ℕ := 10 * 60

def TIP_DECAY_PERIOD : ℕ := 30 * 60

def DEFAULT_PROTOCOL_FEE_BPS : ℕ := 250

def MAX_FEE_BPS : ℕ := 1000

def MAX_EXPIRATION : ℕ := 30 * 24 * 60 * 60

def MIN_EXPIRATION : ℕ := 60

/-- `uint48(..)`. -/
@[irreducible] def uint48 (n : ℕ) : ℕ := n % 2 ^ 48

inductive EngineError
  | notPayable
  | unauthorizedAccount
  | enforcedPause
  | expectedPause
  | reentrantCall
  | insufficientTip
  | programNotActive
  | programNotFound
  | requestNotFound
  | requestNotPending
  | requestNotClaimed
  | notRequester
  | notClaimant
  | claimNotExpired
  | requestExpired
  | claimDeadlinePassed
  | invalidProof
  | emptySeal
  | emptyJournal
  | transferFailed
  | zeroImageId
  | expirationInPast
  | zeroAddress
  | expirationOverflow
  | expirationTooLong
  | expirationTooShort
  | feeTooHigh
  | claimDeadlineNotPassed
  | reputationNotConfigured
  | callToNonContract
  | panicOverflow
deriving DecidableEq, Repr

def ofAdminError : AdminError → EngineError
  | .ownableUnauthorizedAccount => .unauthorizedAccount
  | .enforcedPause => .enforcedPause
  | .expectedPause => .expectedPause

abbrev EngineCall (α : Type) : Type := Except EngineError α

def ofAdmin {α : Type} (x : Except AdminError α) : EngineCall α := x.mapError ofAdminError

/-! ## Calls -/

/-- What the contracts answer that the engine only reads: the registry, the verifiers of the
programs and the default verifier. A `try` on an address without code is not caught. -/
structure Outside where
  isProgramActive : ℕ → Bool
  -- The verifier that a program is registered with, or `none` when `getProgram` reverts.
  verifierContract : ℕ → Option ℕ
  programVerify : ℕ → List UInt8 → ℕ → List UInt8 → Bool
  riscZeroVerify : List UInt8 → ℕ → List UInt8 → Bool
  hasCode : ℕ → Bool

/-- The functions of the engine, and ether that arrives without a call. The two overloads of
`requestExecution` differ in an event only. -/
inductive Operation
  | requestExecution (imageId inputDigest callbackContract expirationSeconds : ℕ)
  | cancelExecution (requestId : ℕ)
  | claimExecution (requestId : ℕ)
  | submitProof (requestId : ℕ) (sealBytes journal : List UInt8)
  | reportBadProof (requestId : ℕ)
  | setProtocolFee (feeBps : ℕ)
  | setFeeRecipient (recipient : ℕ)
  | setReputation (reputation : ℕ)
  | administer (operation : AdminOperation)
  | forcedEther
deriving DecidableEq, Repr

def Operation.payable : Operation → Bool
  | requestExecution .. => true
  | forcedEther => true
  | _ => false

structure EngineMessage where
  context : CallContext
  operation : Operation
  outside : Outside

inductive PaymentKind
  | payout
  | fee
  | refund
deriving DecidableEq, Repr

structure Payment where
  requestId : ℕ
  kind : PaymentKind
  payee : ℕ
  amount : ℕ
deriving DecidableEq, Repr

inductive ExternalCall
  | recordSuccess (reputation prover proofTimeMs earnings : ℕ)
  | recordFailure (reputation prover : ℕ)
  | recordAbandon (reputation prover requestId : ℕ)
  | pay (payment : Payment)
  | onExecutionComplete (callbackContract requestId imageId : ℕ) (journal : List UInt8)

structure EngineState where
  storage : EngineStorage
  entered : Bool
  payments : List Payment
  forced : ℕ

abbrev EngineBody : Type := Body ExternalCall Unit EngineError EngineState

/-! ## The functions -/

def withStorage (s : EngineState) (c : EngineStorage) : EngineState := { s with storage := c }

def setRequest (c : EngineStorage) (requestId : ℕ) (req : ExecutionRequest) : EngineStorage :=
  { c with requests := Function.update c.requests requestId req }

/-- A call in a `try`: it goes on after a callee that reverts, but not when there is no callee. -/
def tryCall (outside : Outside) (target : ℕ) (q : ExternalCall) (s : EngineState)
    (next : EngineState → EngineBody) : EngineBody :=
  if outside.hasCode target then .call q s fun _ s' => next s' else .revert .callToNonContract

/-- The state in which the payee of a payment gets control. -/
def paidState (s : EngineState) (p : Payment) : EngineState :=
  { s with
    storage := { s.storage with balance := s.storage.balance - p.amount }
    payments := s.payments ++ [p] }

/-- A transfer that makes the whole call revert when it fails. -/
def payTo (s : EngineState) (p : Payment) (next : EngineState → EngineBody) : EngineBody :=
  if p.amount ≤ s.storage.balance then
    .call (.pay p) (paidState s p) fun answer s' =>
      match answer with
      | some _ => next s'
      | none => .revert .transferFailed
  else .revert .transferFailed

def nonReentrant (s : EngineState) (f : EngineState → EngineBody) : EngineBody :=
  .guarded EngineState.entered (fun entered s => { s with entered := entered }) .reentrantCall s f

def requestExecution (c : EngineStorage) (ctx : CallContext) (outside : Outside)
    (imageId inputDigest callbackContract expirationSeconds : ℕ) : EngineCall EngineStorage := do
  ofAdmin (whenNotPaused c.admin)
  require (imageId != 0) .zeroImageId
  require (decide (MIN_TIP ≤ ctx.value)) .insufficientTip
  require (outside.isProgramActive imageId) .programNotActive
  let expiration := if 0 < expirationSeconds then expirationSeconds else DEFAULT_EXPIRATION
  require (decide (expiration ≤ MAX_EXPIRATION)) .expirationTooLong
  require (decide (MIN_EXPIRATION ≤ expiration)) .expirationTooShort
  let expiresAt ← checkedAdd .panicOverflow ctx.timestamp expiration
  require (decide (ctx.timestamp < expiresAt)) .expirationInPast
  let requestId := c.nextRequestId
  let nextRequestId ← checkedAdd .panicOverflow c.nextRequestId 1
  require (decide (expiresAt ≤ 2 ^ 48 - 1)) .expirationOverflow
  pure { setRequest c requestId
    { id := requestId
      imageId := imageId
      inputDigest := inputDigest
      requester := ctx.sender
      createdAt := uint48 ctx.timestamp
      expiresAt := uint48 expiresAt
      callbackContract := callbackContract
      status := .pending
      claimedBy := 0
      claimedAt := 0
      claimDeadline := 0
      tip := ctx.value
      maxTip := ctx.value } with nextRequestId := nextRequestId }

def checkCancel (c : EngineStorage) (ctx : CallContext) (requestId : ℕ) : EngineCall Unit := do
  let req := c.requests requestId
  require (req.id != 0) .requestNotFound
  require (req.requester == ctx.sender) .notRequester
  require (req.status == .pending) .requestNotPending

/-- `cancelExecution`, which a pause does not stop. -/
def cancelExecution (s : EngineState) (ctx : CallContext) (requestId : ℕ) : EngineBody :=
  .after (checkCancel s.storage ctx requestId) fun _ =>
    let req := s.storage.requests requestId
    payTo (withStorage s (setRequest s.storage requestId { req with status := .cancelled }))
      ⟨requestId, .refund, ctx.sender, req.tip⟩ .done

/-- The checks of `claimExecution`, with the prover whose claim ran out, or zero. -/
def checkClaim (c : EngineStorage) (ctx : CallContext) (requestId : ℕ) : EngineCall ℕ := do
  let req := c.requests requestId
  require (req.id != 0) .requestNotFound
  require (decide (ctx.timestamp ≤ req.expiresAt)) .requestExpired
  if req.status = .claimed then do
    require (decide (req.claimDeadline < ctx.timestamp)) .claimNotExpired
    pure req.claimedBy
  else do
    require (req.status == .pending) .requestNotPending
    pure 0

def claimExecution (s : EngineState) (ctx : CallContext) (outside : Outside) (requestId : ℕ) :
    EngineBody :=
  .after (ofAdmin (whenNotPaused s.storage.admin)) fun _ =>
    .after (checkClaim s.storage ctx requestId) fun previousClaimant =>
      .after (checkedAdd .panicOverflow ctx.timestamp CLAIM_WINDOW) fun claimDeadline =>
        let s' := withStorage s (setRequest s.storage requestId
          { s.storage.requests requestId with
            status := .claimed
            claimedBy := ctx.sender
            claimedAt := uint48 ctx.timestamp
            claimDeadline := uint48 claimDeadline })
        if previousClaimant ≠ 0 ∧ s'.storage.reputation ≠ 0 then
          tryCall outside s'.storage.reputation
            (.recordAbandon s'.storage.reputation previousClaimant requestId) s' .done
        else .done s'

/-- `calculatePayout`: the tip falls linearly to its half. -/
def calculatePayout (req : ExecutionRequest) (timestamp : ℕ) : EngineCall ℕ := do
  let elapsed ← checkedSub .panicOverflow timestamp req.createdAt
  if TIP_DECAY_PERIOD ≤ elapsed then pure (req.maxTip / 2)
  else do
    let scaled ← checkedMul .panicOverflow req.maxTip elapsed
    checkedSub .panicOverflow req.maxTip (scaled / (TIP_DECAY_PERIOD * 2))

/-- `_verifyProof`. -/
def verifyProof (outside : Outside) (imageId : ℕ) (sealBytes journal : List UInt8) :
    EngineCall Unit :=
  match outside.verifierContract imageId with
  | none => .error .programNotFound
  | some verifierContract =>
    if verifierContract ≠ 0 then
      require (outside.programVerify verifierContract sealBytes imageId journal) .invalidProof
    else require (outside.riscZeroVerify sealBytes imageId (Sha256.sha256 journal)) .invalidProof

def checkProof (c : EngineStorage) (ctx : CallContext) (outside : Outside) (requestId : ℕ)
    (sealBytes journal : List UInt8) : EngineCall Unit := do
  ofAdmin (whenNotPaused c.admin)
  let req := c.requests requestId
  require (req.id != 0) .requestNotFound
  require (req.status == .claimed) .requestNotClaimed
  require (req.claimedBy == ctx.sender) .notClaimant
  require (decide (ctx.timestamp ≤ req.claimDeadline)) .claimDeadlinePassed
  require (decide (sealBytes ≠ [])) .emptySeal
  require (decide (journal ≠ [])) .emptyJournal
  verifyProof outside req.imageId sealBytes journal

/-- The prover's share of a payout and the protocol's. -/
def splitPayout (protocolFeeBps payout : ℕ) : EngineCall (ℕ × ℕ) := do
  let scaled ← checkedMul .panicOverflow payout protocolFeeBps
  let proverPayout ← checkedSub .panicOverflow payout (scaled / 10000)
  pure (proverPayout, scaled / 10000)

/-- The storage after the proof is accepted: the request is completed and the prover's statistics
count it. -/
def completeRequest (c : EngineStorage) (ctx : CallContext) (requestId proverPayout : ℕ) :
    EngineCall EngineStorage := do
  let count ← checkedAdd .panicOverflow (c.proverCompletedCount ctx.sender) 1
  let earnings ← checkedAdd .panicOverflow (c.proverEarnings ctx.sender) proverPayout
  pure { setRequest c requestId { c.requests requestId with status := .completed } with
    proverCompletedCount := Function.update c.proverCompletedCount ctx.sender count
    proverEarnings := Function.update c.proverEarnings ctx.sender earnings }

/-- `if (address(reputation) != address(0)) { .. recordSuccess .. }`. -/
def recordSuccess (s : EngineState) (ctx : CallContext) (outside : Outside)
    (requestId proverPayout : ℕ) (next : EngineState → EngineBody) : EngineBody :=
  if s.storage.reputation ≠ 0 then
    .after (do
      let elapsed ← checkedSub EngineError.panicOverflow ctx.timestamp
        (s.storage.requests requestId).claimedAt
      checkedMul .panicOverflow elapsed 1000) fun proofTimeMs =>
        tryCall outside s.storage.reputation
          (.recordSuccess s.storage.reputation ctx.sender proofTimeMs proverPayout) s next
  else next s

/-- The callback of a completed request, which may revert. -/
def runCallback (s : EngineState) (outside : Outside) (requestId : ℕ) (journal : List UInt8) :
    EngineBody :=
  let req := s.storage.requests requestId
  if req.callbackContract ≠ 0 then
    tryCall outside req.callbackContract
      (.onExecutionComplete req.callbackContract requestId req.imageId journal) s .done
  else .done s

def submitProof (s : EngineState) (ctx : CallContext) (outside : Outside) (requestId : ℕ)
    (sealBytes journal : List UInt8) : EngineBody :=
  .after (checkProof s.storage ctx outside requestId sealBytes journal) fun _ =>
    .after (calculatePayout (s.storage.requests requestId) ctx.timestamp) fun payout =>
      .after (splitPayout s.storage.protocolFeeBps payout) fun (proverPayout, fee) =>
        .after (completeRequest s.storage ctx requestId proverPayout) fun c =>
          recordSuccess (withStorage s c) ctx outside requestId proverPayout fun s =>
            payTo s ⟨requestId, .payout, ctx.sender, proverPayout⟩ fun s =>
              if 0 < fee then
                payTo s ⟨requestId, .fee, s.storage.feeRecipient, fee⟩ fun s =>
                  runCallback s outside requestId journal
              else runCallback s outside requestId journal

def checkReport (c : EngineStorage) (ctx : CallContext) (requestId : ℕ) : EngineCall Unit := do
  let req := c.requests requestId
  require (req.id != 0) .requestNotFound
  require (req.status == .claimed) .requestNotClaimed
  require (decide (req.claimDeadline < ctx.timestamp)) .claimDeadlineNotPassed
  require (c.reputation != 0) .reputationNotConfigured

/-- `reportBadProof`, which a pause does not stop. -/
def reportBadProof (s : EngineState) (ctx : CallContext) (outside : Outside) (requestId : ℕ) :
    EngineBody :=
  .after (checkReport s.storage ctx requestId) fun _ =>
    let req := s.storage.requests requestId
    let s' := withStorage s (setRequest s.storage requestId
      { req with status := .pending, claimedBy := 0, claimedAt := 0, claimDeadline := 0 })
    tryCall outside s'.storage.reputation (.recordFailure s'.storage.reputation req.claimedBy) s'
      .done

def setProtocolFee (c : EngineStorage) (ctx : CallContext) (feeBps : ℕ) :
    EngineCall EngineStorage := do
  ofAdmin (onlyOwner c.admin ctx.sender)
  require (decide (feeBps ≤ MAX_FEE_BPS)) .feeTooHigh
  pure { c with protocolFeeBps := feeBps }

def setFeeRecipient (c : EngineStorage) (ctx : CallContext) (recipient : ℕ) :
    EngineCall EngineStorage := do
  ofAdmin (onlyOwner c.admin ctx.sender)
  require (recipient != 0) .zeroAddress
  pure { c with feeRecipient := recipient }

def setReputation (c : EngineStorage) (ctx : CallContext) (reputation : ℕ) :
    EngineCall EngineStorage := do
  ofAdmin (onlyOwner c.admin ctx.sender)
  pure { c with reputation := reputation }

def administerEngine (c : EngineStorage) (ctx : CallContext) (operation : AdminOperation) :
    EngineCall EngineStorage := do
  let admin ← ofAdmin (administer c.admin ctx.sender operation)
  pure { c with admin := admin }

/-- A function without external calls. -/
def plain (s : EngineState) (x : EngineCall EngineStorage) : EngineBody :=
  .after x fun c => .done (withStorage s c)

def credit (s : EngineState) (value : ℕ) : EngineState :=
  withStorage s { s.storage with balance := s.storage.balance + value }

def dispatch (tx : EngineMessage) (s : EngineState) : EngineBody :=
  match tx.operation with
  | .requestExecution imageId inputDigest callbackContract expirationSeconds =>
    plain s (requestExecution s.storage tx.context tx.outside imageId inputDigest callbackContract
      expirationSeconds)
  | .cancelExecution requestId =>
    nonReentrant s fun s => cancelExecution s tx.context requestId
  | .claimExecution requestId =>
    nonReentrant s fun s => claimExecution s tx.context tx.outside requestId
  | .submitProof requestId sealBytes journal =>
    nonReentrant s fun s => submitProof s tx.context tx.outside requestId sealBytes journal
  | .reportBadProof requestId =>
    nonReentrant s fun s => reportBadProof s tx.context tx.outside requestId
  | .setProtocolFee feeBps => plain s (setProtocolFee s.storage tx.context feeBps)
  | .setFeeRecipient recipient => plain s (setFeeRecipient s.storage tx.context recipient)
  | .setReputation reputation => plain s (setReputation s.storage tx.context reputation)
  | .administer operation => plain s (administerEngine s.storage tx.context operation)
  | .forcedEther => .done { s with forced := s.forced + tx.context.value }

/-- One message, whose value is on the balance before the function body runs. -/
def engineBody (tx : EngineMessage) (s : EngineState) : EngineBody :=
  .after (require (tx.operation.payable || tx.context.value == 0) EngineError.notPayable) fun _ =>
    dispatch tx (credit s tx.context.value)

/-- The constructor. -/
def construct (admin registry verifier feeRecipient : ℕ) : EngineCall EngineState := do
  require (admin != 0) .zeroAddress
  require (registry != 0) .zeroAddress
  require (verifier != 0) .zeroAddress
  require (feeRecipient != 0) .zeroAddress
  pure
    { storage :=
        { admin := ⟨admin, 0, false⟩
          reputation := 0
          requests := fun _ => ExecutionRequest.empty
          nextRequestId := 1
          protocolFeeBps := DEFAULT_PROTOCOL_FEE_BPS
          feeRecipient := feeRecipient
          proverCompletedCount := fun _ => 0
          proverEarnings := fun _ => 0
          balance := 0 }
      entered := false
      payments := []
      forced := 0 }

end WorldZk.ExecutionEngine
