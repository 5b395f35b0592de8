import WorldZk.ExecutionEngine

/-!
# The upgradeable engine

`UpgradeableExecutionEngine` behind its `UUPSProxy`: the requests, the fee parameters, the upgrades
and the optional timelock. The payments are external calls in the sense of `ReentrantCalls`; the
registry and the verifier are only read. What the initialization code of an upgrade does to the
storage and to the balance is an input of the call. After an upgrade to an implementation with other
code, the run of this engine is over.

The state also keeps the log of the calls that changed a setting.
-/

namespace WorldZk.UpgradeableEngine

open CheckedRuns ReentrantCalls OwnedContracts
open ExecutionEngine (RequestStatus uint48 MIN_TIP DEFAULT_EXPIRATION MAX_EXPIRATION
  MIN_EXPIRATION MAX_FEE_BPS DEFAULT_PROTOCOL_FEE_BPS CLAIM_WINDOW)

/-! ## Storage -/

structure UpgradeableRequest where
  id : ℕ
  imageId : ℕ
  inputDigest : ℕ
  requester : ℕ
  createdAt : ℕ
  expiresAt : ℕ
  callbackContract : ℕ
  status : RequestStatus
  claimedBy : ℕ
  claimDeadline : ℕ
  tip : ℕ
deriving DecidableEq, Repr

/-- What can be set by an upgrade, by the functions behind `onlyTimelocked` and by
`setTimelock`. -/
structure Settings where
  implementation : ℕ
  protocolFeeBps : ℕ
  feeRecipient : ℕ
  timelock : ℕ
deriving DecidableEq, Repr

structure UpgradeableStorage where
  settings : Settings
  admin : ℕ
  initialized : ℕ
  registry : ℕ
  verifier : ℕ
  nextRequestId : ℕ
  requests : ℕ → UpgradeableRequest
  proverCompletedCount : ℕ → ℕ
  proverEarnings : ℕ → ℕ
  paused : Bool
  entered : Bool

inductive UpgradeableError
  | notPayable
  | otherCode
  | notAdmin
  | notTimelocked
  | invalidImplementation
  | alreadyInitialized
  | upgradeCallFailed
  | invalidAddress
  | enforcedPause
  | expectedPause
  | reentrantCall
  | transferFailed
  | feeTooHigh
  | zeroImageId
  | programNotActive
  | expirationTooLong
  | expirationTooShort
  | expirationOverflow
  | insufficientTip
  | requestNotFound
  | notPending
  | requestExpired
  | notClaimed
  | notClaimant
  | deadlinePassed
  | emptySeal
  | emptyJournal
  | invalidProof
  | notRequester
  | panicOverflow
deriving DecidableEq, Repr

abbrev UpgradeableCall (α : Type) : Type := Except UpgradeableError α

/-! ## Calls -/

/-- What other contracts answer. `delegatecall` is what the code of an implementation makes of the
storage and the balance, or `none` when it reverts. -/
structure Outside where
  isProgramActive : ℕ → ℕ → Bool
  verify : ℕ → List UInt8 → ℕ → List UInt8 → Bool
  hasCode : ℕ → Bool
  delegatecall : ℕ → List UInt8 → UpgradeableStorage → ℕ → Option (UpgradeableStorage × ℕ)

/-- The functions of the engine, and ether that the proxy receives. -/
inductive Operation
  | initializeEngine (registry verifier feeRecipient admin : ℕ)
  | reinitializeEngine (version : ℕ)
  | requestExecution (imageId inputDigest callbackContract expirationSeconds : ℕ)
  | claimExecution (requestId : ℕ)
  | submitProof (requestId : ℕ) (sealBytes journal : List UInt8)
  | cancelExecution (requestId : ℕ)
  | setProtocolFee (feeBps : ℕ)
  | setFeeRecipient (recipient : ℕ)
  | pause
  | unpause
  | changeAdmin (newAdmin : ℕ)
  | setTimelock (timelock : ℕ)
  | upgradeTo (newImplementation : ℕ)
  | upgradeToAndCall (newImplementation : ℕ) (data : List UInt8)
  | receiveEther
deriving DecidableEq, Repr

def Operation.payable : Operation → Bool
  | requestExecution .. => true
  | upgradeToAndCall .. => true
  | receiveEther => true
  | _ => false

structure UpgradeableMessage where
  context : CallContext
  operation : Operation
  outside : Outside

/-- The functions that change a setting. -/
inductive Setter
  | initializeEngine
  | setTimelock
  | setProtocolFee
  | setFeeRecipient
  | upgradeTo
  | upgradeToAndCall (data : List UInt8)
deriving DecidableEq, Repr

/-- The function is behind `onlyTimelocked`. -/
def Setter.timelocked : Setter → Bool
  | setProtocolFee => true
  | setFeeRecipient => true
  | upgradeTo => true
  | upgradeToAndCall _ => true
  | _ => false

/-- A call that changed a setting, with the admin at that time. -/
structure Change where
  setter : Setter
  sender : ℕ
  admin : ℕ
  before : Settings
  after : Settings
deriving DecidableEq, Repr

structure UpgradeableState where
  storage : UpgradeableStorage
  balance : ℕ
  log : List Change

/-- A payment to a prover, to the fee recipient or back to a requester. -/
structure PayCall where
  payee : ℕ
  amount : ℕ

abbrev UpgradeableBody : Type := Body PayCall Unit UpgradeableError UpgradeableState

/-! ## Guards -/

def onlyAdmin (c : UpgradeableStorage) (ctx : CallContext) : UpgradeableCall Unit :=
  require (ctx.sender == c.admin) .notAdmin

/-- `onlyTimelocked`: the timelock if one is set, and the admin otherwise. -/
def onlyTimelocked (c : UpgradeableStorage) (ctx : CallContext) : UpgradeableCall Unit :=
  if c.settings.timelock ≠ 0 then require (ctx.sender == c.settings.timelock) .notTimelocked
  else require (ctx.sender == c.admin) .notAdmin

def whenNotPaused (c : UpgradeableStorage) : UpgradeableCall Unit :=
  require (!c.paused) .enforcedPause

def setEntered (entered : Bool) (s : UpgradeableState) : UpgradeableState :=
  { s with storage := { s.storage with entered := entered } }

def nonReentrant (s : UpgradeableState) (f : UpgradeableState → UpgradeableBody) :
    UpgradeableBody :=
  .guarded (fun s => s.storage.entered) setEntered .reentrantCall s f

def payTo (s : UpgradeableState) (payee amount : ℕ)
    (next : UpgradeableState → UpgradeableBody) : UpgradeableBody :=
  if amount ≤ s.balance then
    .call ⟨payee, amount⟩ { s with balance := s.balance - amount } fun answer s' =>
      match answer with
      | some _ => next s'
      | none => .revert .transferFailed
  else .revert .transferFailed

/-! ## Requests -/

def withStorage (s : UpgradeableState) (c : UpgradeableStorage) : UpgradeableState :=
  { s with storage := c }

def setRequest (c : UpgradeableStorage) (requestId : ℕ) (req : UpgradeableRequest) :
    UpgradeableStorage :=
  { c with requests := Function.update c.requests requestId req }

def requestExecution (c : UpgradeableStorage) (ctx : CallContext) (outside : Outside)
    (imageId inputDigest callbackContract expirationSeconds : ℕ) :
    UpgradeableCall UpgradeableStorage := do
  require (imageId != 0) .zeroImageId
  require (decide (MIN_TIP ≤ ctx.value)) .insufficientTip
  require (outside.isProgramActive c.registry imageId) .programNotActive
  let expiration := if 0 < expirationSeconds then expirationSeconds else DEFAULT_EXPIRATION
  require (decide (expiration ≤ MAX_EXPIRATION)) .expirationTooLong
  require (decide (MIN_EXPIRATION ≤ expiration)) .expirationTooShort
  let expiresAt ← checkedAdd .panicOverflow ctx.timestamp expiration
  require (decide (expiresAt ≤ 2 ^ 48 - 1)) .expirationOverflow
  let requestId := c.nextRequestId
  let nextRequestId ← checkedAdd .panicOverflow c.nextRequestId 1
  pure { setRequest c requestId
    { id := requestId
      imageId := imageId
      inputDigest := inputDigest
      requester := ctx.sender
      createdAt := uint48 ctx.timestamp
      expiresAt := uint48 expiresAt
      callbackContract := callbackContract
      status := .pending
      claimedBy := 0
      claimDeadline := 0
      tip := ctx.value } with nextRequestId := nextRequestId }

/-- `claimExecution`, which takes pending requests only. -/
def claimExecution (c : UpgradeableStorage) (ctx : CallContext) (requestId : ℕ) :
    UpgradeableCall UpgradeableStorage := do
  let req := c.requests requestId
  require (req.id != 0) .requestNotFound
  require (req.status == .pending) .notPending
  require (decide (ctx.timestamp ≤ req.expiresAt)) .requestExpired
  let claimDeadline ← checkedAdd .panicOverflow ctx.timestamp CLAIM_WINDOW
  pure (setRequest c requestId
    { req with
      status := .claimed
      claimedBy := ctx.sender
      claimDeadline := uint48 claimDeadline })

def checkProof (c : UpgradeableStorage) (ctx : CallContext) (outside : Outside) (requestId : ℕ)
    (sealBytes journal : List UInt8) : UpgradeableCall Unit := do
  whenNotPaused c
  let req := c.requests requestId
  require (req.id != 0) .requestNotFound
  require (req.status == .claimed) .notClaimed
  require (req.claimedBy == ctx.sender) .notClaimant
  require (decide (ctx.timestamp ≤ req.claimDeadline)) .deadlinePassed
  require (decide (sealBytes ≠ [])) .emptySeal
  require (decide (journal ≠ [])) .emptyJournal
  require (outside.verify c.verifier sealBytes req.imageId (Sha256.sha256 journal)) .invalidProof

/-- The fee of a tip; the prover gets the rest. -/
def protocolFee (c : UpgradeableStorage) (tip : ℕ) : UpgradeableCall ℕ := do
  let scaled ← checkedMul .panicOverflow tip c.settings.protocolFeeBps
  pure (scaled / 10000)

def completeRequest (c : UpgradeableStorage) (ctx : CallContext) (requestId payout : ℕ) :
    UpgradeableCall UpgradeableStorage := do
  let count ← checkedAdd .panicOverflow (c.proverCompletedCount ctx.sender) 1
  let earnings ← checkedAdd .panicOverflow (c.proverEarnings ctx.sender) payout
  pure { setRequest c requestId { c.requests requestId with status := .completed } with
    proverCompletedCount := Function.update c.proverCompletedCount ctx.sender count
    proverEarnings := Function.update c.proverEarnings ctx.sender earnings }

def submitProof (s : UpgradeableState) (ctx : CallContext) (outside : Outside) (requestId : ℕ)
    (sealBytes journal : List UInt8) : UpgradeableBody :=
  .after (checkProof s.storage ctx outside requestId sealBytes journal) fun _ =>
    let tip := (s.storage.requests requestId).tip
    .after (protocolFee s.storage tip) fun fee =>
      .after (checkedSub .panicOverflow tip fee) fun payout =>
        .after (completeRequest s.storage ctx requestId payout) fun c =>
          payTo (withStorage s c) ctx.sender payout fun s =>
            if 0 < fee then payTo s s.storage.settings.feeRecipient fee .done else .done s

def checkCancel (c : UpgradeableStorage) (ctx : CallContext) (requestId : ℕ) :
    UpgradeableCall Unit := do
  let req := c.requests requestId
  require (req.id != 0) .requestNotFound
  require (req.requester == ctx.sender) .notRequester
  require (req.status == .pending) .notPending

/-- `cancelExecution`, which a pause does not stop. -/
def cancelExecution (s : UpgradeableState) (ctx : CallContext) (requestId : ℕ) :
    UpgradeableBody :=
  .after (checkCancel s.storage ctx requestId) fun _ =>
    let req := s.storage.requests requestId
    payTo (withStorage s (setRequest s.storage requestId { req with status := .cancelled }))
      ctx.sender req.tip .done

/-! ## Settings -/

def record (s : UpgradeableState) (ctx : CallContext) (setter : Setter)
    (c : UpgradeableStorage) : UpgradeableState :=
  { s with
    storage := c
    log := s.log ++ [⟨setter, ctx.sender, s.storage.admin, s.storage.settings, c.settings⟩] }

/-- `initialize` behind `initializer`, once the proxy has code. -/
def initializeEngine (c : UpgradeableStorage) (registry verifier feeRecipient admin : ℕ) :
    UpgradeableCall UpgradeableStorage := do
  require (c.initialized == 0) .alreadyInitialized
  require (registry != 0) .invalidAddress
  require (verifier != 0) .invalidAddress
  require (feeRecipient != 0) .invalidAddress
  require (admin != 0) .invalidAddress
  pure { c with
    settings := { c.settings with
      protocolFeeBps := DEFAULT_PROTOCOL_FEE_BPS
      feeRecipient := feeRecipient }
    admin := admin
    initialized := 1
    registry := registry
    verifier := verifier
    nextRequestId := 1
    entered := false }

/-- `reinitialize`. -/
def reinitializeEngine (c : UpgradeableStorage) (ctx : CallContext) (version : ℕ) :
    UpgradeableCall UpgradeableStorage := do
  onlyAdmin c ctx
  require (decide (c.initialized < version)) .alreadyInitialized
  pure { c with initialized := version }

def setProtocolFee (c : UpgradeableStorage) (ctx : CallContext) (feeBps : ℕ) :
    UpgradeableCall UpgradeableStorage := do
  onlyTimelocked c ctx
  require (decide (feeBps ≤ MAX_FEE_BPS)) .feeTooHigh
  pure { c with settings := { c.settings with protocolFeeBps := feeBps } }

def setFeeRecipient (c : UpgradeableStorage) (ctx : CallContext) (recipient : ℕ) :
    UpgradeableCall UpgradeableStorage := do
  onlyTimelocked c ctx
  require (recipient != 0) .invalidAddress
  pure { c with settings := { c.settings with feeRecipient := recipient } }

/-- `pause` and `unpause`. -/
def setPaused (c : UpgradeableStorage) (ctx : CallContext) (paused : Bool) :
    UpgradeableCall UpgradeableStorage := do
  onlyAdmin c ctx
  require (c.paused != paused) (if paused then .enforcedPause else .expectedPause)
  pure { c with paused := paused }

def changeAdmin (c : UpgradeableStorage) (ctx : CallContext) (newAdmin : ℕ) :
    UpgradeableCall UpgradeableStorage := do
  onlyAdmin c ctx
  require (newAdmin != 0) .invalidAddress
  pure { c with admin := newAdmin }

/-- `setTimelock`, which sets the timelock or clears it. -/
def setTimelock (c : UpgradeableStorage) (ctx : CallContext) (timelock : ℕ) :
    UpgradeableCall UpgradeableStorage := do
  onlyAdmin c ctx
  pure { c with settings := { c.settings with timelock := timelock } }

/-- `upgradeTo` and `upgradeToAndCall` up to the call into the new implementation. -/
def setImplementation (c : UpgradeableStorage) (ctx : CallContext) (outside : Outside)
    (newImplementation : ℕ) : UpgradeableCall UpgradeableStorage := do
  onlyTimelocked c ctx
  require (outside.hasCode newImplementation) .invalidImplementation
  pure { c with settings := { c.settings with implementation := newImplementation } }

/-- `upgradeToAndCall`, which runs code of the new implementation on the storage if it has data for
it. -/
def upgradeToAndCall (s : UpgradeableState) (ctx : CallContext) (outside : Outside)
    (newImplementation : ℕ) (data : List UInt8) : UpgradeableCall UpgradeableState := do
  let c ← setImplementation s.storage ctx outside newImplementation
  if data = [] then pure (record s ctx (.upgradeToAndCall data) c)
  else
    match outside.delegatecall newImplementation data c s.balance with
    | some (c', balance) =>
      pure { record s ctx (.upgradeToAndCall data) c' with balance := balance }
    | none => .error .upgradeCallFailed

/-! ## Dispatch -/

/-- A function without external calls that changes no setting. -/
def plain (s : UpgradeableState) (x : UpgradeableCall UpgradeableStorage) : UpgradeableBody :=
  .after x fun c => .done (withStorage s c)

/-- A function without external calls that changes a setting. -/
def applySetter (s : UpgradeableState) (ctx : CallContext) (setter : Setter)
    (x : UpgradeableCall UpgradeableStorage) : UpgradeableBody :=
  .after x fun c => .done (record s ctx setter c)

def dispatch (tx : UpgradeableMessage) (s : UpgradeableState) : UpgradeableBody :=
  let ctx := tx.context
  match tx.operation with
  | .initializeEngine registry verifier feeRecipient admin =>
    applySetter s ctx .initializeEngine
      (initializeEngine s.storage registry verifier feeRecipient admin)
  | .reinitializeEngine version => plain s (reinitializeEngine s.storage ctx version)
  | .requestExecution imageId inputDigest callbackContract expirationSeconds =>
    .after (whenNotPaused s.storage) fun _ => nonReentrant s fun s =>
      plain s (requestExecution s.storage ctx tx.outside imageId inputDigest callbackContract
        expirationSeconds)
  | .claimExecution requestId =>
    .after (whenNotPaused s.storage) fun _ => nonReentrant s fun s =>
      plain s (claimExecution s.storage ctx requestId)
  | .submitProof requestId sealBytes journal =>
    nonReentrant s fun s => submitProof s ctx tx.outside requestId sealBytes journal
  | .cancelExecution requestId => nonReentrant s fun s => cancelExecution s ctx requestId
  | .setProtocolFee feeBps =>
    applySetter s ctx .setProtocolFee (setProtocolFee s.storage ctx feeBps)
  | .setFeeRecipient recipient =>
    applySetter s ctx .setFeeRecipient (setFeeRecipient s.storage ctx recipient)
  | .pause => plain s (setPaused s.storage ctx true)
  | .unpause => plain s (setPaused s.storage ctx false)
  | .changeAdmin newAdmin => plain s (changeAdmin s.storage ctx newAdmin)
  | .setTimelock timelock => applySetter s ctx .setTimelock (setTimelock s.storage ctx timelock)
  | .upgradeTo newImplementation =>
    applySetter s ctx .upgradeTo (setImplementation s.storage ctx tx.outside newImplementation)
  | .upgradeToAndCall newImplementation data =>
    .ofExcept (upgradeToAndCall s ctx tx.outside newImplementation data)
  | .receiveEther => .done s

/-- One message through the proxy, whose value is on the balance before the function body runs.
`isEngine` says which implementations have the code of this engine. -/
def upgradeableBody (isEngine : ℕ → Bool) (tx : UpgradeableMessage) (s : UpgradeableState) :
    UpgradeableBody :=
  .after (require (isEngine s.storage.settings.implementation) UpgradeableError.otherCode) fun _ =>
    .after (require (tx.operation.payable || tx.context.value == 0)
      UpgradeableError.notPayable) fun _ =>
        dispatch tx { s with balance := s.balance + tx.context.value }

/-- The constructor of the proxy, with `initialize` as its data. -/
def construct (implementation registry verifier feeRecipient admin : ℕ) :
    UpgradeableCall UpgradeableState := do
  let c ← initializeEngine
    { settings := ⟨implementation, 0, 0, 0⟩
      admin := 0
      initialized := 0
      registry := 0
      verifier := 0
      nextRequestId := 0
      requests := fun _ => ⟨0, 0, 0, 0, 0, 0, 0, .pending, 0, 0, 0⟩
      proverCompletedCount := fun _ => 0
      proverEarnings := fun _ => 0
      paused := false
      entered := false } registry verifier feeRecipient admin
  pure ⟨c, 0, []⟩

end WorldZk.UpgradeableEngine
