import WorldZk.IndexedKeys
import WorldZk.Keccak256
import WorldZk.OwnedContracts
import WorldZk.ReentrantCalls
import WorldZk.Transcript

/-!
# The prover registry

`ProverRegistry`: registration and stakes, the list of active provers, slashing, reputation, and
the commit-reveal selection of a prover. The staking token is a standard ERC-20 token: a transfer
moves the amount or fails, and nobody else moves the tokens of the registry. Its calls are external
calls in the sense of `ReentrantCalls`. The state also keeps the registry's token balance and the
selections that were fulfilled.
-/

namespace WorldZk.ProverRegistry

open CheckedRuns ReentrantCalls OwnedContracts

/-! ## Storage -/

structure Prover where
  owner : ℕ
  stake : ℕ
  reputation : ℕ
  proofsSubmitted : ℕ
  proofsFailed : ℕ
  totalEarnings : ℕ
  registeredAt : ℕ
  lastActiveAt : ℕ
  active : Bool
  endpoint : List UInt8
deriving DecidableEq

/-- What a prover slot reads before it is written. -/
def Prover.empty : Prover := ⟨0, 0, 0, 0, 0, 0, 0, 0, false, []⟩

structure SlashEvent where
  prover : ℕ
  amount : ℕ
  reason : List UInt8
  timestamp : ℕ
deriving DecidableEq

structure SelectionRequest where
  commitment : ℕ
  blockNumber : ℕ
  requester : ℕ
  fulfilled : Bool
deriving DecidableEq, Repr

structure RegistryStorage where
  admin : Administration
  minStake : ℕ
  slashBasisPoints : ℕ
  provers : ℕ → Prover
  activeProvers : List ℕ
  proverIndex : ℕ → ℕ
  totalStaked : ℕ
  slashHistory : List SlashEvent
  slashers : ℕ → Bool
  selectionRequests : ℕ → SelectionRequest
  nextRequestId : ℕ

def REPUTATION_INCREMENT : ℕ := 50

def MAX_REPUTATION : ℕ := 10000

def SLASH_REPUTATION_PERCENT : ℕ := 95

def MAX_SLASH_BASIS_POINTS : ℕ := 5000

def MAX_URL_LENGTH : ℕ := 512

def MAX_REASON_LENGTH : ℕ := 256

def MAX_TOP_PROVERS : ℕ := 50

inductive RegistryError
  | notPayable
  | unauthorizedAccount
  | enforcedPause
  | expectedPause
  | reentrantCall
  | insufficientStake
  | slashBasisPointsTooHigh
  | proverNotRegistered
  | proverAlreadyRegistered
  | proverNotActive
  | unauthorizedSlasher
  | withdrawalWouldBreachMinimum
  | noStakeToWithdraw
  | invalidSecret
  | sameBlockReveal
  | requestAlreadyFulfilled
  | requestNotFound
  | noActiveProvers
  | tooManyTopProversRequested
  | stringTooLong (field : String) (maxLength : ℕ)
  | safeERC20FailedOperation
  | panicOverflow
  | panicOutOfBounds
deriving DecidableEq, Repr

def ofAdminError : AdminError → RegistryError
  | .ownableUnauthorizedAccount => .unauthorizedAccount
  | .enforcedPause => .enforcedPause
  | .expectedPause => .expectedPause

abbrev RegistryCall (α : Type) : Type := Except RegistryError α

def ofAdmin {α : Type} (x : Except AdminError α) : RegistryCall α := x.mapError ofAdminError

/-! ## Calls -/

/-- The functions of the registry, and tokens that somebody sends to it. -/
inductive Operation
  | register (stake : ℕ) (endpoint : List UInt8)
  | addStake (amount : ℕ)
  | withdrawStake (amount : ℕ)
  | deactivate
  | reactivate
  | slash (prover : ℕ) (reason : List UInt8)
  | recordSuccess (prover reward : ℕ)
  | requestProverSelection (commitment : ℕ)
  | fulfillProverSelection (requestId secret : ℕ)
  | setMinStake (minStake : ℕ)
  | setSlashBasisPoints (slashBasisPoints : ℕ)
  | setSlasher (slasher : ℕ) (authorized : Bool)
  | administer (operation : AdminOperation)
  | tokensReceived (amount : ℕ)
deriving DecidableEq, Repr

structure RegistryMessage where
  context : CallContext
  operation : Operation

inductive TokenCall
  | transferFrom (sender amount : ℕ)
  | transfer (recipient amount : ℕ)

/-- A fulfilled selection, with what its seed was made of. -/
structure Fulfilment where
  requestId : ℕ
  commitBlock : ℕ
  revealBlock : ℕ
  secret : ℕ
  hashWord : ℕ
  seed : ℕ
  prover : ℕ
deriving DecidableEq, Repr

structure RegistryState where
  storage : RegistryStorage
  entered : Bool
  tokenBalance : ℕ
  fulfilments : List Fulfilment

abbrev RegistryBody : Type := Body TokenCall Unit RegistryError RegistryState

/-! ## The staking token -/

def withStorage (s : RegistryState) (c : RegistryStorage) : RegistryState := { s with storage := c }

/-- `safeTransferFrom(sender, address(this), amount)`. -/
def pullTokens (s : RegistryState) (sender amount : ℕ) (next : RegistryState → RegistryBody) :
    RegistryBody :=
  .call (.transferFrom sender amount) s fun answer s' =>
    match answer with
    | some _ => next { s' with tokenBalance := s'.tokenBalance + amount }
    | none => .revert .safeERC20FailedOperation

/-- `safeTransfer(recipient, amount)`, the last thing that a function does. -/
def sendTokens (s : RegistryState) (recipient amount : ℕ) : RegistryBody :=
  if amount ≤ s.tokenBalance then
    .call (.transfer recipient amount) { s with tokenBalance := s.tokenBalance - amount }
      fun answer s' =>
        match answer with
        | some _ => .done s'
        | none => .revert .safeERC20FailedOperation
  else .revert .safeERC20FailedOperation

def nonReentrant (s : RegistryState) (f : RegistryState → RegistryBody) : RegistryBody :=
  .guarded RegistryState.entered (fun entered s => { s with entered := entered }) .reentrantCall s f

/-! ## The list of active provers -/

def setProver (c : RegistryStorage) (prover : ℕ) (p : Prover) : RegistryStorage :=
  { c with provers := Function.update c.provers prover p }

/-- `proverIndex[prover] = activeProvers.length; activeProvers.push(prover)`. -/
def pushActive (c : RegistryStorage) (prover : ℕ) : RegistryStorage :=
  { c with
    proverIndex := Function.update c.proverIndex prover c.activeProvers.length
    activeProvers := c.activeProvers ++ [prover] }

/-- `_activateProver`. -/
def activateProver (c : RegistryStorage) (prover : ℕ) : RegistryStorage :=
  pushActive (setProver c prover { c.provers prover with active := true }) prover

def activeProverAt (c : RegistryStorage) (i : ℕ) : RegistryCall ℕ :=
  (c.activeProvers[i]?).elim (.error .panicOutOfBounds) .ok

/-- The last prover takes the place of the one at `idx`, if it is another one. -/
def moveLast (c : RegistryStorage) (idx lastIdx : ℕ) : RegistryCall RegistryStorage :=
  if idx = lastIdx then pure c
  else do
    let lastProver ← activeProverAt c lastIdx
    require (decide (idx < c.activeProvers.length)) .panicOutOfBounds
    pure { c with
      activeProvers := c.activeProvers.set idx lastProver
      proverIndex := Function.update c.proverIndex lastProver idx }

/-- `_deactivateProver`. -/
def deactivateProver (c : RegistryStorage) (prover : ℕ) : RegistryCall RegistryStorage :=
  if !(c.provers prover).active then pure c
  else do
    let c := setProver c prover { c.provers prover with active := false }
    let idx := c.proverIndex prover
    let lastIdx ← checkedSub .panicOverflow c.activeProvers.length 1
    let c ← moveLast c idx lastIdx
    pure { c with
      activeProvers := c.activeProvers.dropLast
      proverIndex := Function.update c.proverIndex prover 0 }

/-! ## Stakes -/

def checkLength (field : String) (bytes : List UInt8) (maxLength : ℕ) : RegistryCall Unit :=
  require (decide (bytes.length ≤ maxLength)) (.stringTooLong field maxLength)

def checkRegister (c : RegistryStorage) (ctx : CallContext) (stake : ℕ) (endpoint : List UInt8) :
    RegistryCall Unit := do
  ofAdmin (whenNotPaused c.admin)
  checkLength "endpoint" endpoint MAX_URL_LENGTH
  require ((c.provers ctx.sender).registeredAt == 0) .proverAlreadyRegistered
  require (decide (c.minStake ≤ stake)) .insufficientStake

/-- What `register` does when the stake has arrived. -/
def createProver (c : RegistryStorage) (ctx : CallContext) (stake : ℕ) (endpoint : List UInt8) :
    RegistryCall RegistryStorage := do
  let c := setProver c ctx.sender
    { owner := ctx.sender
      stake := stake
      reputation := 5000
      proofsSubmitted := 0
      proofsFailed := 0
      totalEarnings := 0
      registeredAt := ctx.timestamp
      lastActiveAt := ctx.timestamp
      active := true
      endpoint := endpoint }
  let totalStaked ← checkedAdd .panicOverflow c.totalStaked stake
  pure { pushActive c ctx.sender with totalStaked := totalStaked }

def finish (s : RegistryState) (x : RegistryCall RegistryStorage) : RegistryBody :=
  .after x fun c => .done (withStorage s c)

def register (s : RegistryState) (ctx : CallContext) (stake : ℕ) (endpoint : List UInt8) :
    RegistryBody :=
  .after (checkRegister s.storage ctx stake endpoint) fun _ =>
    pullTokens s ctx.sender stake fun s => finish s (createProver s.storage ctx stake endpoint)

def checkRegistered (c : RegistryStorage) (prover : ℕ) : RegistryCall Unit :=
  require ((c.provers prover).registeredAt != 0) .proverNotRegistered

def checkAddStake (c : RegistryStorage) (ctx : CallContext) : RegistryCall Unit := do
  ofAdmin (whenNotPaused c.admin)
  checkRegistered c ctx.sender

/-- What `addStake` does when the stake has arrived. -/
def creditStake (c : RegistryStorage) (ctx : CallContext) (amount : ℕ) :
    RegistryCall RegistryStorage := do
  let stake ← checkedAdd .panicOverflow (c.provers ctx.sender).stake amount
  let totalStaked ← checkedAdd .panicOverflow c.totalStaked amount
  let c := { setProver c ctx.sender { c.provers ctx.sender with stake := stake } with
    totalStaked := totalStaked }
  if !(c.provers ctx.sender).active && decide (c.minStake ≤ (c.provers ctx.sender).stake) then
    pure (activateProver c ctx.sender)
  else pure c

def addStake (s : RegistryState) (ctx : CallContext) (amount : ℕ) : RegistryBody :=
  .after (checkAddStake s.storage ctx) fun _ =>
    pullTokens s ctx.sender amount fun s => finish s (creditStake s.storage ctx amount)

/-- `withdrawStake` up to its transfer. A pause does not stop it. -/
def debitStake (c : RegistryStorage) (ctx : CallContext) (amount : ℕ) :
    RegistryCall RegistryStorage := do
  let prover := c.provers ctx.sender
  checkRegistered c ctx.sender
  require (prover.stake != 0) .noStakeToWithdraw
  let newStake ← checkedSub .panicOverflow prover.stake amount
  require (!(prover.active && decide (newStake < c.minStake))) .withdrawalWouldBreachMinimum
  let totalStaked ← checkedSub .panicOverflow c.totalStaked amount
  pure { setProver c ctx.sender { prover with stake := newStake } with totalStaked := totalStaked }

def withdrawStake (s : RegistryState) (ctx : CallContext) (amount : ℕ) : RegistryBody :=
  .after (debitStake s.storage ctx amount) fun c => sendTokens (withStorage s c) ctx.sender amount

def deactivate (c : RegistryStorage) (ctx : CallContext) : RegistryCall RegistryStorage := do
  ofAdmin (whenNotPaused c.admin)
  checkRegistered c ctx.sender
  require (c.provers ctx.sender).active .proverNotActive
  deactivateProver c ctx.sender

def reactivate (c : RegistryStorage) (ctx : CallContext) : RegistryCall RegistryStorage := do
  ofAdmin (whenNotPaused c.admin)
  checkRegistered c ctx.sender
  if (c.provers ctx.sender).active then pure c
  else do
    require (decide (c.minStake ≤ (c.provers ctx.sender).stake)) .insufficientStake
    pure (activateProver c ctx.sender)

/-! ## Slashing and reputation -/

def checkSlasher (c : RegistryStorage) (ctx : CallContext) : RegistryCall Unit :=
  require (c.slashers ctx.sender || ctx.sender == c.admin.owner) .unauthorizedSlasher

def deactivateBelowMinimum (c : RegistryStorage) (prover : ℕ) : RegistryCall RegistryStorage :=
  if (c.provers prover).stake < c.minStake ∧ (c.provers prover).active = true then
    deactivateProver c prover
  else pure c

/-- `slash` up to its transfer, with the amount slashed. -/
def applySlash (c : RegistryStorage) (ctx : CallContext) (prover : ℕ) (reason : List UInt8) :
    RegistryCall (RegistryStorage × ℕ) := do
  checkSlasher c ctx
  checkLength "reason" reason MAX_REASON_LENGTH
  checkRegistered c prover
  let p := c.provers prover
  let scaled ← checkedMul .panicOverflow p.stake c.slashBasisPoints
  let slashAmount := min (scaled / 10000) p.stake
  let stake ← checkedSub .panicOverflow p.stake slashAmount
  let proofsFailed ← checkedAdd .panicOverflow p.proofsFailed 1
  let totalStaked ← checkedSub .panicOverflow c.totalStaked slashAmount
  let retained ← checkedMul .panicOverflow p.reputation SLASH_REPUTATION_PERCENT
  let c := { setProver c prover
    { p with stake := stake, proofsFailed := proofsFailed, reputation := retained / 100 } with
      totalStaked := totalStaked }
  let c ← deactivateBelowMinimum c prover
  pure ({ c with slashHistory := c.slashHistory ++ [⟨prover, slashAmount, reason, ctx.timestamp⟩] },
    slashAmount)

/-- `slash`, which pays what was slashed to the owner. -/
def slash (s : RegistryState) (ctx : CallContext) (prover : ℕ) (reason : List UInt8) :
    RegistryBody :=
  .after (applySlash s.storage ctx prover reason) fun (c, slashAmount) =>
    sendTokens (withStorage s c) c.admin.owner slashAmount

def recordSuccess (c : RegistryStorage) (ctx : CallContext) (prover reward : ℕ) :
    RegistryCall RegistryStorage := do
  ofAdmin (whenNotPaused c.admin)
  checkSlasher c ctx
  checkRegistered c prover
  let p := c.provers prover
  let proofsSubmitted ← checkedAdd .panicOverflow p.proofsSubmitted 1
  let totalEarnings ← checkedAdd .panicOverflow p.totalEarnings reward
  let reputation ← checkedAdd .panicOverflow p.reputation REPUTATION_INCREMENT
  pure (setProver c prover
    { p with
      proofsSubmitted := proofsSubmitted
      totalEarnings := totalEarnings
      lastActiveAt := ctx.timestamp
      reputation := min reputation MAX_REPUTATION })

/-! ## Selection -/

section Selection

open Transcript Keccak256

/-- The share of a prover in the selection. -/
def weight (p : Prover) : RegistryCall ℕ := do
  let scaled ← checkedMul .panicOverflow p.stake p.reputation
  pure (scaled / 10000)

def totalWeight (c : RegistryStorage) : RegistryCall ℕ :=
  c.activeProvers.foldlM (fun total prover => do
    let w ← weight (c.provers prover)
    checkedAdd .panicOverflow total w) 0

/-- The second loop of `_weightedSelect`: the first prover at which the weights pass `random`. -/
def firstAbove (c : RegistryStorage) (random : ℕ) : List ℕ → ℕ → RegistryCall (Option ℕ)
  | [], _ => pure none
  | prover :: provers, cumulative => do
    let w ← weight (c.provers prover)
    let cumulative ← checkedAdd .panicOverflow cumulative w
    if random < cumulative then pure (some prover) else firstAbove c random provers cumulative

/-- `_weightedSelect`. -/
def weightedSelect (c : RegistryStorage) (seed : ℕ) : RegistryCall ℕ := do
  let total ← totalWeight c
  if total = 0 then activeProverAt c (seed % c.activeProvers.length)
  else do
    let random := keccak256 (wordToBeBytes seed) % total
    match ← firstAbove c random c.activeProvers 0 with
    | some prover => pure prover
    | none => activeProverAt c (c.activeProvers.length - 1)

/-- The choice in `fulfillProverSelection`, which needs no seed for a single prover. -/
def selectActive (c : RegistryStorage) (seed : ℕ) : RegistryCall ℕ :=
  if c.activeProvers.length = 1 then activeProverAt c 0 else weightedSelect c seed

/-- The view `selectProver`, with loops of its own. -/
def selectProver (c : RegistryStorage) (seed : ℕ) : RegistryCall ℕ :=
  if c.activeProvers.length = 0 then pure 0
  else if c.activeProvers.length = 1 then activeProverAt c 0
  else do
    let total ← totalWeight c
    if total = 0 then activeProverAt c (seed % c.activeProvers.length)
    else do
      let random := keccak256 (wordToBeBytes seed) % total
      match ← firstAbove c random c.activeProvers 0 with
      | some prover => pure prover
      | none => activeProverAt c (c.activeProvers.length - 1)

def requestProverSelection (c : RegistryStorage) (ctx : CallContext) (commitment : ℕ) :
    RegistryCall RegistryStorage := do
  ofAdmin (whenNotPaused c.admin)
  let nextRequestId ← checkedAdd .panicOverflow c.nextRequestId 1
  pure { c with
    selectionRequests := Function.update c.selectionRequests c.nextRequestId
      ⟨commitment, ctx.blockNumber, ctx.sender, false⟩
    nextRequestId := nextRequestId }

/-- `blockhash`: the hash of one of the 256 blocks before the current one, and zero for any other
block. -/
def blockhash (hashes : ℕ → ℕ) (currentBlock blockNumber : ℕ) : ℕ :=
  if blockNumber < currentBlock ∧ currentBlock ≤ blockNumber + 256 then hashes blockNumber else 0

def checkFulfill (c : RegistryStorage) (ctx : CallContext) (requestId secret : ℕ) :
    RegistryCall Unit := do
  ofAdmin (whenNotPaused c.admin)
  let req := c.selectionRequests requestId
  require (req.requester != 0) .requestNotFound
  require (!req.fulfilled) .requestAlreadyFulfilled
  require (keccak256 (wordToBeBytes secret) == req.commitment) .invalidSecret
  require (decide (req.blockNumber < ctx.blockNumber)) .sameBlockReveal
  require (decide (c.activeProvers.length ≠ 0)) .noActiveProvers

def fulfillProverSelection (hashes : ℕ → ℕ) (c : RegistryStorage) (ctx : CallContext)
    (requestId secret : ℕ) : RegistryCall (RegistryStorage × Fulfilment) := do
  checkFulfill c ctx requestId secret
  let req := c.selectionRequests requestId
  let nextBlock ← checkedAdd .panicOverflow req.blockNumber 1
  let hashWord := blockhash hashes ctx.blockNumber nextBlock
  let seed := keccak256 (wordToBeBytes secret ++ wordToBeBytes hashWord)
  let prover ← selectActive c seed
  pure ({ c with
      selectionRequests := Function.update c.selectionRequests requestId
        { req with fulfilled := true } },
    ⟨requestId, req.blockNumber, ctx.blockNumber, secret, hashWord, seed, prover⟩)

end Selection

/-! ## Ranking -/

/-- One round of the inner loop of `getTopProvers`, with `maxRep` and `maxIdx`. -/
def scanRound (c : RegistryStorage) (used : List Bool) (best : ℕ × ℕ) (j : ℕ) :
    RegistryCall (ℕ × ℕ) := do
  let isUsed ← getOr .panicOutOfBounds used j
  if !isUsed then
    let prover ← activeProverAt c j
    let rep := (c.provers prover).reputation
    if best.1 < rep then pure (rep, j) else pure best
  else pure best

/-- One round of the outer loop, which writes `result[i]` and `used[maxIdx]`. -/
def selectRound (c : RegistryStorage) (state : List ℕ × List Bool) (i : ℕ) :
    RegistryCall (List ℕ × List Bool) := do
  let (result, used) := state
  let (_, maxIdx) ← (List.range c.activeProvers.length).foldlM (scanRound c used) (0, 0)
  let prover ← activeProverAt c maxIdx
  require (decide (i < result.length)) .panicOutOfBounds
  require (decide (maxIdx < used.length)) .panicOutOfBounds
  pure (result.set i prover, used.set maxIdx true)

def getTopProvers (c : RegistryStorage) (n : ℕ) : RegistryCall (List ℕ) := do
  require (decide (n ≤ MAX_TOP_PROVERS)) .tooManyTopProversRequested
  let count := c.activeProvers.length
  let n := if count < n then count else n
  let (result, _) ← (List.range n).foldlM (selectRound c)
    (List.replicate n 0, List.replicate count false)
  pure result

/-! ## Parameters -/

def setMinStake (c : RegistryStorage) (ctx : CallContext) (minStake : ℕ) :
    RegistryCall RegistryStorage := do
  ofAdmin (onlyOwner c.admin ctx.sender)
  pure { c with minStake := minStake }

def setSlashBasisPoints (c : RegistryStorage) (ctx : CallContext) (slashBasisPoints : ℕ) :
    RegistryCall RegistryStorage := do
  ofAdmin (onlyOwner c.admin ctx.sender)
  require (decide (slashBasisPoints ≤ MAX_SLASH_BASIS_POINTS)) .slashBasisPointsTooHigh
  pure { c with slashBasisPoints := slashBasisPoints }

def setSlasher (c : RegistryStorage) (ctx : CallContext) (slasher : ℕ) (authorized : Bool) :
    RegistryCall RegistryStorage := do
  ofAdmin (onlyOwner c.admin ctx.sender)
  pure { c with slashers := Function.update c.slashers slasher authorized }

def administerRegistry (c : RegistryStorage) (ctx : CallContext) (operation : AdminOperation) :
    RegistryCall RegistryStorage := do
  let admin ← ofAdmin (administer c.admin ctx.sender operation)
  pure { c with admin := admin }

/-! ## Dispatch -/

def dispatch (hashes : ℕ → ℕ) (tx : RegistryMessage) (s : RegistryState) : RegistryBody :=
  match tx.operation with
  | .register stake endpoint => nonReentrant s fun s => register s tx.context stake endpoint
  | .addStake amount => nonReentrant s fun s => addStake s tx.context amount
  | .withdrawStake amount => nonReentrant s fun s => withdrawStake s tx.context amount
  | .deactivate => finish s (deactivate s.storage tx.context)
  | .reactivate => finish s (reactivate s.storage tx.context)
  | .slash prover reason => nonReentrant s fun s => slash s tx.context prover reason
  | .recordSuccess prover reward => finish s (recordSuccess s.storage tx.context prover reward)
  | .requestProverSelection commitment =>
    finish s (requestProverSelection s.storage tx.context commitment)
  | .fulfillProverSelection requestId secret =>
    .after (fulfillProverSelection hashes s.storage tx.context requestId secret)
      fun (c, fulfilment) =>
        .done { s with storage := c, fulfilments := s.fulfilments ++ [fulfilment] }
  | .setMinStake minStake => finish s (setMinStake s.storage tx.context minStake)
  | .setSlashBasisPoints slashBasisPoints =>
    finish s (setSlashBasisPoints s.storage tx.context slashBasisPoints)
  | .setSlasher slasher authorized => finish s (setSlasher s.storage tx.context slasher authorized)
  | .administer operation => finish s (administerRegistry s.storage tx.context operation)
  | .tokensReceived amount => .done { s with tokenBalance := s.tokenBalance + amount }

/-- One message; no function is payable. `hashes` are the hashes of the blocks of the chain. -/
def registryBody (hashes : ℕ → ℕ) (tx : RegistryMessage) (s : RegistryState) : RegistryBody :=
  .after (require (tx.context.value == 0) RegistryError.notPayable) fun _ => dispatch hashes tx s

/-- The constructor. Tokens may be at the address before. -/
def construct (deployer minStake slashBasisPoints tokenBalance : ℕ) : RegistryState where
  storage :=
    { admin := ⟨deployer, 0, false⟩
      minStake := minStake
      slashBasisPoints := slashBasisPoints
      provers := fun _ => Prover.empty
      activeProvers := []
      proverIndex := fun _ => 0
      totalStaked := 0
      slashHistory := []
      slashers := fun _ => false
      selectionRequests := fun _ => ⟨0, 0, 0, false⟩
      nextRequestId := 0 }
  entered := false
  tokenBalance := tokenBalance
  fulfilments := []

end WorldZk.ProverRegistry
