import WorldZk.OwnedContracts
import Mathlib.Data.Finset.Insert
import Mathlib.Data.Fintype.Defs
import Mathlib.Logic.Function.Basic

/-!
# The reputation of provers

`ProverReputation`: the jobs, the score and the tier of every registered prover, the numbers of
provers in each tier, and the slashes with their cooldown. It makes no external calls.
-/

namespace WorldZk.ProverReputation

open CheckedRuns OwnedContracts

/-! ## Storage -/

inductive Tier
  | unranked
  | bronze
  | silver
  | gold
  | platinum
  | diamond
deriving DecidableEq, Repr

instance : Fintype Tier where
  elems := {.unranked, .bronze, .silver, .gold, .platinum, .diamond}
  complete := fun t => by cases t <;> decide

structure Reputation where
  totalJobs : ℕ
  completedJobs : ℕ
  failedJobs : ℕ
  abandonedJobs : ℕ
  totalEarnings : ℕ
  avgProofTimeMs : ℕ
  lastJobAt : ℕ
  lastUpdateAt : ℕ
  score : ℕ
  tier : Tier
  isRegistered : Bool
  isSlashed : Bool
  isBanned : Bool
deriving DecidableEq, Repr

/-- What a reputation slot reads before it is written. -/
def Reputation.empty : Reputation := ⟨0, 0, 0, 0, 0, 0, 0, 0, 0, .unranked, false, false, false⟩

structure SlashEvent where
  timestamp : ℕ
  reason : List UInt8
  penaltyBps : ℕ
  reportedBy : ℕ
deriving DecidableEq

structure ReputationStorage where
  admin : Administration
  reputations : ℕ → Reputation
  slashHistory : ℕ → List SlashEvent
  authorizedReporters : ℕ → Bool
  totalProvers : ℕ
  proversByTier : Tier → ℕ
  slashCooldown : ℕ

def MAX_SCORE : ℕ := 10000

def INITIAL_SCORE : ℕ := 5000

def SUCCESS_BONUS : ℕ := 50

def FAILURE_PENALTY : ℕ := 200

def ABANDON_PENALTY : ℕ := 500

def FAST_PROOF_BONUS : ℕ := 25

def SILVER_THRESHOLD : ℕ := 5000

def GOLD_THRESHOLD : ℕ := 7500

def PLATINUM_THRESHOLD : ℕ := 9000

def DIAMOND_THRESHOLD : ℕ := 9500

def MIN_COOLDOWN : ℕ := 60

def MAX_COOLDOWN : ℕ := 30 * 24 * 60 * 60

def MAX_UINT64_TIMESTAMP : ℕ := 2 ^ 64 - 1

def MAX_REASON_LENGTH : ℕ := 256

/-- `uint64(..)`. -/
def uint64 (n : ℕ) : ℕ := n % 2 ^ 64

inductive ReputationError
  | notPayable
  | unauthorizedAccount
  | enforcedPause
  | expectedPause
  | notAuthorized
  | proverNotRegistered
  | proverIsBanned
  | alreadyRegistered
  | invalidCooldown
  | timestampOverflow
  | slashCooldownActive
  | stringTooLong (field : String) (maxLength : ℕ)
  | panicOverflow
  | panicUnderflow
deriving DecidableEq, Repr

def ofAdminError : AdminError → ReputationError
  | .ownableUnauthorizedAccount => .unauthorizedAccount
  | .enforcedPause => .enforcedPause
  | .expectedPause => .expectedPause

abbrev ReputationCall (α : Type) : Type := Except ReputationError α

def ofAdmin {α : Type} (x : Except AdminError α) : ReputationCall α := x.mapError ofAdminError

/-- `n++` on a `uint64`. -/
def increment64 (n : ℕ) : ReputationCall ℕ :=
  if n + 1 < 2 ^ 64 then .ok (n + 1) else .error .panicOverflow

def setReputation (c : ReputationStorage) (prover : ℕ) (rep : Reputation) : ReputationStorage :=
  { c with reputations := Function.update c.reputations prover rep }

/-! ## Scores and tiers -/

/-- `_boundScore`. -/
def boundScore (score : ℕ) : ℕ := if MAX_SCORE < score then MAX_SCORE else score

/-- A score less a penalty, and zero if the penalty is larger. -/
def penalize (score penalty : ℕ) : ℕ := boundScore (if penalty < score then score - penalty else 0)

/-- `_calculateTier`. -/
def calculateTier (score : ℕ) : Tier :=
  if DIAMOND_THRESHOLD ≤ score then .diamond
  else if PLATINUM_THRESHOLD ≤ score then .platinum
  else if GOLD_THRESHOLD ≤ score then .gold
  else if SILVER_THRESHOLD ≤ score then .silver
  else if 0 < score then .bronze
  else .unranked

/-- `proversByTier[oldTier]--; proversByTier[newTier]++`. -/
def moveTier (proversByTier : Tier → ℕ) (oldTier newTier : Tier) : ReputationCall (Tier → ℕ) := do
  let fewer ← checkedSub .panicUnderflow (proversByTier oldTier) 1
  let proversByTier := Function.update proversByTier oldTier fewer
  let more ← checkedAdd .panicOverflow (proversByTier newTier) 1
  pure (Function.update proversByTier newTier more)

/-- `_updateTier`. -/
def updateTier (c : ReputationStorage) (prover : ℕ) : ReputationCall ReputationStorage :=
  let rep := c.reputations prover
  let newTier := calculateTier rep.score
  if rep.tier = newTier then pure c
  else do
    let proversByTier ← moveTier c.proversByTier rep.tier newTier
    pure { setReputation c prover { rep with tier := newTier } with proversByTier := proversByTier }

/-! ## Checks -/

/-- `onlyAuthorized`, `notBanned` and `whenNotPaused`. -/
def checkReporter (c : ReputationStorage) (ctx : CallContext) (prover : ℕ) :
    ReputationCall Unit := do
  require (c.authorizedReporters ctx.sender || ctx.sender == c.admin.owner) .notAuthorized
  require (!(c.reputations prover).isBanned) .proverIsBanned
  ofAdmin (whenNotPaused c.admin)

def checkRegistered (c : ReputationStorage) (prover : ℕ) : ReputationCall Unit :=
  require (c.reputations prover).isRegistered .proverNotRegistered

/-- `_checkTimestamp`. -/
def checkTimestamp (ctx : CallContext) : ReputationCall Unit :=
  require (decide (ctx.timestamp ≤ MAX_UINT64_TIMESTAMP)) .timestampOverflow

def checkReason (reason : List UInt8) : ReputationCall Unit :=
  require (decide (reason.length ≤ MAX_REASON_LENGTH)) (.stringTooLong "reason" MAX_REASON_LENGTH)

/-- The cooldown between slashes. -/
def checkCooldown (c : ReputationStorage) (ctx : CallContext) (prover : ℕ) :
    ReputationCall Unit :=
  match (c.slashHistory prover).getLast? with
  | none => pure ()
  | some last => do
    let free ← checkedAdd .panicOverflow last.timestamp c.slashCooldown
    require (decide (free ≤ ctx.timestamp)) .slashCooldownActive

/-! ## The functions -/

def register (c : ReputationStorage) (ctx : CallContext) : ReputationCall ReputationStorage := do
  ofAdmin (whenNotPaused c.admin)
  require (!(c.reputations ctx.sender).isRegistered) .alreadyRegistered
  checkTimestamp ctx
  let totalProvers ← checkedAdd .panicOverflow c.totalProvers 1
  let unranked ← checkedAdd .panicOverflow (c.proversByTier .unranked) 1
  pure { setReputation c ctx.sender
    { totalJobs := 0
      completedJobs := 0
      failedJobs := 0
      abandonedJobs := 0
      totalEarnings := 0
      avgProofTimeMs := 0
      lastJobAt := 0
      lastUpdateAt := uint64 ctx.timestamp
      score := INITIAL_SCORE
      tier := .unranked
      isRegistered := true
      isSlashed := false
      isBanned := false } with
    totalProvers := totalProvers
    proversByTier := Function.update c.proversByTier .unranked unranked }

/-- The rolling average of the proof times. -/
def averageProofTime (avgProofTimeMs proofTimeMs : ℕ) : ReputationCall ℕ :=
  if avgProofTimeMs = 0 then pure (uint64 proofTimeMs)
  else do
    let total ← checkedAdd .panicOverflow (avgProofTimeMs * 9) proofTimeMs
    pure (uint64 (total / 10))

def recordSuccess (c : ReputationStorage) (ctx : CallContext)
    (prover proofTimeMs earnings : ℕ) : ReputationCall ReputationStorage := do
  checkReporter c ctx prover
  checkRegistered c prover
  checkTimestamp ctx
  let rep := c.reputations prover
  let totalJobs ← increment64 rep.totalJobs
  let completedJobs ← increment64 rep.completedJobs
  let totalEarnings ← checkedAdd .panicOverflow rep.totalEarnings earnings
  let avgProofTimeMs ← averageProofTime rep.avgProofTimeMs proofTimeMs
  let bonus := if proofTimeMs < avgProofTimeMs then SUCCESS_BONUS + FAST_PROOF_BONUS
    else SUCCESS_BONUS
  updateTier (setReputation c prover
    { rep with
      totalJobs := totalJobs
      completedJobs := completedJobs
      totalEarnings := totalEarnings
      lastJobAt := uint64 ctx.timestamp
      lastUpdateAt := uint64 ctx.timestamp
      avgProofTimeMs := avgProofTimeMs
      score := boundScore (rep.score + bonus) }) prover

def recordFailure (c : ReputationStorage) (ctx : CallContext) (prover : ℕ)
    (reason : List UInt8) : ReputationCall ReputationStorage := do
  checkReporter c ctx prover
  checkReason reason
  checkRegistered c prover
  checkTimestamp ctx
  let rep := c.reputations prover
  let totalJobs ← increment64 rep.totalJobs
  let failedJobs ← increment64 rep.failedJobs
  updateTier (setReputation c prover
    { rep with
      totalJobs := totalJobs
      failedJobs := failedJobs
      lastJobAt := uint64 ctx.timestamp
      lastUpdateAt := uint64 ctx.timestamp
      score := penalize rep.score FAILURE_PENALTY }) prover

/-- `recordAbandon`, which leaves `lastJobAt` alone. -/
def recordAbandon (c : ReputationStorage) (ctx : CallContext) (prover : ℕ) :
    ReputationCall ReputationStorage := do
  checkReporter c ctx prover
  checkRegistered c prover
  checkTimestamp ctx
  let rep := c.reputations prover
  let totalJobs ← increment64 rep.totalJobs
  let abandonedJobs ← increment64 rep.abandonedJobs
  updateTier (setReputation c prover
    { rep with
      totalJobs := totalJobs
      abandonedJobs := abandonedJobs
      lastUpdateAt := uint64 ctx.timestamp
      score := penalize rep.score ABANDON_PENALTY }) prover

/-- A prover whose score has reached zero is banned. -/
def banAtZero (c : ReputationStorage) (prover : ℕ) : ReputationStorage :=
  if (c.reputations prover).score = 0 then
    setReputation c prover { c.reputations prover with isBanned := true }
  else c

/-- `slash`, which a pause does not stop. -/
def slash (c : ReputationStorage) (ctx : CallContext) (prover : ℕ) (reason : List UInt8)
    (penaltyBps : ℕ) : ReputationCall ReputationStorage := do
  ofAdmin (onlyOwner c.admin ctx.sender)
  checkReason reason
  checkRegistered c prover
  checkTimestamp ctx
  checkCooldown c ctx prover
  let rep := c.reputations prover
  let scaled ← checkedMul .panicOverflow rep.score penaltyBps
  let history := c.slashHistory prover ++ [⟨ctx.timestamp, reason, penaltyBps, ctx.sender⟩]
  let c ← updateTier { setReputation c prover
    { rep with
      isSlashed := true
      lastUpdateAt := uint64 ctx.timestamp
      score := penalize rep.score (scaled / 10000) } with
    slashHistory := Function.update c.slashHistory prover history } prover
  pure (banAtZero c prover)

/-- The common part of `ban` and `unban`, which do not check the timestamp. -/
def setBanned (c : ReputationStorage) (ctx : CallContext) (prover : ℕ) (isBanned : Bool) :
    ReputationCall ReputationStorage := do
  checkRegistered c prover
  pure (setReputation c prover
    { c.reputations prover with isBanned := isBanned, lastUpdateAt := uint64 ctx.timestamp })

def ban (c : ReputationStorage) (ctx : CallContext) (prover : ℕ) (reason : List UInt8) :
    ReputationCall ReputationStorage := do
  ofAdmin (onlyOwner c.admin ctx.sender)
  checkReason reason
  setBanned c ctx prover true

def unban (c : ReputationStorage) (ctx : CallContext) (prover : ℕ) :
    ReputationCall ReputationStorage := do
  ofAdmin (onlyOwner c.admin ctx.sender)
  setBanned c ctx prover false

/-- `authorizeReporter` and `revokeReporter`. -/
def setReporter (c : ReputationStorage) (ctx : CallContext) (reporter : ℕ) (authorized : Bool) :
    ReputationCall ReputationStorage := do
  ofAdmin (onlyOwner c.admin ctx.sender)
  pure { c with authorizedReporters := Function.update c.authorizedReporters reporter authorized }

def setSlashCooldown (c : ReputationStorage) (ctx : CallContext) (newCooldown : ℕ) :
    ReputationCall ReputationStorage := do
  ofAdmin (onlyOwner c.admin ctx.sender)
  require (decide (MIN_COOLDOWN ≤ newCooldown ∧ newCooldown ≤ MAX_COOLDOWN)) .invalidCooldown
  pure { c with slashCooldown := newCooldown }

def administerReputation (c : ReputationStorage) (ctx : CallContext)
    (operation : AdminOperation) : ReputationCall ReputationStorage := do
  let admin ← ofAdmin (administer c.admin ctx.sender operation)
  pure { c with admin := admin }

/-! ## Runs -/

inductive Operation
  | register
  | recordSuccess (prover proofTimeMs earnings : ℕ)
  | recordFailure (prover : ℕ) (reason : List UInt8)
  | recordAbandon (prover requestId : ℕ)
  | slash (prover : ℕ) (reason : List UInt8) (penaltyBps : ℕ)
  | ban (prover : ℕ) (reason : List UInt8)
  | unban (prover : ℕ)
  | authorizeReporter (reporter : ℕ)
  | revokeReporter (reporter : ℕ)
  | setSlashCooldown (newCooldown : ℕ)
  | administer (operation : AdminOperation)
deriving DecidableEq, Repr

structure ReputationMessage where
  context : CallContext
  operation : Operation

def dispatch (c : ReputationStorage) (ctx : CallContext) :
    Operation → ReputationCall ReputationStorage
  | .register => register c ctx
  | .recordSuccess prover proofTimeMs earnings => recordSuccess c ctx prover proofTimeMs earnings
  | .recordFailure prover reason => recordFailure c ctx prover reason
  | .recordAbandon prover _ => recordAbandon c ctx prover
  | .slash prover reason penaltyBps => slash c ctx prover reason penaltyBps
  | .ban prover reason => ban c ctx prover reason
  | .unban prover => unban c ctx prover
  | .authorizeReporter reporter => setReporter c ctx reporter true
  | .revokeReporter reporter => setReporter c ctx reporter false
  | .setSlashCooldown newCooldown => setSlashCooldown c ctx newCooldown
  | .administer operation => administerReputation c ctx operation

/-- One message; no function is payable. -/
def execute (c : ReputationStorage) (tx : ReputationMessage) :
    ReputationCall ReputationStorage := do
  require (tx.context.value == 0) .notPayable
  dispatch c tx.context tx.operation

/-- A message that reverts changes nothing. -/
def step (c : ReputationStorage) (tx : ReputationMessage) : ReputationStorage :=
  match execute c tx with
  | .ok c' => c'
  | .error _ => c

def run (c : ReputationStorage) (txs : List ReputationMessage) : ReputationStorage :=
  txs.foldl step c

/-- The constructor. -/
def construct (deployer : ℕ) : ReputationStorage where
  admin := ⟨deployer, 0, false⟩
  reputations := fun _ => Reputation.empty
  slashHistory := fun _ => []
  authorizedReporters := fun _ => false
  totalProvers := 0
  proversByTier := fun _ => 0
  slashCooldown := 60 * 60

end WorldZk.ProverReputation
