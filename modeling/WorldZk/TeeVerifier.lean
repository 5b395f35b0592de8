import WorldZk.SolidityVerifier
import WorldZk.Keccak256

/-!
# The TEE result contract

`TEEMLVerifier` with the admin functions it inherits from `UUPSUpgradeable`: enclaves, submitted
results, challenges and the five entry points that touch a dispute. Signature recovery is a
parameter; the response of the verifier contract and whether a payee takes its payment are inputs
of each transaction.
-/

namespace WorldZk.TeeVerifier

open CheckedRuns FieldArithmetic Transcript Keccak256

/-! ## Storage -/

structure PackedEnclaveInfo where
  registered : Bool
  active : Bool
  registeredAt : ℕ
  enclaveImageHash : ℕ
deriving DecidableEq, Repr

structure PackedMLResult where
  enclave : ℕ
  submittedAt : ℕ
  challengeDeadline : ℕ
  finalized : Bool
  challenged : Bool
  submitter : ℕ
  disputeDeadline : ℕ
  challenger : ℕ
  modelHash : ℕ
  inputHash : ℕ
  resultHash : ℕ
  result : List UInt8
  challengeBond : ℕ
  proverStakeAmount : ℕ
deriving DecidableEq, Repr

/-- What an enclave slot reads before it is written. -/
def PackedEnclaveInfo.empty : PackedEnclaveInfo := ⟨false, false, 0, 0⟩

/-- What a result slot reads before it is written. -/
def PackedMLResult.empty : PackedMLResult := ⟨0, 0, 0, false, false, 0, 0, 0, 0, 0, 0, [], 0, 0⟩

structure TeeContract where
  self : ℕ
  admin : ℕ
  timelock : ℕ
  paused : Bool
  cachedDomainSeparator : ℕ
  cachedChainId : ℕ
  remainderVerifier : ℕ
  challengeWindow : ℕ
  disputeWindow : ℕ
  challengeBondAmount : ℕ
  proverStake : ℕ
  enclaves : ℕ → PackedEnclaveInfo
  results : ℕ → PackedMLResult
  disputeResolved : ℕ → Bool
  disputeProverWon : ℕ → Bool
  disputeExtensions : ℕ → ℕ
  useStylusVerifier : Bool
  useStylusGroth16 : Bool
  balance : ℕ

def EXTENSION_PERIOD : ℕ := 30 * 60

def MAX_EXTENSIONS : ℕ := 1

/-- One ether, in wei. -/
def ETHER : ℕ := 10 ^ 18

/-- `uint40(..)`. -/
def uint40 (n : ℕ) : ℕ := n % 2 ^ 40

inductive TeeError
  | notPayable
  | zeroAddress
  | invalidAddress
  | notAdmin
  | notTimelocked
  | enforcedPause
  | expectedPause
  | zeroEnclaveKey
  | alreadyRegistered
  | notRegistered
  | alreadyRevoked
  | zeroAmount
  | amountTooHigh
  | windowTooShort
  | windowTooLong
  | insufficientStake
  | invalidSignature
  | unregisteredEnclave
  | enclaveNotActive
  | resultExists
  | resultNotFound
  | alreadyFinalized
  | alreadyChallenged
  | insufficientBond
  | challengeWindowClosed
  | hybridNotEnabled
  | notChallenged
  | alreadyResolved
  | noVerifierSet
  | abiDecodeFailed
  | payoutFailed
  | deadlineNotReached
  | notSubmitter
  | maxExtensionsReached
  | challengeWindowNotPassed
  | resultIsChallenged
  | stakeReturnFailed
  | panicOverflow
deriving DecidableEq, Repr

abbrev TeeCall (α : Type) : Type := Except TeeError α

/-- An addition of `uint256` values. -/
def addChecked (a b : ℕ) : TeeCall ℕ :=
  if a + b < WORD then .ok (a + b) else .error .panicOverflow

/-! ## Transactions -/

/-- The arguments that the contract hands to the verifier in every kind of resolution. -/
structure ProofTuple where
  proof : List UInt8
  circuitHash : ℕ
  publicInputs : List UInt8
  gensData : List UInt8
deriving DecidableEq, Repr

/-- The calls that a resolution makes on `remainderVerifier`. -/
inductive VerifierCall
  | verifyDAGProof (tuple : ProofTuple)
  | verifyDAGProofStylus (tuple : ProofTuple)
  | verifyDAGProofStylusGroth16 (tuple : ProofTuple) (ecGroth16Proof : Vector ℕ 8)
  | verifyDAGProofStylusGroth16Chunked (tuple : ProofTuple) (ecGroth16Proofs : List (List ℕ))
      (totalChunks opsDigest : ℕ)
deriving DecidableEq, Repr

def VerifierCall.tuple : VerifierCall → ProofTuple
  | verifyDAGProof tuple => tuple
  | verifyDAGProofStylus tuple => tuple
  | verifyDAGProofStylusGroth16 tuple _ => tuple
  | verifyDAGProofStylusGroth16Chunked tuple _ _ _ => tuple

/-- What a low-level call returns. -/
structure Response where
  success : Bool
  returnData : List UInt8
deriving DecidableEq, Repr

/-- How the contract at an address responds to a verifier call. -/
abbrev Verifiers : Type := ℕ → VerifierCall → Response

structure Message where
  sender : ℕ
  value : ℕ
  timestamp : ℕ
  blockNumber : ℕ
  chainId : ℕ
deriving DecidableEq, Repr

inductive Operation
  | registerEnclave (enclaveKey enclaveImageHash : ℕ)
  | revokeEnclave (enclaveKey : ℕ)
  | setRemainderVerifier (verifier : ℕ)
  | setChallengeBondAmount (amount : ℕ)
  | setProverStake (amount : ℕ)
  | setChallengeWindow (duration : ℕ)
  | setDisputeWindow (duration : ℕ)
  | setUseStylusVerifier (enabled : Bool)
  | setUseStylusGroth16 (enabled : Bool)
  | pause
  | unpause
  | changeAdmin (newAdmin : ℕ)
  | setTimelock (timelock : ℕ)
  | submitResult (modelHash inputHash : ℕ) (result attestation : List UInt8)
  | challenge (resultId : ℕ)
  | resolveDispute (resultId : ℕ) (tuple : ProofTuple)
  | resolveDisputeHybrid (resultId : ℕ) (tuple : ProofTuple) (ecGroth16Proof : Vector ℕ 8)
  | resolveDisputeHybridChunked (resultId : ℕ) (tuple : ProofTuple)
      (ecGroth16Proofs : List (List ℕ)) (totalChunks opsDigest : ℕ)
  | resolveDisputeByTimeout (resultId : ℕ)
  | extendDisputeWindow (resultId : ℕ)
  | finalize (resultId : ℕ)
  | receive
deriving DecidableEq, Repr

def Operation.payable : Operation → Bool
  | submitResult .. => true
  | challenge _ => true
  | receive => true
  | _ => false

/-- A transaction with what it meets outside the contract. -/
structure Transaction where
  msg : Message
  operation : Operation
  verifiers : Verifiers
  accepts : ℕ → ℕ → Bool

/-! ## Deployment and hashes -/

def utf8 (s : String) : List UInt8 := s.toUTF8.toList

def EIP712_DOMAIN_TYPEHASH : ℕ :=
  keccak256 (utf8
    "EIP712Domain(string name,string version,uint256 chainId,address verifyingContract)")

def NAME_HASH : ℕ := keccak256 (utf8 "TEEMLVerifier")

def VERSION_HASH : ℕ := keccak256 (utf8 "1")

def RESULT_TYPEHASH : ℕ :=
  keccak256 (utf8 "TEEMLResult(bytes32 modelHash,bytes32 inputHash,bytes32 resultHash)")

def computeDomainSeparator (self chainId : ℕ) : ℕ :=
  keccak256 ([EIP712_DOMAIN_TYPEHASH, NAME_HASH, VERSION_HASH, chainId, self].flatMap wordToBeBytes)

/-- The storage that `initialize` leaves in a fresh proxy. -/
def initialStorage (self chainId admin remainderVerifier : ℕ) : TeeContract where
  self := self
  admin := admin
  timelock := 0
  paused := false
  cachedDomainSeparator := computeDomainSeparator self chainId
  cachedChainId := chainId
  remainderVerifier := remainderVerifier
  challengeWindow := 60 * 60
  disputeWindow := 24 * 60 * 60
  challengeBondAmount := ETHER / 10
  proverStake := ETHER / 10
  enclaves := fun _ => PackedEnclaveInfo.empty
  results := fun _ => PackedMLResult.empty
  disputeResolved := fun _ => false
  disputeProverWon := fun _ => false
  disputeExtensions := fun _ => 0
  useStylusVerifier := false
  useStylusGroth16 := false
  balance := 0

/-- `initialize`. -/
def initializeContract (self chainId admin remainderVerifier : ℕ) : TeeCall TeeContract := do
  require (remainderVerifier != 0) .zeroAddress
  pure (initialStorage self chainId admin remainderVerifier)

/-- `DOMAIN_SEPARATOR`. -/
def domainSeparator (c : TeeContract) (chainId : ℕ) : ℕ :=
  if chainId = c.cachedChainId then c.cachedDomainSeparator
  else computeDomainSeparator c.self chainId

/-- The digest that an attestation signs. -/
def attestationDigest (c : TeeContract) (chainId modelHash inputHash resultHash : ℕ) : ℕ :=
  let structHash :=
    keccak256 ([RESULT_TYPEHASH, modelHash, inputHash, resultHash].flatMap wordToBeBytes)
  keccak256 ([0x19, 0x01] ++ wordToBeBytes (domainSeparator c chainId) ++ wordToBeBytes structHash)

def generateResultId (sender modelHash inputHash blockNumber : ℕ) : ℕ :=
  keccak256 ((wordToBeBytes sender).drop 12 ++
    [modelHash, inputHash, blockNumber].flatMap wordToBeBytes)

/-! ## The entry points -/

section EntryPoints

-- The signer of a digest, or `none` when `ECDSA.recover` reverts.
variable (recover : ℕ → List UInt8 → Option ℕ)

def onlyAdmin (c : TeeContract) (msg : Message) : TeeCall Unit :=
  require (msg.sender == c.admin) .notAdmin

def onlyTimelocked (c : TeeContract) (msg : Message) : TeeCall Unit :=
  if c.timelock ≠ 0 then require (msg.sender == c.timelock) .notTimelocked
  else require (msg.sender == c.admin) .notAdmin

def whenNotPaused (c : TeeContract) : TeeCall Unit := require (!c.paused) .enforcedPause

def registerEnclave (c : TeeContract) (msg : Message) (enclaveKey enclaveImageHash : ℕ) :
    TeeCall TeeContract := do
  onlyAdmin c msg
  require (enclaveKey != 0) .zeroEnclaveKey
  require (!(c.enclaves enclaveKey).registered) .alreadyRegistered
  let info : PackedEnclaveInfo := ⟨true, true, uint40 msg.timestamp, enclaveImageHash⟩
  pure { c with enclaves := Function.update c.enclaves enclaveKey info }

def revokeEnclave (c : TeeContract) (msg : Message) (enclaveKey : ℕ) : TeeCall TeeContract := do
  onlyAdmin c msg
  let info := c.enclaves enclaveKey
  require info.registered .notRegistered
  require info.active .alreadyRevoked
  pure { c with enclaves := Function.update c.enclaves enclaveKey { info with active := false } }

def setRemainderVerifier (c : TeeContract) (msg : Message) (verifier : ℕ) :
    TeeCall TeeContract := do
  onlyTimelocked c msg
  require (verifier != 0) .zeroAddress
  pure { c with remainderVerifier := verifier }

/-- The range check of the two amounts. -/
def checkAmount (amount : ℕ) : TeeCall Unit := do
  require (amount != 0) .zeroAmount
  require (decide (amount ≤ 100 * ETHER)) .amountTooHigh

def setChallengeBondAmount (c : TeeContract) (msg : Message) (amount : ℕ) :
    TeeCall TeeContract := do
  onlyTimelocked c msg
  checkAmount amount
  pure { c with challengeBondAmount := amount }

def setProverStake (c : TeeContract) (msg : Message) (amount : ℕ) : TeeCall TeeContract := do
  onlyTimelocked c msg
  checkAmount amount
  pure { c with proverStake := amount }

/-- The range check of the two windows, in seconds. -/
def checkWindow (shortest longest duration : ℕ) : TeeCall Unit := do
  require (decide (shortest ≤ duration)) .windowTooShort
  require (decide (duration ≤ longest)) .windowTooLong

def setChallengeWindow (c : TeeContract) (msg : Message) (duration : ℕ) :
    TeeCall TeeContract := do
  onlyAdmin c msg
  checkWindow (10 * 60) (7 * 24 * 60 * 60) duration
  pure { c with challengeWindow := duration }

def setDisputeWindow (c : TeeContract) (msg : Message) (duration : ℕ) : TeeCall TeeContract := do
  onlyAdmin c msg
  checkWindow (60 * 60) (30 * 24 * 60 * 60) duration
  pure { c with disputeWindow := duration }

def setUseStylusVerifier (c : TeeContract) (msg : Message) (enabled : Bool) :
    TeeCall TeeContract := do
  onlyAdmin c msg
  pure { c with useStylusVerifier := enabled }

def setUseStylusGroth16 (c : TeeContract) (msg : Message) (enabled : Bool) :
    TeeCall TeeContract := do
  onlyAdmin c msg
  pure { c with useStylusGroth16 := enabled }

def pause (c : TeeContract) (msg : Message) : TeeCall TeeContract := do
  onlyAdmin c msg
  whenNotPaused c
  pure { c with paused := true }

def unpause (c : TeeContract) (msg : Message) : TeeCall TeeContract := do
  onlyAdmin c msg
  require c.paused .expectedPause
  pure { c with paused := false }

def changeAdmin (c : TeeContract) (msg : Message) (newAdmin : ℕ) : TeeCall TeeContract := do
  onlyAdmin c msg
  require (newAdmin != 0) .invalidAddress
  pure { c with admin := newAdmin }

def setTimelock (c : TeeContract) (msg : Message) (timelock : ℕ) : TeeCall TeeContract := do
  onlyAdmin c msg
  pure { c with timelock := timelock }

def setResult (c : TeeContract) (resultId : ℕ) (r : PackedMLResult) : TeeContract :=
  { c with results := Function.update c.results resultId r }

def submitResult (c : TeeContract) (msg : Message) (modelHash inputHash : ℕ)
    (result attestation : List UInt8) : TeeCall (ℕ × TeeContract) := do
  whenNotPaused c
  require (decide (c.proverStake ≤ msg.value)) .insufficientStake
  let resultHash := keccak256 result
  match recover (attestationDigest c msg.chainId modelHash inputHash resultHash) attestation with
  | none => throw .invalidSignature
  | some signer =>
    require (c.enclaves signer).registered .unregisteredEnclave
    require (c.enclaves signer).active .enclaveNotActive
    let resultId := generateResultId msg.sender modelHash inputHash msg.blockNumber
    require ((c.results resultId).submittedAt == 0) .resultExists
    let challengeDeadline ← addChecked msg.timestamp c.challengeWindow
    pure (resultId, setResult c resultId
      { enclave := signer
        submittedAt := uint40 msg.timestamp
        challengeDeadline := uint40 challengeDeadline
        finalized := false
        challenged := false
        submitter := msg.sender
        disputeDeadline := 0
        challenger := 0
        modelHash := modelHash
        inputHash := inputHash
        resultHash := resultHash
        result := result
        challengeBond := 0
        proverStakeAmount := msg.value })

def challenge (c : TeeContract) (msg : Message) (resultId : ℕ) : TeeCall TeeContract := do
  whenNotPaused c
  let r := c.results resultId
  require (r.submittedAt != 0) .resultNotFound
  require (!r.finalized) .alreadyFinalized
  require (!r.challenged) .alreadyChallenged
  require (decide (c.challengeBondAmount ≤ msg.value)) .insufficientBond
  require (decide (msg.timestamp < r.challengeDeadline)) .challengeWindowClosed
  let disputeDeadline ← addChecked msg.timestamp c.disputeWindow
  pure (setResult c resultId
    { r with
      challenged := true
      challenger := msg.sender
      challengeBond := msg.value
      disputeDeadline := uint40 disputeDeadline })

/-- A payment out of the contract; it fails when the payee rejects it or the balance is short. -/
def pay (c : TeeContract) (accepts : ℕ → ℕ → Bool) (failed : TeeError) (payee amount : ℕ) :
    TeeCall TeeContract := do
  require (decide (amount ≤ c.balance) && accepts payee amount) failed
  pure { c with balance := c.balance - amount }

/-- `_settleDispute`: the submitter or the challenger gets both stakes. -/
def settleDispute (c : TeeContract) (accepts : ℕ → ℕ → Bool) (resultId : ℕ) (proofValid : Bool) :
    TeeCall TeeContract := do
  let r := c.results resultId
  let settled : TeeContract :=
    { setResult c resultId { r with finalized := true } with
      disputeResolved := Function.update c.disputeResolved resultId true
      disputeProverWon := Function.update c.disputeProverWon resultId proofValid }
  let totalPot ← addChecked r.challengeBond r.proverStakeAmount
  pay settled accepts .payoutFailed (if proofValid then r.submitter else r.challenger) totalPot

/-- `abi.decode(returnData, (bool))`. -/
def decodeBool (returnData : List UInt8) : TeeCall Bool :=
  match beValue (returnData.take 32) with
  | 0 => .ok false
  | 1 => .ok true
  | _ => .error .abiDecodeFailed

/-- What the contract takes from the response of the verifier. -/
def proofValid (response : Response) : TeeCall Bool :=
  if response.success && decide (32 ≤ response.returnData.length) then
    decodeBool response.returnData
  else .ok false

def checkDisputed (c : TeeContract) (resultId : ℕ) : TeeCall Unit := do
  require (c.results resultId).challenged .notChallenged
  require (!c.disputeResolved resultId) .alreadyResolved

/-- The part that the three resolution functions share. -/
def resolveWith (c : TeeContract) (verifiers : Verifiers) (accepts : ℕ → ℕ → Bool) (resultId : ℕ)
    (call : VerifierCall) : TeeCall TeeContract := do
  checkDisputed c resultId
  require (c.remainderVerifier != 0) .noVerifierSet
  let valid ← proofValid (verifiers c.remainderVerifier call)
  settleDispute c accepts resultId valid

def resolveDispute (c : TeeContract) (verifiers : Verifiers) (accepts : ℕ → ℕ → Bool)
    (resultId : ℕ) (tuple : ProofTuple) : TeeCall TeeContract := do
  whenNotPaused c
  resolveWith c verifiers accepts resultId
    (if c.useStylusVerifier then .verifyDAGProofStylus tuple else .verifyDAGProof tuple)

def resolveDisputeHybrid (c : TeeContract) (verifiers : Verifiers) (accepts : ℕ → ℕ → Bool)
    (resultId : ℕ) (tuple : ProofTuple) (ecGroth16Proof : Vector ℕ 8) : TeeCall TeeContract := do
  whenNotPaused c
  require c.useStylusGroth16 .hybridNotEnabled
  resolveWith c verifiers accepts resultId (.verifyDAGProofStylusGroth16 tuple ecGroth16Proof)

def resolveDisputeHybridChunked (c : TeeContract) (verifiers : Verifiers)
    (accepts : ℕ → ℕ → Bool) (resultId : ℕ) (tuple : ProofTuple)
    (ecGroth16Proofs : List (List ℕ)) (totalChunks opsDigest : ℕ) : TeeCall TeeContract := do
  whenNotPaused c
  require c.useStylusGroth16 .hybridNotEnabled
  resolveWith c verifiers accepts resultId
    (.verifyDAGProofStylusGroth16Chunked tuple ecGroth16Proofs totalChunks opsDigest)

def resolveDisputeByTimeout (c : TeeContract) (msg : Message) (accepts : ℕ → ℕ → Bool)
    (resultId : ℕ) : TeeCall TeeContract := do
  whenNotPaused c
  checkDisputed c resultId
  require (decide ((c.results resultId).disputeDeadline ≤ msg.timestamp)) .deadlineNotReached
  settleDispute c accepts resultId false

/-- `extendDisputeWindow`, which a pause does not stop. -/
def extendDisputeWindow (c : TeeContract) (msg : Message) (resultId : ℕ) :
    TeeCall TeeContract := do
  checkDisputed c resultId
  let r := c.results resultId
  require (r.submitter == msg.sender) .notSubmitter
  require (decide (c.disputeExtensions resultId < MAX_EXTENSIONS)) .maxExtensionsReached
  let r' := { r with disputeDeadline := uint40 (r.disputeDeadline + EXTENSION_PERIOD) }
  pure { setResult c resultId r' with
    disputeExtensions :=
      Function.update c.disputeExtensions resultId (c.disputeExtensions resultId + 1) }

def finalize (c : TeeContract) (msg : Message) (accepts : ℕ → ℕ → Bool) (resultId : ℕ) :
    TeeCall TeeContract := do
  whenNotPaused c
  let r := c.results resultId
  require (r.submittedAt != 0) .resultNotFound
  require (decide (r.challengeDeadline ≤ msg.timestamp)) .challengeWindowNotPassed
  require (!r.challenged) .resultIsChallenged
  require (!r.finalized) .alreadyFinalized
  let c' := setResult c resultId { r with finalized := true }
  if 0 < r.proverStakeAmount then
    pay c' accepts .stakeReturnFailed r.submitter r.proverStakeAmount
  else pure c'

/-- The function that a transaction calls. -/
def dispatch (c : TeeContract) (tx : Transaction) : TeeCall TeeContract :=
  match tx.operation with
  | .registerEnclave enclaveKey enclaveImageHash =>
    registerEnclave c tx.msg enclaveKey enclaveImageHash
  | .revokeEnclave enclaveKey => revokeEnclave c tx.msg enclaveKey
  | .setRemainderVerifier verifier => setRemainderVerifier c tx.msg verifier
  | .setChallengeBondAmount amount => setChallengeBondAmount c tx.msg amount
  | .setProverStake amount => setProverStake c tx.msg amount
  | .setChallengeWindow duration => setChallengeWindow c tx.msg duration
  | .setDisputeWindow duration => setDisputeWindow c tx.msg duration
  | .setUseStylusVerifier enabled => setUseStylusVerifier c tx.msg enabled
  | .setUseStylusGroth16 enabled => setUseStylusGroth16 c tx.msg enabled
  | .pause => pause c tx.msg
  | .unpause => unpause c tx.msg
  | .changeAdmin newAdmin => changeAdmin c tx.msg newAdmin
  | .setTimelock timelock => setTimelock c tx.msg timelock
  | .submitResult modelHash inputHash result attestation =>
    Prod.snd <$> submitResult recover c tx.msg modelHash inputHash result attestation
  | .challenge resultId => challenge c tx.msg resultId
  | .resolveDispute resultId tuple => resolveDispute c tx.verifiers tx.accepts resultId tuple
  | .resolveDisputeHybrid resultId tuple ecGroth16Proof =>
    resolveDisputeHybrid c tx.verifiers tx.accepts resultId tuple ecGroth16Proof
  | .resolveDisputeHybridChunked resultId tuple ecGroth16Proofs totalChunks opsDigest =>
    resolveDisputeHybridChunked c tx.verifiers tx.accepts resultId tuple ecGroth16Proofs
      totalChunks opsDigest
  | .resolveDisputeByTimeout resultId =>
    resolveDisputeByTimeout c tx.msg tx.accepts resultId
  | .extendDisputeWindow resultId => extendDisputeWindow c tx.msg resultId
  | .finalize resultId => finalize c tx.msg tx.accepts resultId
  | .receive => pure c

def credit (c : TeeContract) (value : ℕ) : TeeContract := { c with balance := c.balance + value }

/-- One transaction. The value is on the contract's balance before the function body runs. -/
def execute (c : TeeContract) (tx : Transaction) : TeeCall TeeContract := do
  require (tx.operation.payable || tx.msg.value == 0) .notPayable
  dispatch recover (credit c tx.msg.value) tx

/-- A transaction that reverts leaves the contract as it was. -/
def step (c : TeeContract) (tx : Transaction) : TeeContract :=
  match execute recover c tx with
  | .ok c' => c'
  | .error _ => c

def run (c : TeeContract) (txs : List Transaction) : TeeContract := txs.foldl (step recover) c

end EntryPoints

end WorldZk.TeeVerifier
