import WorldZk.ChallengeWatcher
import WorldZk.EnclaveAttestation
import WorldZk.JsonValues
import WorldZk.TeeDisputes

/-!
# The proofs that the operator computes in advance

`cmd_submit` lets the prover write a proof file right after a submission, and `handle_challenge`
looks for the file of a challenged result. The files are named by keys: the one by the hash of the
transaction, the other by the result id that the contract derives in it.
-/

namespace WorldZk.PrecomputedProofs

open CheckedRuns HexText Transcript Keccak256 TeeVerifier EnclaveAttestation JsonValues TeeDisputes
open ChallengeWatcher (ridHex ridHex_injective)

/-! ## The submission -/

/-- The first four bytes of the hash of `submitResult(bytes32,bytes32,bytes,bytes)`. -/
def SUBMIT_RESULT_SELECTOR : List UInt8 := [0xf2, 0x35, 0xfc, 0x84]

/-- An argument of type `bytes`, after its offset. -/
def encodeBytes (bytes : List UInt8) : List UInt8 :=
  wordToBeBytes bytes.length ++ bytes ++ List.replicate ((32 - bytes.length % 32) % 32) 0

def submitResultCalldata (sub : Submission) : List UInt8 :=
  SUBMIT_RESULT_SELECTOR ++
    [sub.modelHash, sub.inputHash, 128, 128 + (encodeBytes sub.result).length].flatMap
      wordToBeBytes ++ encodeBytes sub.result ++ encodeBytes sub.attestation

/-- A transaction of `submit_result`. Its wire form holds the calldata between the other fields and
the signature. -/
structure SentTransaction where
  submission : Submission
  bytes : List UInt8
  calldata : submitResultCalldata submission <:+: bytes

/-- `receipt.transaction_hash`. -/
def SentTransaction.txHash (tx : SentTransaction) : ℕ := keccak256 tx.bytes

/-- The `result_id` that `cmd_submit` passes to `generate_proof`. -/
def SentTransaction.proofKey (tx : SentTransaction) : List Char := ridHex (wordToBeBytes tx.txHash)

/-! ## The proof files -/

/-- The texts of the files `<key>.json` in `proofs_dir`. -/
abbrev ProofsDir : Type := List Char → Option String

def emptyDir : ProofsDir := fun _ => none

def writeFile (dir : ProofsDir) (key : List Char) (text : String) : ProofsDir :=
  Function.update dir key (some text)

/-- The response of the warm prover. The content type is in lower case. -/
structure ProverResponse where
  success : Bool
  contentType : Option String
  body : String
deriving DecidableEq, Repr

inductive ProverError
  | createDir
  | spawn
  | exitStatus
  | invalidFeatures
  | request
  | httpStatus
  | contentType
  | emptyBody
  | tooSmall
  | notJson
  | missingProofField
  | proofHexNotString
  | emptyProofHex
  | missingCompanions (fields : List String)
  | nullProof
  | emptyProof
  | nullReceipt
  | emptyReceipt
  | writeFailed
  | noAttempt
deriving DecidableEq, Repr

/-- The least size of a response body, in bytes. -/
def MIN_RESPONSE_SIZE : ℕ := 10

def REQUIRED_COMPANIONS : List String := ["circuit_hash", "public_inputs_hex", "gens_hex"]

def contains (text part : String) : Bool := decide (part.toList <:+: text.toList)

variable {K : Type}

def nonEmptyString : Json K → Bool
  | .str s => s != ""
  | _ => false

/-- The check of a `proof` or a `receipt`: any value but `null` and the empty string. -/
def checkPresent (nullError emptyError : ProverError) : Json K → Except ProverError Unit
  | .null => .error nullError
  | .str "" => .error emptyError
  | _ => .ok ()

/-- The check of a `proof_hex` and of the fields that come with it. -/
def checkProofHex (json : Json K) : Json K → Except ProverError Unit
  | .str proofHex =>
    if (stripHexPrefix proofHex.toList).isEmpty then .error .emptyProofHex
    else
      let missing := REQUIRED_COMPANIONS.filter fun name => !(json.get name).any nonEmptyString
      if missing.isEmpty then .ok () else .error (.missingCompanions missing)
  | _ => .error .proofHexNotString

def validateProof (json : Json K) : Except ProverError Unit :=
  match json.get "proof_hex", json.get "proof", json.get "receipt" with
  | some proofHex, _, _ => checkProofHex json proofHex
  | none, some proof, _ => checkPresent .nullProof .emptyProof proof
  | none, none, some receipt => checkPresent .nullReceipt .emptyReceipt receipt
  | none, none, none => .error .missingProofField

section Files

-- `serde_json::from_str`, on the text of a document.
variable (parse : String → Option (Json K))

/-- The checks of `generate_proof_http` on a response. -/
def validateResponse (response : ProverResponse) : Except ProverError Unit := do
  require response.success .httpStatus
  require (response.contentType.all fun ct => contains ct "json" || contains ct "octet-stream")
    .contentType
  require (response.body != "") .emptyBody
  require (decide (MIN_RESPONSE_SIZE ≤ response.body.utf8ByteSize)) .tooSmall
  match parse response.body with
  | none => .error .notJson
  | some json => validateProof json

/-- One attempt of `generate_proof`, with what its surroundings do. -/
inductive Attempt
  /-- The binary may leave a file behind, and `success` is its exit status; `none` when it cannot be
  run. -/
  | subprocess (dirCreated : Bool) (outcome : Option (Option String × Bool))
  | http (dirCreated featuresValid : Bool) (response : Option ProverResponse) (written : Bool)

def generateProofSubprocess (key : List Char) (dir : ProofsDir) (dirCreated : Bool) :
    Option (Option String × Bool) → Except ProverError Unit × ProofsDir
  | none => (.error (if dirCreated then .spawn else .createDir), dir)
  | some (output, success) =>
    if dirCreated then
      (if success then .ok () else .error .exitStatus,
        match output with
        | some text => writeFile dir key text
        | none => dir)
    else (.error .createDir, dir)

def generateProofHttp (key : List Char) (dir : ProofsDir) (dirCreated featuresValid : Bool)
    (response : Option ProverResponse) (written : Bool) : Except ProverError Unit × ProofsDir :=
  let checked : Except ProverError String := do
    require dirCreated .createDir
    require featuresValid .invalidFeatures
    match response with
    | none => .error .request
    | some response =>
      validateResponse parse response
      require written .writeFailed
      pure response.body
  match checked with
  | .ok body => (.ok (), writeFile dir key body)
  | .error e => (.error e, dir)

def runAttempt (key : List Char) (dir : ProofsDir) : Attempt → Except ProverError Unit × ProofsDir
  | .subprocess dirCreated outcome => generateProofSubprocess key dir dirCreated outcome
  | .http dirCreated featuresValid response written =>
    generateProofHttp parse key dir dirCreated featuresValid response written

/-- `generate_proof`: the attempts `0..=max_retries` up to the first success. -/
def generateProof (key : List Char) : List Attempt → ProofsDir → Except ProverError Unit × ProofsDir
  | [], dir => (.error .noAttempt, dir)
  | attempt :: attempts, dir =>
    let (result, dir) := runAttempt parse key dir attempt
    match result with
    | .ok () => (.ok (), dir)
    | .error lastError =>
      if attempts.isEmpty then (.error lastError, dir) else generateProof key attempts dir

/-! ## The challenge -/

structure StoredProof where
  proofHex : String
  circuitHash : String
  publicInputsHex : String
  gensHex : String
deriving DecidableEq, Repr

def readStoredProof (json : Json K) : Option StoredProof := do
  guard (json.isStruct 4)
  let proofHex ← json.required Json.asString 0 "proof_hex"
  let circuitHash ← json.required Json.asString 1 "circuit_hash"
  let publicInputsHex ← json.required Json.asString 2 "public_inputs_hex"
  let gensHex ← json.required Json.asString 3 "gens_hex"
  pure ⟨proofHex, circuitHash, publicInputsHex, gensHex⟩

/-- `read_proof`; an unreadable file is an error. -/
def readProof (dir : ProofsDir) (key : List Char) : Except Unit (Option StoredProof) :=
  match dir key with
  | none => .ok none
  | some text =>
    match (parse text).bind readStoredProof with
    | none => .error ()
    | some proof => .ok (some proof)

/-- `wait_for_proof`, over the directories that its polls see within the time. -/
def waitForProof (polls : List ProofsDir) (key : List Char) : Bool :=
  polls.any fun dir => (dir key).isSome

inductive PreVerifyResult
  | verified
  | failed
  | skipped
deriving DecidableEq, Repr

/-- What `handle_challenge` comes to. -/
inductive ChallengeOutcome
  /-- `resolve_dispute_with_gas` is called with the result id and these arguments. -/
  | submitted (tuple : ProofTuple)
  | preVerificationFailed
  | invalidHex
  | readError
  | disappeared
  | timeout
deriving DecidableEq, Repr

/-- `resolve_with_proof`, up to the call of the contract. -/
def resolveWithProof (proof : StoredProof) : ChallengeOutcome :=
  let tuple := do
    let proofBytes ← hexToBytes proof.proofHex.toList
    let circuitHash ← hexToB256 proof.circuitHash.toList
    let publicInputs ← hexToBytes proof.publicInputsHex.toList
    let gensData ← hexToBytes proof.gensHex.toList
    pure (⟨proofBytes, circuitHash, publicInputs, gensData⟩ : ProofTuple)
  match tuple with
  | some tuple => .submitted tuple
  | none => .invalidHex

/-- A proof that was found: submitted unless the local verifier refuses it. -/
def submitFound (preVerify : Option (StoredProof → PreVerifyResult)) (proof : StoredProof) :
    ChallengeOutcome :=
  if preVerify.any (fun verify => verify proof = .failed) then .preVerificationFailed
  else resolveWithProof proof

/-- `handle_challenge`, with the directory as it reads it first, as the wait polls it and as it reads
it after the wait. -/
def handleChallenge (preVerify : Option (StoredProof → PreVerifyResult)) (first : ProofsDir)
    (polls : List ProofsDir) (after : ProofsDir) (resultId : ℕ) : ChallengeOutcome :=
  let key := ridHex (wordToBeBytes resultId)
  match readProof parse first key with
  | .ok (some proof) => submitFound preVerify proof
  | .ok none =>
    if waitForProof polls key then
      match readProof parse after key with
      | .ok (some proof) => submitFound preVerify proof
      | _ => .disappeared
    else .timeout
  | .error _ => .readError

/-- The directories that the proof generation for the transactions reaches, with the attempts in any
order. -/
inductive Reached (txs : List SentTransaction) : ProofsDir → Prop
  | empty : Reached txs emptyDir
  | attempt {dir : ProofsDir} (h : Reached txs dir) {tx : SentTransaction} (htx : tx ∈ txs)
      (attempt : Attempt) : Reached txs (runAttempt parse tx.proofKey dir attempt).2

variable {parse} {key key' : List Char} {txs : List SentTransaction} {dir : ProofsDir}

theorem writeFile_of_ne (text : String) (h : key' ≠ key) : writeFile dir key text key' = dir key' :=
  Function.update_of_ne h _ _

theorem runAttempt_of_ne (attempt : Attempt) (h : key' ≠ key) :
    (runAttempt parse key dir attempt).2 key' = dir key' := by
  cases attempt with
  | subprocess dirCreated outcome =>
    match outcome with
    | none => rfl
    | some (output, success) =>
      simp only [runAttempt, generateProofSubprocess]
      split
      · cases output with
        | some text => exact writeFile_of_ne text h
        | none => rfl
      · rfl
  | http dirCreated featuresValid response written =>
    simp only [runAttempt, generateProofHttp]
    split
    · exact writeFile_of_ne _ h
    · rfl

theorem generateProof_cons (attempt : Attempt) (attempts : List Attempt) :
    (generateProof parse key (attempt :: attempts) dir).2 = (runAttempt parse key dir attempt).2 ∨
      (generateProof parse key (attempt :: attempts) dir).2 =
        (generateProof parse key attempts (runAttempt parse key dir attempt).2).2 := by
  simp only [generateProof]
  split
  · exact .inl rfl
  · split
    · exact .inl rfl
    · exact .inr rfl

theorem generateProof_of_ne (attempts : List Attempt) (h : key' ≠ key) :
    (generateProof parse key attempts dir).2 key' = dir key' := by
  induction attempts generalizing dir with
  | nil => rfl
  | cons attempt attempts ih =>
    have hattempt : (runAttempt parse key dir attempt).2 key' = dir key' :=
      runAttempt_of_ne attempt h
    rcases @generateProof_cons K parse key dir attempt attempts with heq | heq
    · rw [heq, hattempt]
    · rw [heq, ih, hattempt]

theorem Reached.generateProof (h : Reached parse txs dir) {tx : SentTransaction} (htx : tx ∈ txs)
    (attempts : List Attempt) :
    Reached parse txs (generateProof parse tx.proofKey attempts dir).2 := by
  induction attempts generalizing dir with
  | nil => exact h
  | cons attempt attempts ih =>
    have hattempt := h.attempt htx attempt
    rcases @generateProof_cons K parse tx.proofKey dir attempt attempts with heq | heq
    · rwa [heq]
    · rw [heq]
      exact ih hattempt

theorem Reached.key_of_file (h : Reached parse txs dir) (hfile : dir key ≠ none) :
    ∃ tx ∈ txs, key = tx.proofKey := by
  induction h with
  | empty => exact absurd rfl hfile
  | @attempt dir _ tx htx attempt ih =>
    by_cases heq : key = tx.proofKey
    · exact ⟨tx, htx, heq⟩
    · rw [runAttempt_of_ne attempt heq] at hfile
      exact ih hfile

/-! ## The two keys -/

/-- What the contract hashes into a result id. -/
def resultIdMessage (sender modelHash inputHash blockNumber : ℕ) : List UInt8 :=
  (wordToBeBytes sender).drop 12 ++ [modelHash, inputHash, blockNumber].flatMap wordToBeBytes

theorem length_resultIdMessage (sender modelHash inputHash blockNumber : ℕ) :
    (resultIdMessage sender modelHash inputHash blockNumber).length = 116 := by
  simp [resultIdMessage, length_wordToBeBytes]

theorem le_length_calldata (sub : Submission) : 196 ≤ (submitResultCalldata sub).length := by
  simp only [submitResultCalldata, SUBMIT_RESULT_SELECTOR, encodeBytes, List.length_append,
    List.length_flatMap, List.map_cons, List.map_nil, List.sum_cons, List.sum_nil,
    length_wordToBeBytes, List.length_cons, List.length_nil]
  omega

/-- The wire form of a transaction is longer than what a result id is the hash of. -/
theorem SentTransaction.bytes_ne (tx : SentTransaction)
    (sender modelHash inputHash blockNumber : ℕ) :
    tx.bytes ≠ resultIdMessage sender modelHash inputHash blockNumber := by
  intro h
  have hlong := (le_length_calldata tx.submission).trans tx.calldata.length_le
  rw [h, length_resultIdMessage] at hlong
  exact absurd hlong (by decide)

theorem proofKey_ne {tx : SentTransaction} {sender modelHash inputHash blockNumber : ℕ}
    (hfree : CollisionFree tx.bytes (resultIdMessage sender modelHash inputHash blockNumber)) :
    tx.proofKey ≠
      ridHex (wordToBeBytes (generateResultId sender modelHash inputHash blockNumber)) := by
  intro hkeys
  have hwords := congrArg beValue (ridHex_injective hkeys)
  rw [SentTransaction.txHash, beValue_wordToBeBytes (keccak256_lt _), generateResultId,
    beValue_wordToBeBytes (keccak256_lt _)] at hwords
  exact tx.bytes_ne sender modelHash inputHash blockNumber (hfree hwords)

theorem submitResult_resultId {recover : ℕ → List UInt8 → Option ℕ} {c c' : TeeContract}
    {msg : Message} {modelHash inputHash resultId : ℕ} {result attestation : List UInt8}
    (h : submitResult recover c msg modelHash inputHash result attestation = .ok (resultId, c')) :
    resultId = generateResultId msg.sender modelHash inputHash msg.blockNumber := by
  simp only [submitResult, bind_eq_ok] at h
  obtain ⟨_, -, _, -, h⟩ := h
  split at h
  · cases h
  · simp only [bind_eq_ok, pure_eq_ok, Prod.mk.injEq] at h
    obtain ⟨_, -, _, -, _, -, _, -, rfl, -⟩ := h
    rfl

theorem handleChallenge_timeout {resultId : ℕ} {first after : ProofsDir} {polls : List ProofsDir}
    (hfirst : first (ridHex (wordToBeBytes resultId)) = none)
    (hpolls : ∀ dir ∈ polls, dir (ridHex (wordToBeBytes resultId)) = none)
    (preVerify : Option (StoredProof → PreVerifyResult)) :
    handleChallenge parse preVerify first polls after resultId = .timeout := by
  have hwait : waitForProof polls (ridHex (wordToBeBytes resultId)) = false := by
    rw [waitForProof, List.any_eq_false]
    intro dir hdir
    rw [hpolls dir hdir]
    decide
  simp only [handleChallenge, readProof, hfirst, hwait, if_neg Bool.false_ne_true]

/-- The proof of a submission is stored under another key than the one that a challenge of its result
looks up, and no submission's proof is found there: the challenge always times out. -/
theorem stored_proof_never_found {recover : ℕ → List UInt8 → Option ℕ} {c c' : TeeContract}
    {msg : Message} {resultId : ℕ} {tx : SentTransaction} (htx : tx ∈ txs)
    (hsubmit : submitResult recover c msg tx.submission.modelHash tx.submission.inputHash
      tx.submission.result tx.submission.attestation = .ok (resultId, c'))
    (hfree : ∀ sent ∈ txs, CollisionFree sent.bytes (resultIdMessage msg.sender
      tx.submission.modelHash tx.submission.inputHash msg.blockNumber))
    (preVerify : Option (StoredProof → PreVerifyResult)) {first after : ProofsDir}
    {polls : List ProofsDir} (hfirst : Reached parse txs first)
    (hpolls : ∀ dir ∈ polls, Reached parse txs dir) :
    tx.proofKey ≠ ridHex (wordToBeBytes resultId) ∧
      (∀ attempts dir, (generateProof parse tx.proofKey attempts dir).2
        (ridHex (wordToBeBytes resultId)) = dir (ridHex (wordToBeBytes resultId))) ∧
      handleChallenge parse preVerify first polls after resultId = .timeout := by
  obtain rfl := submitResult_resultId hsubmit
  have hkeys : ∀ sent ∈ txs, sent.proofKey ≠ ridHex (wordToBeBytes (generateResultId msg.sender
      tx.submission.modelHash tx.submission.inputHash msg.blockNumber)) :=
    fun sent hsent => proofKey_ne (hfree sent hsent)
  have hnone : ∀ dir, Reached parse txs dir → dir (ridHex (wordToBeBytes (generateResultId msg.sender
      tx.submission.modelHash tx.submission.inputHash msg.blockNumber))) = none := by
    intro dir hdir
    by_contra hfile
    obtain ⟨sent, hsent, heq⟩ := hdir.key_of_file hfile
    exact hkeys sent hsent heq.symm
  refine ⟨hkeys tx htx, fun attempts dir => generateProof_of_ne attempts (hkeys tx htx).symm, ?_⟩
  exact handleChallenge_timeout (hnone first hfirst) (fun dir hdir => hnone dir (hpolls dir hdir))
    preVerify

end Files

/-! A submission to the sample deployment, as an EIP-1559 transaction, and a warm prover that
answers with a proof. -/

def minedSubmission : Submission := ⟨1, 0, [], sampleAttestation 1⟩

/-- Chain id, nonce, fees, gas limit, contract, value and the length of the calldata. -/
def minedHeader : List UInt8 :=
  [0x02, 0xf9, 0x01, 0x91, 0x01, 0x80, 0x01, 0x01, 0x83, 0x03, 0x0d, 0x40, 0x94] ++
    (wordToBeBytes 15).drop 12 ++ [0x88] ++ (wordToBeBytes ETHER).drop 24 ++ [0xb9, 0x01, 0x24]

/-- An empty access list and a signature. -/
def minedFooter : List UInt8 :=
  [0xc0, 0x01, 0xa0] ++ (sampleAttestation 1).take 32 ++ [0xa0] ++
    ((sampleAttestation 1).drop 32).take 32

def minedTransaction : SentTransaction where
  submission := minedSubmission
  bytes := minedHeader ++ submitResultCalldata minedSubmission ++ minedFooter
  calldata := ⟨minedHeader, minedFooter, rfl⟩

def minedMessage : Message := ⟨12, ETHER, 100, 1, 1⟩

def challengerMessage : Message := ⟨13, ETHER, 200, 2, 1⟩

/-- The deployment after the registration of the enclave. -/
def minedContract : TeeContract :=
  { initialStorage 15 1 10 11 with
    enclaves := Function.update (fun _ => PackedEnclaveInfo.empty) sampleEnclave
      ⟨true, true, 0, 100⟩ }

def sampleCircuitHash : String :=
  "0x0000000000000000000000000000000000000000000000000000000000000001"

def sampleBody : String :=
  "\x7b\"proof_hex\":\"0xaabb\",\"circuit_hash\":\"" ++ sampleCircuitHash ++
    "\",\"public_inputs_hex\":\"0x\",\"gens_hex\":\"0x\"\x7d"

def sampleJson : Json ℤ :=
  .obj [("proof_hex", .str "0xaabb"), ("circuit_hash", .str sampleCircuitHash),
    ("public_inputs_hex", .str "0x"), ("gens_hex", .str "0x")]

def sampleParse (text : String) : Option (Json ℤ) :=
  if text = sampleBody then some sampleJson else none

def proverAttempts : List Attempt :=
  [.http true true (some ⟨true, some "application/json", sampleBody⟩) true]

private theorem mined_hashes_ne :
    keccak256 minedTransaction.bytes ≠ keccak256 (resultIdMessage 12 1 0 1) := by
  rw [keccak256_eq_keccakLanes, keccak256_eq_keccakLanes]
  decide +kernel

/-- The record of the submission. -/
def minedRecord : PackedMLResult where
  enclave := sampleEnclave
  submittedAt := 100
  challengeDeadline := 3700
  finalized := false
  challenged := false
  submitter := 12
  disputeDeadline := 0
  challenger := 0
  modelHash := 1
  inputHash := 0
  resultHash := keccak256 []
  result := []
  challengeBond := 0
  proverStakeAmount := ETHER

private theorem mined_challenged :
    ∃ c c', submitResult sampleRecover minedContract minedMessage 1 0 [] (sampleAttestation 1) =
        .ok (generateResultId 12 1 0 1, c) ∧
      challenge c challengerMessage (generateResultId 12 1 0 1) = .ok c' := by
  have hchallenge : ∀ resultId, ∃ c', challenge (setResult minedContract resultId
      minedRecord) challengerMessage resultId = .ok c' := by
    intro resultId
    simp only [challenge, setResult, Function.update_self]
    exact ⟨_, rfl⟩
  obtain ⟨c', hc'⟩ := hchallenge (generateResultId 12 1 0 1)
  exact ⟨_, c', rfl, hc'⟩

private theorem sampleBody_valid :
    validateResponse sampleParse ⟨true, some "application/json", sampleBody⟩ = .ok () := by
  have hjson : contains "application/json" "json" = true := by decide +kernel
  have hsize : MIN_RESPONSE_SIZE ≤ sampleBody.utf8ByteSize := by decide +kernel
  have hbody : (sampleBody != "") = true := by decide +kernel
  have hparse : sampleParse sampleBody = some sampleJson := if_pos rfl
  have hproof : validateProof sampleJson = .ok () := rfl
  simp only [validateResponse, hparse, hproof, hbody, hsize, hjson, Option.all, Bool.true_or,
    decide_true]
  rfl

private theorem generateProof_proverAttempts (key : List Char) :
    generateProof sampleParse key proverAttempts emptyDir =
      (.ok (), writeFile emptyDir key sampleBody) := by
  simp only [proverAttempts, generateProof, runAttempt, generateProofHttp, sampleBody_valid]
  rfl

theorem mined_proof_never_found :
    handleChallenge sampleParse none (writeFile emptyDir minedTransaction.proofKey sampleBody) []
      emptyDir (generateResultId 12 1 0 1) = .timeout := by
  obtain ⟨c, _, hsubmit, -⟩ := mined_challenged
  have hmem : minedTransaction ∈ [minedTransaction] := List.mem_cons_self
  have hreached : Reached sampleParse [minedTransaction]
      (generateProof sampleParse minedTransaction.proofKey proverAttempts emptyDir).2 :=
    Reached.empty.generateProof hmem proverAttempts
  rw [generateProof_proverAttempts] at hreached
  refine (stored_proof_never_found hmem hsubmit ?_ none hreached fun dir hdir => ?_).2.2
  · intro sent hsent
    obtain rfl := List.mem_singleton.mp hsent
    exact fun h => absurd h mined_hashes_ne
  · cases hdir

/-- The prover's answer is stored, the result is challenged, and the challenge times out. -/
theorem mined_proof_stored_under_other_key :
    ∃ c c', submitResult sampleRecover minedContract minedMessage 1 0 [] (sampleAttestation 1) =
        .ok (generateResultId 12 1 0 1, c) ∧
      challenge c challengerMessage (generateResultId 12 1 0 1) = .ok c' ∧
      generateProof sampleParse minedTransaction.proofKey proverAttempts emptyDir =
        (.ok (), writeFile emptyDir minedTransaction.proofKey sampleBody) ∧
      minedTransaction.proofKey ≠ ridHex (wordToBeBytes (generateResultId 12 1 0 1)) ∧
      handleChallenge sampleParse none (writeFile emptyDir minedTransaction.proofKey sampleBody)
        [writeFile emptyDir minedTransaction.proofKey sampleBody]
        (writeFile emptyDir minedTransaction.proofKey sampleBody) (generateResultId 12 1 0 1) =
          .timeout := by
  obtain ⟨c, c', hsubmit, hchallenge⟩ := mined_challenged
  have hne : minedTransaction.proofKey ≠ ridHex (wordToBeBytes (generateResultId 12 1 0 1)) :=
    proofKey_ne fun h => absurd h mined_hashes_ne
  have hnone : writeFile emptyDir minedTransaction.proofKey sampleBody
      (ridHex (wordToBeBytes (generateResultId 12 1 0 1))) = none :=
    writeFile_of_ne sampleBody hne.symm
  refine ⟨c, c', hsubmit, hchallenge, generateProof_proverAttempts _, hne, ?_⟩
  refine handleChallenge_timeout hnone (fun dir hdir => ?_) none
  obtain rfl := List.mem_singleton.mp hdir
  exact hnone

end WorldZk.PrecomputedProofs
