import WorldZk.ExecutionEngine
import WorldZk.HexText
import WorldZk.JsonValues
import WorldZk.LittleEndianWords
import WorldZk.TeeVerifier

/-!
# Private inputs

The server that releases a private input to the prover that has claimed its request. It asks an
RPC node for the request and reads the answer by byte offsets. They are one word too high: the
struct has no dynamic field, so its encoding does not begin with an offset, and every answer of the
contract is taken for too short.
-/

namespace WorldZk.PrivateInputs

open CheckedRuns ExecutionEngine HexText JsonValues LittleEndianWords Transcript

variable {K : Type}

/-! ## The contract's answer -/

/-- `ExecutionEngine.getRequest`. -/
def getRequest (c : EngineStorage) (requestId : ℕ) : EngineCall ExecutionRequest := do
  require ((c.requests requestId).id != 0) .requestNotFound
  pure (c.requests requestId)

/-- The place of a status in its enumeration. -/
def statusPosition : RequestStatus → ℕ
  | .pending => 0
  | .claimed => 1
  | .completed => 2
  | .expired => 3
  | .cancelled => 4

/-- The words of the struct. Each field is static, so they stand in its place without an offset. -/
def requestWords (req : ExecutionRequest) : List ℕ :=
  [req.id, req.imageId, req.inputDigest, req.requester, req.createdAt, req.expiresAt,
    req.callbackContract, statusPosition req.status, req.claimedBy, req.claimedAt,
    req.claimDeadline, req.tip, req.maxTip]

def abiEncodeRequest (req : ExecutionRequest) : List UInt8 :=
  (requestWords req).flatMap wordToBeBytes

/-- `keccak256("getRequest(uint256)")[..4]`. -/
def selector : List UInt8 :=
  (wordToBeBytes (Keccak256.keccak256 (TeeVerifier.utf8 "getRequest(uint256)"))).take 4

/-- The argument of a call of `getRequest`, if it is one. -/
def decodeGetRequest (data : List UInt8) : Option ℕ :=
  if data.take 4 = selector ∧ data.length = 36 then some (beValue (data.drop 4)) else none

structure EthCall where
  target : ℕ
  data : List UInt8

def rpcResult (data : List UInt8) : Json K :=
  .obj [("jsonrpc", .str "2.0"), ("id", .int 1),
    ("result", .str (String.ofList ('0' :: 'x' :: hexEncode data)))]

def rpcReverted : Json K :=
  .obj [("jsonrpc", .str "2.0"), ("id", .int 1),
    ("error", .obj [("code", .int 3), ("message", .str "execution reverted")])]

/-- A node whose latest state has the engine with the given storage at the given address. -/
def rpcNode (engineAddress : ℕ) (c : EngineStorage) (call : EthCall) : Json K :=
  if call.target = engineAddress then
    match decodeGetRequest call.data with
    | some requestId =>
      match getRequest c requestId with
      | .ok req => rpcResult (abiEncodeRequest req)
      | .error _ => rpcReverted
    | none => rpcReverted
  else rpcResult []

/-! ## The server -/

inductive RpcFailure
  | requestFailed
  | responseParseError
  | error
  | invalidResponse
  | badHex
  | responseTooShort (length : ℕ)
deriving DecidableEq, Repr

inductive SignatureFailure
  | badHex
  | length (length : ℕ)
  | recovery
deriving DecidableEq, Repr

inductive AuthError
  | timestampExpired
  | timestampFuture
  | invalidAddress
  | invalidSignature (reason : SignatureFailure)
  | addressMismatch (recovered claimed : ℕ)
  | notClaimed (status : UInt8)
  | wrongClaimer (expected actual : ℕ)
  | rpcError (failure : RpcFailure)
deriving DecidableEq, Repr

/-- `trim_start_matches("0x")`. -/
def trimHexPrefixes : List Char → List Char
  | '0' :: 'x' :: rest => trimHexPrefixes rest
  | text => text

/-- The data of the call. -/
def callData (requestId : UInt64) : List UInt8 :=
  selector ++ (List.replicate 24 0 ++ (u64ToLeBytes requestId).reverse)

/-- `verify_on_chain_claim`, with the node that answers its call. -/
def verifyOnChainClaim (node : EthCall → Except AuthError (Json K)) (engineAddress : ℕ)
    (requestId : UInt64) (prover : ℕ) : Except AuthError Unit := do
  let result ← node ⟨engineAddress, callData requestId⟩
  require (result.get "error").isNone (.rpcError .error)
  let dataHex ← okOr (.rpcError .invalidResponse) ((result.get "result").bind Json.asString)
  let bytes ← okOr (.rpcError .badHex) (hexDecode (trimHexPrefixes dataHex.toList))
  require (decide (32 + 13 * 32 ≤ bytes.length)) (.rpcError (.responseTooShort bytes.length))
  -- the word that is skipped is the request's id
  let offset := 32
  let status := bytes.getD (offset + 7 * 32 + 31) 0
  let claimer := beValue ((bytes.drop (offset + 8 * 32 + 12)).take 20)
  require (status == 1) (.notClaimed status)
  require (claimer == prover) (.wrongClaimer prover claimer)

structure AuthRequest where
  requestId : UInt64
  proverAddress : String
  timestamp : UInt64
  signature : String

def MAX_TIMESTAMP_AGE_SECS : ℕ := 300

/-- The message that the prover signs. -/
def authMessage (auth : AuthRequest) : String :=
  "world-zk-compute:fetch-input:" ++ toString auth.requestId ++ ":" ++ auth.proverAddress ++ ":" ++
    toString auth.timestamp

/-- What the server takes from the libraries: the address that a text stands for, and the signer of
a message. -/
structure Signers where
  parseAddress : String → Option ℕ
  recover : String → List UInt8 → Option ℕ

/-- `verify_auth_request`. -/
def verifyAuthRequest (signers : Signers) (now : ℕ) (auth : AuthRequest) : Except AuthError ℕ := do
  require (decide (now - auth.timestamp.toNat ≤ MAX_TIMESTAMP_AGE_SECS)) .timestampExpired
  require (decide (auth.timestamp.toNat ≤ now + 60)) .timestampFuture
  let claimedAddress ← okOr .invalidAddress (signers.parseAddress auth.proverAddress)
  let sigBytes ← okOr (.invalidSignature .badHex)
    (hexDecode (trimHexPrefixes auth.signature.toList))
  require (sigBytes.length == 65) (.invalidSignature (.length sigBytes.length))
  let recovered ← okOr (.invalidSignature .recovery) (signers.recover (authMessage auth) sigBytes)
  require (recovered == claimedAddress) (.addressMismatch recovered claimedAddress)
  pure claimedAddress

structure AppState where
  store : UInt64 → Option (List UInt8)
  engineAddress : ℕ
  skipChainVerification : Bool

inductive FetchError
  | idMismatch
  | auth (error : AuthError)
  | notStored
deriving DecidableEq, Repr

/-- `fetch_input`. -/
def fetchInput (signers : Signers) (node : EthCall → Except AuthError (Json K)) (state : AppState)
    (now : ℕ) (requestId : UInt64) (auth : AuthRequest) : Except FetchError (List UInt8) := do
  require (auth.requestId == requestId) .idMismatch
  let proverAddress ← (verifyAuthRequest signers now auth).mapError .auth
  if state.skipChainVerification then pure ()
  else (verifyOnChainClaim node state.engineAddress requestId proverAddress).mapError .auth
  okOr .notStored (state.store requestId)

/-! ## The claim is never seen -/

section Refusal

variable {c : EngineStorage} {engineAddress prover : ℕ} {requestId : UInt64}
  {req : ExecutionRequest} {data : List UInt8}

theorem length_abiEncodeRequest (req : ExecutionRequest) :
    (abiEncodeRequest req).length = 13 * 32 := by
  rw [abiEncodeRequest, length_flatMap_wordToBeBytes]
  rfl

theorem length_selector : selector.length = 4 := by
  rw [selector, List.length_take, length_wordToBeBytes]
  rfl

theorem beValue_reverse (bytes : List UInt8) : beValue bytes.reverse = leValue bytes := by
  rw [beValue, List.foldl_reverse, leValue]

theorem decodeGetRequest_callData (requestId : UInt64) :
    decodeGetRequest (callData requestId) = some requestId.toNat := by
  have hlength : (callData requestId).length = 36 := by
    simp only [callData, List.length_append, length_selector, List.length_replicate,
      List.length_reverse, u64ToLeBytes, length_leDigits]
  have htake : (callData requestId).take 4 = selector := List.take_left' length_selector
  have hdrop : (callData requestId).drop 4 =
      List.replicate 24 0 ++ (u64ToLeBytes requestId).reverse := List.drop_left' length_selector
  have hvalue : beValue (List.replicate 24 0 ++ (u64ToLeBytes requestId).reverse) =
      requestId.toNat := by
    have hzeros : beValue (List.replicate 24 0 ++ (u64ToLeBytes requestId).reverse) =
        beValue (u64ToLeBytes requestId).reverse := by
      rw [beValue, List.foldl_append]
      rfl
    rw [hzeros, beValue_reverse, u64ToLeBytes, leValue_leDigits requestId.toNat_lt]
  rw [decodeGetRequest, if_pos ⟨htake, hlength⟩, hdrop, hvalue]

theorem trimHexPrefixes_hexEncode (bytes : List UInt8) :
    trimHexPrefixes (hexEncode bytes) = hexEncode bytes := by
  cases bytes with
  | nil => rfl
  | cons x bytes =>
    have hx : ∀ n < 16, hexDigit n ≠ 'x' := by decide
    have hcons : hexEncode (x :: bytes) =
        hexDigit (x.toNat / 16) :: hexDigit (x.toNat % 16) :: hexEncode bytes := rfl
    rw [hcons, trimHexPrefixes]
    intro rest h
    obtain ⟨-, h⟩ := List.cons.inj h
    exact hx _ (Nat.mod_lt _ (by decide)) (List.cons.inj h).1

/-- The bytes of a result are decoded as the node encoded them. -/
theorem bytes_of_rpcResult (data : List UInt8) :
    ((rpcResult data : Json K).get "result").bind Json.asString =
        some (String.ofList ('0' :: 'x' :: hexEncode data)) ∧
      hexDecode (trimHexPrefixes (String.ofList ('0' :: 'x' :: hexEncode data)).toList) =
        some data := by
  refine ⟨rfl, ?_⟩
  rw [String.toList_ofList, trimHexPrefixes, trimHexPrefixes_hexEncode, hexDecode_hexEncode]

/-- Any answer of less than fourteen words is refused for its length. -/
theorem verifyOnChainClaim_of_short {node : EthCall → Except AuthError (Json K)}
    (hnode : node ⟨engineAddress, callData requestId⟩ = .ok (rpcResult data))
    (hshort : data.length < 32 + 13 * 32) :
    verifyOnChainClaim node engineAddress requestId prover =
      .error (.rpcError (.responseTooShort data.length)) := by
  have hnone : ((rpcResult data : Json K).get "error").isNone = true := rfl
  obtain ⟨hresult, hbytes⟩ := bytes_of_rpcResult (K := K) data
  rw [verifyOnChainClaim, hnode]
  simp only [ok_bind, hnone, hresult, hbytes, require_true, okOr,
    decide_eq_false (Nat.not_le.mpr hshort), require_false, error_bind]

/-- What the server says to anyone: the answer is too short, or there is no such request. -/
theorem verifyOnChainClaim_rpcNode (c : EngineStorage) (engineAddress : ℕ) (requestId : UInt64)
    (prover : ℕ) :
    verifyOnChainClaim (fun call => .ok (rpcNode engineAddress c call : Json K)) engineAddress
        requestId prover =
      .error (.rpcError (if (c.requests requestId.toNat).id = 0 then .error
        else .responseTooShort (13 * 32))) := by
  by_cases hid : (c.requests requestId.toNat).id = 0
  · have hget : getRequest c requestId.toNat = .error .requestNotFound := by
      rw [getRequest, hid]
      rfl
    have hnode : (rpcNode engineAddress c ⟨engineAddress, callData requestId⟩ : Json K) =
        rpcReverted := by
      simp only [rpcNode, if_pos, decodeGetRequest_callData, hget]
    have hsome : ((rpcReverted : Json K).get "error").isNone = false := rfl
    rw [verifyOnChainClaim, if_pos hid]
    simp only [hnode, ok_bind, hsome, require_false, error_bind]
  · have hget : getRequest c requestId.toNat = .ok (c.requests requestId.toNat) := by
      rw [getRequest, bne_iff_ne.mpr hid]
      rfl
    have hnode : (rpcNode engineAddress c ⟨engineAddress, callData requestId⟩ : Json K) =
        rpcResult (abiEncodeRequest (c.requests requestId.toNat)) := by
      simp only [rpcNode, if_pos, decodeGetRequest_callData, hget]
    rw [if_neg hid, ← length_abiEncodeRequest (c.requests requestId.toNat)]
    refine verifyOnChainClaim_of_short (congrArg Except.ok hnode) ?_
    rw [length_abiEncodeRequest]
    decide

end Refusal

/-- The stored request is claimed by the prover. -/
def ClaimedBy (c : EngineStorage) (requestId : UInt64) (prover : ℕ) : Prop :=
  (c.requests requestId.toNat).status = .claimed ∧
    (c.requests requestId.toNat).claimedBy = prover

/-- For every state of the engine, the check is right about those who have not claimed the request,
and about nobody else. -/
theorem claim_seen_iff (c : EngineStorage) (engineAddress : ℕ) (requestId : UInt64) (prover : ℕ) :
    (verifyOnChainClaim (fun call => .ok (rpcNode engineAddress c call : Json K)) engineAddress
        requestId prover = .ok () ↔ ClaimedBy c requestId prover) ↔
      ¬ClaimedBy c requestId prover := by
  rw [verifyOnChainClaim_rpcNode]
  simp

/-- The request is dated within the window, and its signer is the prover that it names. -/
def Authenticated (signers : Signers) (now : ℕ) (auth : AuthRequest) : Prop :=
  now ≤ auth.timestamp.toNat + MAX_TIMESTAMP_AGE_SECS ∧ auth.timestamp.toNat ≤ now + 60 ∧
    ∃ prover signature, signers.parseAddress auth.proverAddress = some prover ∧
      hexDecode (trimHexPrefixes auth.signature.toList) = some signature ∧
        signature.length = 65 ∧ signers.recover (authMessage auth) signature = some prover

theorem exists_verifyAuthRequest_iff {signers : Signers} {now : ℕ} {auth : AuthRequest} :
    (∃ prover, verifyAuthRequest signers now auth = .ok prover) ↔
      Authenticated signers now auth := by
  simp only [verifyAuthRequest, bind_eq_ok, pure_eq_ok, require_eq_ok, okOr_eq_ok, beq_iff_eq,
    decide_eq_true_eq, Nat.sub_le_iff_le_add', exists_and_left, Authenticated]
  constructor
  · rintro ⟨hold, hnew, _, _, _, _, hparse, signature, hhex, hlength, _, _, hrecover, rfl, -⟩
    exact ⟨hold, hnew, _, hparse, signature, hhex, hlength, hrecover⟩
  · rintro ⟨hold, hnew, prover, hparse, signature, hhex, hlength, hrecover⟩
    exact ⟨hold, hnew, prover, (), (), prover, hparse, signature, hhex, hlength, (), prover,
      hrecover, rfl, (), rfl⟩

/-- Whatever the state of the engine, the server hands an input out exactly while the check of the
claim is switched off, and then to everyone whose request is authenticated. -/
theorem fetchInput_eq_ok_iff (signers : Signers) (c : EngineStorage) (state : AppState) (now : ℕ)
    (requestId : UInt64) (auth : AuthRequest) (input : List UInt8) :
    fetchInput signers (fun call => .ok (rpcNode state.engineAddress c call : Json K)) state now
        requestId auth = .ok input ↔
      state.skipChainVerification = true ∧ auth.requestId = requestId ∧
        Authenticated signers now auth ∧ state.store requestId = some input := by
  rw [← exists_verifyAuthRequest_iff]
  cases hskip : state.skipChainVerification with
  | false =>
    simp only [fetchInput, hskip, bind_eq_ok, Bool.false_eq_true, if_false, mapError_eq_ok,
      verifyOnChainClaim_rpcNode, reduceCtorEq, false_and, and_false, exists_false]
  | true =>
    simp only [fetchInput, hskip, bind_eq_ok, if_true, mapError_eq_ok, require_eq_ok, okOr_eq_ok,
      beq_iff_eq, true_and]
    constructor
    · rintro ⟨_, hid, prover, hauth, hstore⟩
      exact ⟨hid, ⟨prover, hauth⟩, hstore⟩
    · rintro ⟨hid, ⟨prover, hauth⟩, hstore⟩
      exact ⟨(), hid, prover, hauth, hstore⟩

def sampleMessage (sender value : ℕ) (operation : Operation) : EngineMessage :=
  ⟨⟨sender, value, 1000, 1, OwnedContracts.timestamp_1000⟩, operation,
    ⟨fun _ => true, fun _ => none, fun _ _ _ _ => false, fun _ _ _ => false, fun _ => false⟩⟩

/-- The prover 51 claims the request of 50, and the server does not see it. -/
theorem rightful_claimant_refused :
    ∃ s₀ s, construct 10 20 30 40 = .ok s₀ ∧ ReentrantCalls.Run engineBody s₀ s ∧
      ClaimedBy s.storage 1 51 ∧
      verifyOnChainClaim (fun call => .ok (rpcNode 99 s.storage call : Json ℕ)) 99 1 51 =
        .error (.rpcError (.responseTooShort 416)) := by
  have hsample : okAnd (construct 10 20 30 40) (fun s₀ =>
      okAnd (ReentrantCalls.evalAll engineBody (fun _ => some ())
        [sampleMessage 50 MIN_TIP (.requestExecution 7 8 0 0),
          sampleMessage 51 0 (.claimExecution 1)] s₀) fun s =>
        (s.storage.requests 1).id == 1 && (s.storage.requests 1).status == .claimed &&
          (s.storage.requests 1).claimedBy == 51) = true := by
    decide +kernel
  obtain ⟨s₀, hconstruct, h⟩ := okAnd_eq_true.mp hsample
  obtain ⟨s, hs, h⟩ := okAnd_eq_true.mp h
  simp only [Bool.and_eq_true, beq_iff_eq] at h
  obtain ⟨⟨hid, hclaimed⟩, hprover⟩ := h
  refine ⟨s₀, s, hconstruct, .of_evalAll hs, ⟨hclaimed, hprover⟩, ?_⟩
  rw [verifyOnChainClaim_rpcNode, if_neg]
  exact fun h => absurd (hid.symm.trans h) (by decide)

end WorldZk.PrivateInputs
