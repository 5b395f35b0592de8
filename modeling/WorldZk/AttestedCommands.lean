import WorldZk.EnclaveAttestation
import WorldZk.NitroAttestation
import WorldZk.TeeDisputes

/-!
# The operator's commands that rely on an attestation

`cmd_register` registers the key of an attestation document, and `cmd_submit` asks for a document
before it submits a result, unless it has accepted one within the time of its cache. The enclave
endpoint answers as it likes.
-/

namespace WorldZk.AttestedCommands

open CheckedRuns HexText Transcript Keccak256 EnclaveAttestation NitroAttestation TeeDisputes

inductive OperatorError
  | request
  | attestation (e : AttestationError)
  | invalidEnclaveAddress
  | invalidPcr0Hex
  | invalidFeatures
  | unhealthy
  | invalidResponse
  | invalidStake
  | chain
deriving DecidableEq, Repr

/-- `u64::to_be_bytes`. -/
def toBeBytes (n : ℕ) : List UInt8 := (wordToBeBytes n).drop 24

/-- `nonce = keccak256(chainId || blockNumber || enclaveAddress)`, in hex. An address that is not
hex text is left out. -/
def computeAttestationNonce (chainId blockNumber : ℕ) (enclaveAddress : List Char) : List Char :=
  let address := (hexDecode (stripHexPrefix enclaveAddress)).getD []
  hexEncode (wordToBeBytes (keccak256 (toBeBytes chainId ++ toBeBytes blockNumber ++ address)))

/-- What the command meets: the answers of the chain and of the enclave endpoint, and the clocks. -/
structure Surroundings where
  chainId : Option ℕ
  blockNumber : Option ℕ
  /-- The address in the answer to `/info`. -/
  info : Option (List Char)
  /-- The document in the answer to `/attestation`, for a nonce. -/
  attestation : List Char → Option String
  /-- The system time, in milliseconds. -/
  nowMs : Option ℕ

/-- The document that the endpoint returns for the nonce of the command. -/
def Surroundings.document (env : Surroundings) (nonce : List Char) (document : String) : Prop :=
  ∃ chainId blockNumber info, env.chainId = some chainId ∧ env.blockNumber = some blockNumber ∧
    env.info = some info ∧ nonce = computeAttestationNonce chainId blockNumber info ∧
    env.attestation nonce = some document

section Commands

variable (lib : Libraries)

/-- `validate_pcr0`, when a value is expected. -/
def validateExpectedPcr0 (verified : VerifiedAttestation) :
    Option (List Char) → Except AttestationError Unit
  | some expected => validatePcr0 verified expected
  | none => .ok ()

/-- The checks on a document, as both commands make them. -/
def acceptDocument (document : String) (nonceHex : List Char) (expectedPcr0 : Option (List Char))
    (nowMs : Option ℕ) (maxAgeSecs : ℕ) : Except AttestationError VerifiedAttestation := do
  let verified ← verifyAttestation lib document
  validateNonce verified nonceHex
  validateExpectedPcr0 verified expectedPcr0
  validateFreshness verified nowMs maxAgeSecs
  pure verified

/-- `Address::from_str`. -/
def parseAddress (text : List Char) : Option ℕ := do
  let bytes ← hexDecode (stripHexPrefix text)
  if bytes.length = 20 then pure (beValue bytes) else none

/-- The arguments of the transaction that `cmd_register` sends. -/
structure Registration where
  key : ℕ
  imageHash : ℕ
deriving DecidableEq, Repr

/-- The first 32 bytes of the PCR0, padded with zeros. -/
def toImageHash (pcr0Bytes : List UInt8) : ℕ :=
  beValue ((pcr0Bytes ++ List.replicate 32 0).take 32)

def cmdRegister (env : Surroundings) (expectedPcr0 : Option (List Char)) (skipVerify sent : Bool) :
    Except OperatorError Registration := do
  let info ← okOr .request env.info
  let chainId ← okOr .request env.chainId
  let blockNumber ← okOr .request env.blockNumber
  let nonceHex := computeAttestationNonce chainId blockNumber info
  let document ← okOr .request (env.attestation nonceHex)
  let verified ←
    if skipVerify then (parseAttestation lib document).mapError .attestation
    else (acceptDocument lib document nonceHex expectedPcr0 env.nowMs 300).mapError .attestation
  let key ← okOr .invalidEnclaveAddress (parseAddress verified.enclaveAddress)
  let pcr0Bytes ← okOr .invalidPcr0Hex (hexDecode verified.pcr0)
  require sent .chain
  pure ⟨key, toImageHash pcr0Bytes⟩

/-! ## Submissions -/

/-- The fields of the configuration that are used. -/
structure Config where
  nitroVerification : Bool
  expectedPcr0 : Option (List Char)
  attestationFreshnessSecs : ℕ
  attestationCacheTtl : ℕ
  /-- `prover_stake_wei`, when it is a number. -/
  proverStakeWei : Option ℕ

structure CachedAttestation where
  verified : VerifiedAttestation
  fetchedAt : ℕ

/-- A run of `cmd_submit`. The clock is the monotonic one, in seconds. -/
structure SubmitRequest where
  featuresValid : Bool
  health : Option Bool
  env : Surroundings
  clock : ℕ
  /-- The clock after the verification of a new document. -/
  fetchedAt : ℕ
  response : Option InferResponse
  sent : Bool

variable (config : Config)

/-- `verify_enclave_attestation` after a miss in the cache. -/
def fetchAttestation (request : SubmitRequest) : Except OperatorError VerifiedAttestation := do
  let chainId ← okOr .request request.env.chainId
  let blockNumber ← okOr .request request.env.blockNumber
  let info ← okOr .request request.env.info
  let nonceHex := computeAttestationNonce chainId blockNumber info
  let document ← okOr .request (request.env.attestation nonceHex)
  (acceptDocument lib document nonceHex config.expectedPcr0 request.env.nowMs
    config.attestationFreshnessSecs).mapError .attestation

/-- Whether the cached document is still good. -/
def cacheHit (request : SubmitRequest) (cache : Option CachedAttestation) : Bool :=
  cache.any fun c => decide (request.clock - c.fetchedAt < config.attestationCacheTtl)

def verifyEnclaveAttestation (request : SubmitRequest) (cache : Option CachedAttestation) :
    Except OperatorError Unit × Option CachedAttestation :=
  if cacheHit config request cache then (.ok (), cache)
  else
    match fetchAttestation lib config request with
    | .ok verified => (.ok (), some ⟨verified, request.fetchedAt⟩)
    | .error e => (.error e, cache)

/-- The steps before the verification. -/
def checkRequest (request : SubmitRequest) : Except OperatorError Unit := do
  require request.featuresValid .invalidFeatures
  let health ← okOr .request request.health
  require health .unhealthy

/-- The steps after the verification: the result of the enclave goes to the contract. -/
def submitInference (request : SubmitRequest) : Except OperatorError Submission := do
  let response ← okOr .request request.response
  let submission ← okOr .invalidResponse (EnclaveAttestation.cmdSubmit response)
  let _stake ← okOr .invalidStake config.proverStakeWei
  require request.sent .chain
  pure submission

def cmdSubmit (request : SubmitRequest) (cache : Option CachedAttestation) :
    Except OperatorError Submission × Option CachedAttestation :=
  match checkRequest request with
  | .error e => (.error e, cache)
  | .ok () =>
    if config.nitroVerification then
      match verifyEnclaveAttestation lib config request cache with
      | (.error e, cache) => (.error e, cache)
      | (.ok (), cache) => (submitInference config request, cache)
    else (submitInference config request, cache)

/-- The cache of a process after a number of submissions. -/
def cacheAfter (requests : List SubmitRequest) : Option CachedAttestation :=
  requests.foldl (fun cache request => (cmdSubmit lib config request cache).2) none

/-! ## What stands behind an accepted document -/

/-- The PCR0 of the document is all zeros, as in the development mode. -/
def ZeroPcr0 (parts : CoseSign1Parts) : Prop :=
  (readPcrs parts.payloadMap).pcr0 ≠ [] ∧ ∀ c ∈ (readPcrs parts.payloadMap).pcr0, c = '0'

/-- The document was verified, or is one of the development mode. -/
def Vouched (document : String) (parts : CoseSign1Parts) : Prop :=
  decodeDocument lib document = .ok parts ∧ (ChainVerified lib parts ∨ ZeroPcr0 parts)

variable {lib config} {document : String} {nonceHex : List Char}
  {expectedPcr0 : Option (List Char)} {nowMs : Option ℕ} {maxAgeSecs : ℕ}
  {verified : VerifiedAttestation}

theorem zeroPcr0_of_isMock {parts : CoseSign1Parts} {fields : VerifiedAttestation}
    (hfields : parseFieldsFromMap parts.payloadMap = .ok fields) (hmock : isMock fields = true) :
    ZeroPcr0 parts := by
  simp only [parseFieldsFromMap, bind_eq_ok, pure_eq_ok, require_eq_ok] at hfields
  obtain ⟨_, -, _, -, _, -, _, hpcr0, rfl⟩ := hfields
  refine ⟨fun hnil => ?_, fun c hc => ?_⟩
  · rw [hnil] at hpcr0
    cases hpcr0
  · exact beq_iff_eq.mp (List.all_eq_true.mp hmock c hc)

/-- A document that passes the checks is vouched for, and the result has the address of its key. -/
theorem vouched_of_acceptDocument
    (h : acceptDocument lib document nonceHex expectedPcr0 nowMs maxAgeSecs = .ok verified) :
    ∃ parts publicKey, Vouched lib document parts ∧
      getBytes parts.payloadMap "public_key" = .ok publicKey ∧
      verified.enclaveAddress = '0' :: 'x' :: hexEncode publicKey := by
  simp only [acceptDocument, bind_eq_ok, pure_eq_ok] at h
  obtain ⟨attestation, hverify, _, -, _, -, _, -, rfl⟩ := h
  obtain ⟨parts, fields, hparts, hfields, hcases⟩ := verifyAttestation_eq_ok hverify
  obtain ⟨publicKey, hkey, haddress⟩ := enclaveAddress_eq hfields
  rcases hcases with ⟨rfl, hmock⟩ | ⟨rfl, hchain⟩
  · exact ⟨parts, publicKey, ⟨hparts, .inr (zeroPcr0_of_isMock hfields hmock)⟩, hkey, haddress⟩
  · exact ⟨parts, publicKey, ⟨hparts, .inl hchain⟩, hkey, haddress⟩

theorem parseAddress_eq_some {publicKey : List UInt8} {key : ℕ}
    (h : parseAddress ('0' :: 'x' :: hexEncode publicKey) = some key) :
    publicKey.length = 20 ∧ key = beValue publicKey := by
  simp only [parseAddress, stripHexPrefix, hexDecode_hexEncode, Option.bind_eq_bind,
    Option.bind_some] at h
  split at h
  case isTrue hlength =>
    cases h
    exact ⟨hlength, rfl⟩
  case isFalse => cases h

/-- `cmd_register` registers the key of a document that the endpoint returned and that is vouched
for. -/
theorem vouched_of_cmdRegister {env : Surroundings} {sent : Bool} {registration : Registration}
    (h : cmdRegister lib env expectedPcr0 false sent = .ok registration) :
    ∃ nonce document parts publicKey, env.document nonce document ∧ Vouched lib document parts ∧
      getBytes parts.payloadMap "public_key" = .ok publicKey ∧ publicKey.length = 20 ∧
      registration.key = beValue publicKey := by
  simp only [cmdRegister, bind_eq_ok, okOr_eq_ok, pure_eq_ok, Bool.false_eq_true, if_false,
    mapError_eq_ok] at h
  obtain ⟨info, hinfo, chainId, hchain, blockNumber, hblock, document, hdocument, verified,
    haccept, key, hkey, _, -, _, -, rfl⟩ := h
  obtain ⟨parts, publicKey, hvouched, hbytes, haddress⟩ := vouched_of_acceptDocument haccept
  rw [haddress] at hkey
  obtain ⟨hlength, hvalue⟩ := parseAddress_eq_some hkey
  exact ⟨_, document, parts, publicKey,
    ⟨chainId, blockNumber, info, hchain, hblock, hinfo, rfl, hdocument⟩, hvouched, hbytes, hlength,
    hvalue⟩

/-- The request fetched a document that is vouched for. -/
def FetchedVouched (lib : Libraries) (request : SubmitRequest) : Prop :=
  ∃ nonce document parts, request.env.document nonce document ∧ Vouched lib document parts

theorem fetchedVouched_of_fetchAttestation {request : SubmitRequest}
    (h : fetchAttestation lib config request = .ok verified) : FetchedVouched lib request := by
  simp only [fetchAttestation, bind_eq_ok, okOr_eq_ok, mapError_eq_ok] at h
  obtain ⟨chainId, hchain, blockNumber, hblock, info, hinfo, document, hdocument, haccept⟩ := h
  obtain ⟨parts, -, hvouched, -⟩ := vouched_of_acceptDocument haccept
  exact ⟨_, document, parts, ⟨chainId, blockNumber, info, hchain, hblock, hinfo, rfl, hdocument⟩,
    hvouched⟩

/-- What the verification leaves in the cache: what was there, or a new document of the request. -/
theorem verifyEnclaveAttestation_cases (request : SubmitRequest)
    (cache : Option CachedAttestation) :
    (verifyEnclaveAttestation lib config request cache).2 = cache ∧
        ((verifyEnclaveAttestation lib config request cache).1 = .ok () →
          cacheHit config request cache = true) ∨
      ∃ verified, (verifyEnclaveAttestation lib config request cache).2 =
          some ⟨verified, request.fetchedAt⟩ ∧ FetchedVouched lib request := by
  rw [verifyEnclaveAttestation]
  split
  case isTrue hhit => exact .inl ⟨rfl, fun _ => hhit⟩
  case isFalse =>
    cases hfetch : fetchAttestation lib config request with
    | ok verified => exact .inr ⟨verified, rfl, fetchedVouched_of_fetchAttestation hfetch⟩
    | error e => exact .inl ⟨rfl, fun h => by cases h⟩

/-- The cached document came from one of the requests. -/
def FromRequests (lib : Libraries) (requests : List SubmitRequest)
    (cache : Option CachedAttestation) : Prop :=
  ∀ c, cache = some c → ∃ source ∈ requests, c.fetchedAt = source.fetchedAt ∧
    FetchedVouched lib source

theorem fromRequests_cmdSubmit {requests : List SubmitRequest} {cache : Option CachedAttestation}
    (h : FromRequests lib requests cache) (request : SubmitRequest) :
    FromRequests lib (requests ++ [request]) (cmdSubmit lib config request cache).2 := by
  have hkept : FromRequests lib (requests ++ [request]) cache := by
    intro c hc
    obtain ⟨source, hsource, hrest⟩ := h c hc
    exact ⟨source, List.mem_append_left _ hsource, hrest⟩
  have hverified : FromRequests lib (requests ++ [request])
      (verifyEnclaveAttestation lib config request cache).2 := by
    rcases @verifyEnclaveAttestation_cases lib config request cache with
      ⟨hcache, -⟩ | ⟨verified, hcache, hfetched⟩
    · rw [hcache]
      exact hkept
    · intro c hc
      rw [hcache] at hc
      cases hc
      exact ⟨request, List.mem_append_right _ List.mem_cons_self, rfl, hfetched⟩
  rw [cmdSubmit]
  split
  · exact hkept
  · split
    · split
      case h_1 heq =>
        rw [heq] at hverified
        exact hverified
      case h_2 heq =>
        rw [heq] at hverified
        exact hverified
    · exact hkept

theorem fromRequests_cacheAfter (requests : List SubmitRequest) :
    FromRequests lib requests (cacheAfter lib config requests) := by
  induction requests using List.reverseRecOn with
  | nil =>
    intro c hc
    cases hc
  | append_singleton requests request ih =>
    rw [cacheAfter, List.foldl_append]
    exact fromRequests_cmdSubmit ih request

/-- A submission with the verification on rests on a document of this request, or on one of an
earlier request of the process within the time of the cache. -/
theorem vouched_of_cmdSubmit {requests : List SubmitRequest} {request : SubmitRequest}
    {submission : Submission} (hnitro : config.nitroVerification = true)
    (h : (cmdSubmit lib config request (cacheAfter lib config requests)).1 = .ok submission) :
    FetchedVouched lib request ∨ ∃ source ∈ requests, FetchedVouched lib source ∧
      request.clock - source.fetchedAt < config.attestationCacheTtl := by
  have hverified : (verifyEnclaveAttestation lib config request
      (cacheAfter lib config requests)).1 = .ok () := by
    rw [cmdSubmit] at h
    split at h
    · cases h
    · rw [if_pos hnitro] at h
      split at h
      case h_1 => cases h
      case h_2 heq => rw [heq]
  rcases @verifyEnclaveAttestation_cases lib config request (cacheAfter lib config requests) with
    ⟨-, hhit⟩ | ⟨_, -, hfetched⟩
  · obtain ⟨c, hc, hage⟩ := (Option.any_eq_true _ _).mp (hhit hverified)
    obtain ⟨source, hsource, htime, hfetched⟩ := fromRequests_cacheAfter requests c hc
    refine .inr ⟨source, hsource, hfetched, ?_⟩
    rw [← htime]
    exact of_decide_eq_true hage
  · exact .inl hfetched

/-- `cmd_register` without `skip_verify` registers the key of a document that the endpoint returned
for its nonce, and `cmd_submit` with the verification on rests on such a document, fetched by it or
cached. The document was verified, or its PCR0 is all zeros. -/
theorem accepted_document_vouched (lib : Libraries) (config : Config) :
    (∀ (env : Surroundings) (expectedPcr0 : Option (List Char)) (sent : Bool)
        (registration : Registration),
      cmdRegister lib env expectedPcr0 false sent = .ok registration →
        ∃ nonce document parts publicKey, env.document nonce document ∧
          Vouched lib document parts ∧ getBytes parts.payloadMap "public_key" = .ok publicKey ∧
          publicKey.length = 20 ∧ registration.key = beValue publicKey) ∧
    (config.nitroVerification = true →
      ∀ (requests : List SubmitRequest) (request : SubmitRequest) (submission : Submission),
        (cmdSubmit lib config request (cacheAfter lib config requests)).1 = .ok submission →
          FetchedVouched lib request ∨ ∃ source ∈ requests, FetchedVouched lib source ∧
            request.clock - source.fetchedAt < config.attestationCacheTtl) :=
  ⟨fun _ _ _ _ h => vouched_of_cmdRegister h,
    fun hnitro _ _ _ h => vouched_of_cmdSubmit hnitro h⟩

end Commands

/-! A document of the development mode: the key of the endpoint, no certificates and a signature
of zeros. -/

def mockKey : List UInt8 := List.replicate 20 0x22

def mockNonce : List UInt8 :=
  wordToBeBytes 0x6a2741791b59ef577a33d1c5b9e96a6c164f3c8075d7195f2c9a001ebfe03025

def mockHeader : List UInt8 := [0xa1, 0x01, 0x38, 0x22]

def mockPayload : List UInt8 :=
  [0xa5, 0x69, 0x6d, 0x6f, 0x64, 0x75, 0x6c, 0x65, 0x5f, 0x69, 0x64, 0x64, 0x6d, 0x6f, 0x63, 0x6b,
    0x69, 0x74, 0x69, 0x6d, 0x65, 0x73, 0x74, 0x61, 0x6d, 0x70, 0x19, 0x03, 0xe8, 0x6a, 0x70, 0x75,
    0x62, 0x6c, 0x69, 0x63, 0x5f, 0x6b, 0x65, 0x79, 0x54] ++ mockKey ++
  [0x65, 0x6e, 0x6f, 0x6e, 0x63, 0x65, 0x58, 0x20] ++ mockNonce ++
  [0x64, 0x70, 0x63, 0x72, 0x73, 0xa1, 0x00, 0x58, 0x30] ++ List.replicate 48 0

def mockPayloadMap : PayloadMap :=
  [(.text "module_id", .text "mock"), (.text "timestamp", .integer 1000),
    (.text "public_key", .bytes mockKey), (.text "nonce", .bytes mockNonce),
    (.text "pcrs", .map [(.integer 0, .bytes (List.replicate 48 0))])]

def mockDocument : List UInt8 :=
  [0x84, 0x44] ++ mockHeader ++ [0xa0, 0x58, 0x9e] ++ mockPayload ++ [0x58, 0x60] ++
    List.replicate 96 0

def mockText : String :=
  "hEShATgioFiepWltb2R1bGVfaWRkbW9ja2l0aW1lc3RhbXAZA+hqcHVibGljX2tleVQiIiIiIiIiIiIiIiIiIiIi" ++
    "IiIiImVub25jZVggaidBeRtZ71d6M9HFuelqbBZPPIB11xlfLJoAHr/gMCVkcGNyc6EAWDAAAAAAAAAAAAAAAAAA" ++
    "AAAAAAAAAAAAAAAAAAAAAAAAAAAAAAAAAAAAAAAAAAAAAABYYAAAAAAAAAAAAAAAAAAAAAAAAAAAAAAAAAAAAAAA" ++
    "AAAAAAAAAAAAAAAAAAAAAAAAAAAAAAAAAAAAAAAAAAAAAAAAAAAAAAAAAAAAAAAAAAAAAAAAAAAAAAAAAAAAAAAA" ++
    "AA=="

def mockParts : CoseSign1Parts where
  protectedHeader := mockHeader
  payloadBytes := mockPayload
  signatureBytes := List.replicate 96 0
  payloadMap := mockPayloadMap

/-- The libraries on this document; no certificate is parsed and no signature is valid. -/
def mockLibraries : Libraries where
  base64Decode text := if text = mockText then some mockDocument else none
  fromReader bytes :=
    if bytes = mockDocument then
      some (.array [.bytes mockHeader, .map [], .bytes mockPayload, .bytes (List.replicate 96 0)])
    else if bytes = mockPayload then some (.map mockPayloadMap)
    else none
  intoWriter _ := none
  fromDer _ := none
  VerifyingKey := Unit
  Signature := Unit
  fromSec1Bytes _ := none
  derSignature _ := none
  rawSignature _ := none
  verify _ _ _ := false

def mockSurroundings : Surroundings where
  chainId := some 1
  blockNumber := some 1
  info := some ('0' :: 'x' :: hexEncode mockKey)
  attestation _ := some mockText
  nowMs := some 1000

def mockFields : VerifiedAttestation where
  pcr0 := List.replicate 96 '0'
  pcr1 := []
  pcr2 := []
  enclaveAddress := '0' :: 'x' :: hexEncode mockKey
  userData := []
  moduleId := "mock"
  timestamp := 1000
  certChainVerified := false
  nonce := some (hexEncode mockNonce)

private theorem mock_nonce :
    computeAttestationNonce 1 1 ('0' :: 'x' :: hexEncode mockKey) = hexEncode mockNonce := by
  rw [computeAttestationNonce, keccak256_eq_keccakLanes]
  decide +kernel

private theorem mock_decode : decodeDocument mockLibraries mockText = .ok mockParts := by
  have htext : mockLibraries.base64Decode mockText = some mockDocument := by
    simp only [mockLibraries, if_pos]
  have hdocument : mockLibraries.fromReader mockDocument =
      some (.array [.bytes mockHeader, .map [], .bytes mockPayload,
        .bytes (List.replicate 96 0)]) := by
    simp only [mockLibraries, if_pos]
  have hne : mockPayload ≠ mockDocument := by decide +kernel
  have hpayload : mockLibraries.fromReader mockPayload = some (.map mockPayloadMap) := by
    simp only [mockLibraries, if_neg hne, if_pos]
  simp only [decodeDocument, htext, decodeCoseSign1, hdocument, okOr, ok_bind, coseItems, asBytes,
    hpayload]
  rfl

private theorem mock_fields : parseFieldsFromMap mockPayloadMap = .ok mockFields := by
  have hmodule : getText mockPayloadMap "module_id" = .ok "mock" := rfl
  have htimestamp : getInteger mockPayloadMap "timestamp" = .ok 1000 := rfl
  have hkey : getBytes mockPayloadMap "public_key" = .ok mockKey := rfl
  have huser : getBytes mockPayloadMap "user_data" = .error (.missingField "user_data") := rfl
  have hnonce : getOptionalBytes mockPayloadMap "nonce" = some mockNonce := by decide +kernel
  have hpcrs : readPcrs mockPayloadMap = ⟨List.replicate 96 '0', [], []⟩ := by decide +kernel
  simp only [parseFieldsFromMap, hmodule, htimestamp, hkey, huser, hnonce, hpcrs, ok_bind]
  rfl

private theorem mock_accepted (maxAgeSecs : ℕ) :
    acceptDocument mockLibraries mockText (hexEncode mockNonce) none (some 1000) maxAgeSecs =
      .ok mockFields := by
  have hmock : isMock mockFields = true := by decide
  have hverify : verifyAttestation mockLibraries mockText = .ok mockFields := by
    have hfields : parseFieldsFromMap mockParts.payloadMap = .ok mockFields := mock_fields
    simp only [verifyAttestation, mock_decode, hfields, ok_bind, hmock, if_true]
    rfl
  have hprefix : stripHexPrefix (hexEncode mockNonce) = hexEncode mockNonce := by decide +kernel
  have hnonce : validateNonce mockFields (hexEncode mockNonce) = .ok () := by
    rw [validateNonce, hprefix, require_eq_ok]
    exact beq_self_eq_true _
  have hfresh : validateFreshness mockFields (some 1000) maxAgeSecs = .ok () := by
    rw [validateFreshness, okOr, ok_bind, require_eq_ok]
    exact decide_eq_true (Nat.zero_le _)
  simp only [acceptDocument, hverify, hnonce, validateExpectedPcr0, hfresh, ok_bind]
  rfl

private theorem mock_registered :
    cmdRegister mockLibraries mockSurroundings none false true = .ok ⟨beValue mockKey, 0⟩ := by
  have hkey : parseAddress mockFields.enclaveAddress = some (beValue mockKey) := by
    simp only [parseAddress, mockFields, stripHexPrefix, hexDecode_hexEncode]
    rfl
  have hpcr0 : hexDecode mockFields.pcr0 = some (List.replicate 48 0) := by decide +kernel
  have himage : toImageHash (List.replicate 48 0) = 0 := by decide +kernel
  simp only [cmdRegister, mockSurroundings, okOr, ok_bind, mock_nonce, Bool.false_eq_true, if_false,
    mock_accepted, Except.mapError, hkey, hpcr0, require_true, himage]
  rfl

def mockConfig : Config where
  nitroVerification := true
  expectedPcr0 := none
  attestationFreshnessSecs := 300
  attestationCacheTtl := 300
  proverStakeWei := some (10 ^ 17)

/-- The endpoint answers `/infer` with the result of another enclave. -/
def mockRequest : SubmitRequest where
  featuresValid := true
  health := some true
  env := mockSurroundings
  clock := 0
  fetchedAt := 1
  response := some ⟨withPrefix [], withPrefix (wordToBeBytes 1), withPrefix (wordToBeBytes 0),
    withPrefix (sampleAttestation 1)⟩
  sent := true

private theorem mock_submitted :
    (cmdSubmit mockLibraries mockConfig mockRequest none).1 =
      .ok ⟨1, 0, [], sampleAttestation 1⟩ := by
  have hfetch : fetchAttestation mockLibraries mockConfig mockRequest = .ok mockFields := by
    simp only [fetchAttestation, mockRequest, mockSurroundings, mockConfig, okOr, ok_bind,
      mock_nonce, mock_accepted, Except.mapError]
  have hverify : verifyEnclaveAttestation mockLibraries mockConfig mockRequest none =
      (.ok (), some ⟨mockFields, 1⟩) := by
    simp only [verifyEnclaveAttestation, cacheHit, Option.any_none, Bool.false_eq_true, if_false,
      hfetch]
    rfl
  have hsubmit : submitInference mockConfig mockRequest = .ok ⟨1, 0, [], sampleAttestation 1⟩ := by
    have hresponse : mockRequest.response.bind EnclaveAttestation.cmdSubmit =
        some ⟨1, 0, [], sampleAttestation 1⟩ := by decide +kernel
    obtain ⟨response, hsome, hdecoded⟩ := Option.bind_eq_some_iff.mp hresponse
    simp only [submitInference, hsome, okOr, ok_bind, hdecoded]
    rfl
  have hcheck : checkRequest mockRequest = .ok () := rfl
  simp only [cmdSubmit, hcheck, hverify, hsubmit]
  rfl

theorem mock_vouched :
    (∃ nonce document parts publicKey, mockSurroundings.document nonce document ∧
      Vouched mockLibraries document parts ∧
      getBytes parts.payloadMap "public_key" = .ok publicKey ∧ publicKey.length = 20 ∧
      beValue mockKey = beValue publicKey) ∧
    FetchedVouched mockLibraries mockRequest := by
  obtain ⟨hregister, hsubmit⟩ := accepted_document_vouched mockLibraries mockConfig
  refine ⟨hregister _ _ _ _ mock_registered, ?_⟩
  rcases hsubmit rfl [] mockRequest _ mock_submitted with hfetched | ⟨source, hsource, -⟩
  · exact hfetched
  · cases hsource

/-- The document of zeros has no verified chain and is accepted: its key is registered, and with it
the result of an enclave with another key is submitted. -/
theorem mock_document_accepted :
    decodeDocument mockLibraries mockText = .ok mockParts ∧
      ¬ChainVerified mockLibraries mockParts ∧
      cmdRegister mockLibraries mockSurroundings none false true = .ok ⟨beValue mockKey, 0⟩ ∧
      (cmdSubmit mockLibraries mockConfig mockRequest none).1 =
        .ok ⟨1, 0, [], sampleAttestation 1⟩ ∧
      ∀ digest, sampleRecover digest (sampleAttestation 1) ≠ some (beValue mockKey) := by
  refine ⟨mock_decode, ?_, mock_registered, mock_submitted, fun digest hrecover => ?_⟩
  · rintro ⟨cabundle, certs, root, leaf, hgenuine⟩
    have hmissing : extractCabundle mockPayloadMap = .error (.missingField "cabundle") := rfl
    have hbundled := hgenuine.bundled
    rw [show mockParts.payloadMap = mockPayloadMap from rfl, hmissing] at hbundled
    cases hbundled
  · rw [sampleRecover, if_pos (.inl rfl)] at hrecover
    exact absurd (Option.some.inj hrecover) (by decide)

end WorldZk.AttestedCommands
