import WorldZk.HexText
import WorldZk.TeeVerifier

/-!
# The attestation of an enclave

An inference result leaves the enclave with a signature, travels through the operator as hex text
and reaches `submitResult`. The enclave signs an EIP-191 message over the hashes, the chain, a
nonce and the time; the contract recovers a signer from an EIP-712 digest over the hashes.
-/

namespace WorldZk.EnclaveAttestation

open CheckedRuns HexText Transcript Keccak256 TeeVerifier

/-! ## Signing in the enclave -/

/-- An `Attestor`: the signature of its key on a digest, and what it puts into the payload. -/
structure Attestor where
  signHash : ℕ → List UInt8
  address : ℕ
  nonceCounter : ℕ
  chainId : ℕ

structure AttestationResult where
  resultHash : ℕ
  signature : List UInt8
  chainId : ℕ
  nonce : ℕ
  timestamp : ℕ
deriving DecidableEq, Repr

/-- `pack_attestation_payload`. The three numbers are written as 32 bytes each. -/
def packAttestationPayload (modelHash inputHash resultHash chainId nonce timestamp : ℕ) :
    List UInt8 :=
  [modelHash, inputHash, resultHash, chainId, nonce, timestamp].flatMap wordToBeBytes

/-- What `sign_message_sync` hashes for a message of 32 bytes. -/
def ethSignedMessage (message : ℕ) : List UInt8 :=
  0x19 :: utf8 "Ethereum Signed Message:\n32" ++ wordToBeBytes message

/-- `sign_attestation_with_timestamp`; the nonce counter wraps around. -/
def signAttestationWithTimestamp (attestor : Attestor) (modelHash inputHash : ℕ)
    (resultBytes : List UInt8) (timestamp : ℕ) : AttestationResult × Attestor :=
  let resultHash := keccak256 resultBytes
  let nonce := attestor.nonceCounter
  let packed := packAttestationPayload modelHash inputHash resultHash attestor.chainId nonce timestamp
  let message := keccak256 packed
  let signature := attestor.signHash (keccak256 (ethSignedMessage message))
  (⟨resultHash, signature, attestor.chainId, nonce, timestamp⟩,
    { attestor with nonceCounter := (nonce + 1) % 2 ^ 64 })

/-! ## Hex text -/

/-- `hex_to_bytes`. -/
def hexToBytes : List Char → Option (List UInt8)
  | '0' :: 'x' :: stripped => hexDecode stripped
  | text => hexDecode text

/-- `hex_to_b256`. -/
def hexToB256 (text : List Char) : Option ℕ := do
  let bytes ← hexToBytes text
  if bytes.length = 32 then pure (beValue bytes) else none

/-! ## The services -/

/-- The fields of an `InferResponse` that the operator reads. -/
structure InferResponse where
  result : List Char
  modelHash : List Char
  inputHash : List Char
  attestation : List Char
deriving DecidableEq, Repr

def withPrefix (bytes : List UInt8) : List Char := '0' :: 'x' :: hexEncode bytes

/-- The end of the handler `infer`, from the hashes, the serialised scores and the time on. A
request for another chain is refused. -/
def infer (attestor : Attestor) (chainIdOverride : Option ℕ) (modelHash inputHash : ℕ)
    (resultBytes : List UInt8) (timestamp : ℕ) : Option (InferResponse × Attestor) :=
  if chainIdOverride.all (· == attestor.chainId) then
    let (attestation, attestor) :=
      signAttestationWithTimestamp attestor modelHash inputHash resultBytes timestamp
    some (⟨withPrefix resultBytes, withPrefix (wordToBeBytes modelHash),
      withPrefix (wordToBeBytes inputHash), withPrefix attestation.signature⟩, attestor)
  else none

/-- The arguments of the transaction that `cmd_submit` sends. -/
structure Submission where
  modelHash : ℕ
  inputHash : ℕ
  result : List UInt8
  attestation : List UInt8
deriving DecidableEq, Repr

/-- `cmd_submit`, from the enclave's response to the transaction. -/
def cmdSubmit (response : InferResponse) : Option Submission := do
  let modelHash ← hexToB256 response.modelHash
  let inputHash ← hexToB256 response.inputHash
  let result ← hexToBytes response.result
  let attestation ← hexToBytes response.attestation
  pure ⟨modelHash, inputHash, result, attestation⟩

private theorem hexToBytes_withPrefix (bytes : List UInt8) :
    hexToBytes (withPrefix bytes) = some bytes :=
  hexDecode_hexEncode bytes

private theorem hexToB256_withPrefix {w : ℕ} (hw : w < 2 ^ 256) :
    hexToB256 (withPrefix (wordToBeBytes w)) = some w := by
  rw [hexToB256, hexToBytes_withPrefix]
  simp only [bind, Option.bind, length_wordToBeBytes, if_true, beValue_wordToBeBytes hw, pure]

/-- The operator forwards what the enclave signed. -/
theorem cmdSubmit_infer {attestor attestor' : Attestor} {chainIdOverride : Option ℕ}
    {modelHash inputHash timestamp : ℕ} {resultBytes : List UInt8} {response : InferResponse}
    (hmodel : modelHash < 2 ^ 256) (hinput : inputHash < 2 ^ 256)
    (h : infer attestor chainIdOverride modelHash inputHash resultBytes timestamp =
      some (response, attestor')) :
    cmdSubmit response = some ⟨modelHash, inputHash, resultBytes,
      attestor.signHash (keccak256 (ethSignedMessage (keccak256 (packAttestationPayload modelHash
        inputHash (keccak256 resultBytes) attestor.chainId attestor.nonceCounter timestamp))))⟩ := by
  unfold infer at h
  split at h
  · obtain ⟨rfl, -⟩ := Prod.mk.inj (Option.some.inj h)
    simp only [cmdSubmit, hexToB256_withPrefix hmodel, hexToB256_withPrefix hinput,
      hexToBytes_withPrefix, bind, Option.bind, pure]
  · cases h

/-! ## Recovery in the contract -/

/-- What `submitResult` hashes into the digest. -/
def typedMessage (c : TeeContract) (chainId modelHash inputHash resultHash : ℕ) : List UInt8 :=
  [0x19, 0x01] ++ wordToBeBytes (domainSeparator c chainId) ++
    wordToBeBytes (keccak256 ([RESULT_TYPEHASH, modelHash, inputHash, resultHash].flatMap
      wordToBeBytes))

/-- ECDSA: the attestor's signature of a digest recovers its address on that digest only. -/
def SignsExactly (recover : ℕ → List UInt8 → Option ℕ) (attestor : Attestor) : Prop :=
  ∀ digest digest', digest < 2 ^ 256 → digest' < 2 ^ 256 →
    (recover digest' (attestor.signHash digest) = some attestor.address ↔ digest' = digest)

/-- `submitResult` recovers the attestor's address from its digest of the submission. -/
def RecoversAttestor (recover : ℕ → List UInt8 → Option ℕ) (c : TeeContract) (msg : Message)
    (attestor : Attestor) (sub : Submission) : Prop :=
  recover (attestationDigest c msg.chainId sub.modelHash sub.inputHash (keccak256 sub.result))
    sub.attestation = some attestor.address

/-- The hash tells two byte strings apart. -/
def CollisionFree (xs ys : List UInt8) : Prop := keccak256 xs = keccak256 ys → xs = ys

/-- The two schemes never hash the same bytes: after `0x19` one goes on with text and the other
with `0x01`. -/
theorem ethSignedMessage_ne_typedMessage (c : TeeContract)
    (message chainId modelHash inputHash resultHash : ℕ) :
    ethSignedMessage message ≠ typedMessage c chainId modelHash inputHash resultHash := by
  intro h
  have htext : (utf8 "Ethereum Signed Message:\n32").head? = some 0x45 := by decide +kernel
  obtain ⟨text, htext⟩ := List.head?_eq_some_iff.mp htext
  have hsecond := congrArg (fun bytes => bytes[1]?) h
  have htyped : (typedMessage c chainId modelHash inputHash resultHash)[1]? = some 0x01 := rfl
  simp only [ethSignedMessage, htext, htyped, List.cons_append, List.getElem?_cons_succ,
    List.getElem?_cons_zero] at hsecond
  exact absurd hsecond (by decide)

/-- What the enclave signs for a submission. -/
def signedMessage (attestor : Attestor) (sub : Submission) (timestamp : ℕ) : List UInt8 :=
  ethSignedMessage (keccak256 (packAttestationPayload sub.modelHash sub.inputHash
    (keccak256 sub.result) attestor.chainId attestor.nonceCounter timestamp))

/-- The contract recovers the enclave's address from no submission that the operator forwards. -/
theorem infer_not_recoversAttestor {recover : ℕ → List UInt8 → Option ℕ} {attestor : Attestor}
    (hsigns : SignsExactly recover attestor) (c : TeeContract) (msg : Message)
    (chainIdOverride : Option ℕ) {modelHash inputHash : ℕ} (hmodel : modelHash < 2 ^ 256)
    (hinput : inputHash < 2 ^ 256) (resultBytes : List UInt8) (timestamp : ℕ)
    {response : InferResponse} {attestor' : Attestor} {sub : Submission}
    (hinfer : infer attestor chainIdOverride modelHash inputHash resultBytes timestamp =
      some (response, attestor'))
    (hsub : cmdSubmit response = some sub)
    (hfree : CollisionFree (signedMessage attestor sub timestamp)
      (typedMessage c msg.chainId sub.modelHash sub.inputHash (keccak256 sub.result))) :
    ¬RecoversAttestor recover c msg attestor sub := by
  rw [cmdSubmit_infer hmodel hinput hinfer] at hsub
  obtain rfl := Option.some.inj hsub
  intro hrecovers
  have hdigest := (hsigns _ _ (keccak256_lt _) (keccak256_lt _)).mp hrecovers
  exact ethSignedMessage_ne_typedMessage c _ msg.chainId modelHash inputHash (keccak256 resultBytes)
    (hfree hdigest.symm)

/-! A key that signs by writing the digest out. -/

def plainSignature (digest : ℕ) : List UInt8 := wordToBeBytes digest ++ List.replicate 33 27

def plainAttestor : Attestor := ⟨plainSignature, 5, 0, 1⟩

def plainRecover (digest : ℕ) (signature : List UInt8) : Option ℕ :=
  if signature = plainSignature digest then some 5 else none

private theorem plainSignature_injective {digest digest' : ℕ} (hdigest : digest < 2 ^ 256)
    (hdigest' : digest' < 2 ^ 256) (h : plainSignature digest = plainSignature digest') :
    digest = digest' := by
  have hwords := congrArg beValue (List.append_cancel_right h)
  rwa [beValue_wordToBeBytes hdigest, beValue_wordToBeBytes hdigest'] at hwords

theorem signsExactly_plain : SignsExactly plainRecover plainAttestor := by
  intro digest digest' hdigest hdigest'
  constructor
  · intro h
    by_contra hne
    have hsignature : plainAttestor.signHash digest ≠ plainSignature digest' :=
      fun heq => hne (plainSignature_injective hdigest hdigest' heq).symm
    rw [plainRecover, if_neg hsignature] at h
    cases h
  · rintro rfl
    exact if_pos rfl

/-- A contract on which the key is registered and active. -/
def registeredContract : TeeContract :=
  { initialStorage 9 1 2 3 with
    enclaves := Function.update (fun _ => PackedEnclaveInfo.empty) 5 ⟨true, true, 1, 7⟩ }

def sampleMessage : Message := ⟨6, ETHER, 100, 1, 1⟩

def sampleSubmission : Submission :=
  ⟨10, 11, [1, 2], plainAttestor.signHash (keccak256 (ethSignedMessage (keccak256
    (packAttestationPayload 10 11 (keccak256 [1, 2]) 1 0 50))))⟩

private theorem sample_digests_ne :
    keccak256 (signedMessage plainAttestor sampleSubmission 50) ≠
      keccak256 (typedMessage registeredContract 1 10 11 (keccak256 [1, 2])) := by
  have hdomain : domainSeparator registeredContract 1 = computeDomainSeparator 9 1 := if_pos rfl
  simp only [signedMessage, typedMessage, hdomain, computeDomainSeparator, EIP712_DOMAIN_TYPEHASH,
    NAME_HASH, VERSION_HASH, RESULT_TYPEHASH, keccak256_eq_keccakLanes]
  decide +kernel

private theorem sample_submission :
    ∃ response attestor', infer plainAttestor none 10 11 [1, 2] 50 = some (response, attestor') ∧
      cmdSubmit response = some sampleSubmission :=
  ⟨_, _, rfl, @cmdSubmit_infer plainAttestor _ none _ _ _ _ _ (by decide) (by decide) rfl⟩

theorem sample_not_recoversAttestor :
    CollisionFree (signedMessage plainAttestor sampleSubmission 50)
        (typedMessage registeredContract 1 10 11 (keccak256 [1, 2])) ∧
      ¬RecoversAttestor plainRecover registeredContract sampleMessage plainAttestor
        sampleSubmission := by
  have hfree : CollisionFree (signedMessage plainAttestor sampleSubmission 50)
      (typedMessage registeredContract 1 10 11 (keccak256 [1, 2])) :=
    fun h => absurd h sample_digests_ne
  obtain ⟨response, attestor', hinfer, hsub⟩ := sample_submission
  exact ⟨hfree, infer_not_recoversAttestor signsExactly_plain registeredContract sampleMessage none
    (by decide) (by decide) [1, 2] 50 hinfer hsub hfree⟩

/-- The submission of a registered and active enclave is turned down. -/
theorem registered_attestation_rejected :
    (registeredContract.enclaves plainAttestor.address).registered = true ∧
      (registeredContract.enclaves plainAttestor.address).active = true ∧
      ∃ response attestor' sub,
        infer plainAttestor none 10 11 [1, 2] 50 = some (response, attestor') ∧
        cmdSubmit response = some sub ∧
        ¬RecoversAttestor plainRecover registeredContract sampleMessage plainAttestor sub ∧
        submitResult plainRecover registeredContract sampleMessage sub.modelHash sub.inputHash
          sub.result sub.attestation = .error .invalidSignature := by
  obtain ⟨response, attestor', hinfer, hsub⟩ := sample_submission
  have hnone : plainRecover
      (keccak256 (typedMessage registeredContract 1 10 11 (keccak256 [1, 2])))
      sampleSubmission.attestation = none := by
    exact if_neg fun heq =>
      sample_digests_ne (plainSignature_injective (keccak256_lt _) (keccak256_lt _) heq)
  refine ⟨rfl, rfl, response, attestor', sampleSubmission, hinfer, hsub, ?_, ?_⟩
  · intro hrecovers
    have hsome := hnone.symm.trans hrecovers
    cases hsome
  · have hdigest : attestationDigest registeredContract sampleMessage.chainId
        sampleSubmission.modelHash sampleSubmission.inputHash (keccak256 sampleSubmission.result) =
          keccak256 (typedMessage registeredContract 1 10 11 (keccak256 [1, 2])) := rfl
    simp only [submitResult, hdigest, hnone]
    rfl

end WorldZk.EnclaveAttestation
