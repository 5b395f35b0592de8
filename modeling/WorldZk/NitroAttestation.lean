import Mathlib.Algebra.Group.Int.Defs
import Mathlib.Data.Int.Notation
import WorldZk.CheckedRuns
import WorldZk.HexText

/-!
# Attestation documents of Nitro enclaves

A document is a COSE_Sign1 structure in CBOR, whose payload carries the measurements of the
enclave, its key and a bundle of certificates. `verify_attestation` parses it and, unless its
PCR0 is all zeros, checks the certificates up to the embedded root and the signature with the last
of them. The decoders and P-384 come from libraries and are parameters here.
-/

namespace WorldZk.NitroAttestation

open CheckedRuns HexText

/-- `ciborium::Value`. -/
inductive Cbor
  | integer (n : ℤ)
  | bytes (b : List UInt8)
  | float (bits : UInt64)
  | text (s : String)
  | bool (b : Bool)
  | null
  | tag (n : ℕ) (inner : Cbor)
  | array (items : List Cbor)
  | map (entries : List (Cbor × Cbor))

abbrev PayloadMap : Type := List (Cbor × Cbor)

/-- The errors. What a library's own error adds to a message is left out. -/
inductive AttestationError
  | base64
  | cbor (context : String)
  | coseStructure (message : String)
  | missingField (field : String)
  | certChain (message : String)
  | expired
  | pcrMismatch (expected actual : List Char)
  | nonceMismatch (expected : List Char) (actual : Option (List Char))
deriving DecidableEq, Repr

structure PublicKeyInfo where
  algorithm : List UInt8
  subjectPublicKey : List UInt8
deriving DecidableEq, Repr

/-- The parts of an X.509 certificate that are used. `tbsDer` is the encoding of what its issuer
signed. -/
structure Certificate where
  subjectPublicKeyInfo : PublicKeyInfo
  tbsDer : Option (List UInt8)
  signature : List UInt8
deriving DecidableEq, Repr

/-- The libraries: Base64, CBOR, X.509 and ECDSA over P-384 with SHA-384. -/
structure Libraries where
  base64Decode : String → Option (List UInt8)
  fromReader : List UInt8 → Option Cbor
  intoWriter : Cbor → Option (List UInt8)
  fromDer : List UInt8 → Option Certificate
  VerifyingKey : Type
  Signature : Type
  fromSec1Bytes : List UInt8 → Option VerifyingKey
  /-- A signature in DER. -/
  derSignature : List UInt8 → Option Signature
  /-- A signature as the concatenation of its two numbers. -/
  rawSignature : List UInt8 → Option Signature
  verify : VerifyingKey → List UInt8 → Signature → Bool

/-! ## The embedded root -/

/-- The lines of the embedded certificate. -/
def AWS_NITRO_ROOT_CA_PEM : List String :=
  ["-----BEGIN CERTIFICATE-----",
    "MIICETCCAZagAwIBAgIRAPkxdWgbkK/hHUbMtOTn+FYwCgYIKoZIzj0EAwMwSTEL",
    "MAkGA1UEBhMCVVMxDzANBgNVBAoMBkFtYXpvbjEMMAoGA1UECwwDQVdTMRswGQYD",
    "VQQDDBJhd3Mubml0cm8tZW5jbGF2ZXMwHhcNMTkxMDI4MTMyODA1WhcNNDkxMDI4",
    "MTQyODA1WjBJMQswCQYDVQQGEwJVUzEPMA0GA1UECgwGQW1hem9uMQwwCgYDVQQL",
    "DANBV1MxGzAZBgNVBAMMEmF3cy5uaXRyby1lbmNsYXZlczB2MBAGByqGSM49AgEG",
    "BSuBBAAiA2IABPwCVOumCMHzaHDimtqQvkY4MpJzbolL//Zy2YlES1BR5TSksfbb",
    "48C8WBoyt7F2Bw7eEtaaP+ohG2bnUs990d0JX28TcPQXCEPZ3BABIeTPYwEoCWZE",
    "h8l5YoQwTcU/9KNCMEAwDwYDVR0TAQH/BAUwAwEB/zAdBgNVHQ4EFgQUkCW1DdkF",
    "R+eWw5b6cp3PmanfS5YwDgYDVR0PAQH/BAQDAgGGMAoGCCqGSM49BAMDA2kAMGYC",
    "MQCjfy+Rocm9Xue4YnwWmNJVA44fA0P5W2OpYow9OYCVRaEevL8uO1XYru5xtMPW",
    "rfMCMQCi85sWBbJwKKXdS6BptQFuZbT73o/gBh1qUxl/nNr12UO8Yfwr6wPLb+6N",
    "IwLz3/Y=",
    "-----END CERTIFICATE-----"]

/-- The Base64 text between the markers. -/
def rootCaBody : String :=
  String.join (AWS_NITRO_ROOT_CA_PEM.filter fun line =>
    line != "" && !("-----".toList.isPrefixOf line.toList))

/-! ## The fields of a payload -/

/-- The first entry of the map under the text key whose value can be read. -/
def findField {α : Type} (payloadMap : PayloadMap) (key : String) (read : Cbor → Option α) :
    Option α :=
  payloadMap.findSome? fun entry =>
    match entry with
    | (.text k, v) => if k = key then read v else none
    | _ => none

def getText (payloadMap : PayloadMap) (key : String) : Except AttestationError String :=
  okOr (.missingField key) (findField payloadMap key fun
    | .text val => some val
    | _ => none)

/-- A null counts as empty bytes. -/
def getBytes (payloadMap : PayloadMap) (key : String) : Except AttestationError (List UInt8) :=
  okOr (.missingField key) (findField payloadMap key fun
    | .bytes val => some val
    | .null => some []
    | _ => none)

/-- The first entry under the key decides, whatever its value. -/
def getOptionalBytes (payloadMap : PayloadMap) (key : String) : Option (List UInt8) :=
  (findField payloadMap key fun
    | .bytes val => some (if val.isEmpty then none else some val)
    | _ => some none).join

def getInteger (payloadMap : PayloadMap) (key : String) : Except AttestationError ℕ := do
  let n ← okOr (.missingField key) (findField payloadMap key fun
    | .integer n => some n
    | _ => none)
  require (decide (0 ≤ n ∧ n < 2 ^ 64))
    (.coseStructure s!"Field '{key}' has out-of-range integer value: {n}")
  pure n.toNat

def certBytes : Cbor → Except AttestationError (List UInt8)
  | .bytes der => .ok der
  | _ => .error (.certChain "cabundle entry is not bytes")

def extractCabundle (payloadMap : PayloadMap) : Except AttestationError (List (List UInt8)) := do
  let certs ← okOr (.missingField "cabundle") (findField payloadMap "cabundle" fun
    | .array certs => some certs
    | _ => none)
  certs.mapM certBytes

structure Pcrs where
  pcr0 : List Char
  pcr1 : List Char
  pcr2 : List Char
deriving DecidableEq, Repr

def setPcr (pcrs : Pcrs) : Cbor × Cbor → Pcrs
  | (.integer 0, .bytes val) => { pcrs with pcr0 := hexEncode val }
  | (.integer 1, .bytes val) => { pcrs with pcr1 := hexEncode val }
  | (.integer 2, .bytes val) => { pcrs with pcr2 := hexEncode val }
  | _ => pcrs

/-- Every map under the key is read, so that later values replace earlier ones. -/
def readPcrs (payloadMap : PayloadMap) : Pcrs :=
  payloadMap.foldl (fun pcrs entry =>
    match entry with
    | (.text "pcrs", .map pcrMap) => pcrMap.foldl setPcr pcrs
    | _ => pcrs) ⟨[], [], []⟩

structure VerifiedAttestation where
  pcr0 : List Char
  pcr1 : List Char
  pcr2 : List Char
  enclaveAddress : List Char
  userData : List Char
  moduleId : String
  timestamp : ℕ
  certChainVerified : Bool
  nonce : Option (List Char)
deriving DecidableEq, Repr

def parseFieldsFromMap (payloadMap : PayloadMap) :
    Except AttestationError VerifiedAttestation := do
  let moduleId ← getText payloadMap "module_id"
  let timestamp ← getInteger payloadMap "timestamp"
  let publicKeyBytes ← getBytes payloadMap "public_key"
  let userDataBytes := (getBytes payloadMap "user_data").toOption.getD []
  let nonce := (getOptionalBytes payloadMap "nonce").map hexEncode
  let pcrs := readPcrs payloadMap
  require (!pcrs.pcr0.isEmpty) (.missingField "pcrs[0]")
  pure
    { pcr0 := pcrs.pcr0
      pcr1 := pcrs.pcr1
      pcr2 := pcrs.pcr2
      enclaveAddress := '0' :: 'x' :: hexEncode publicKeyBytes
      userData := hexEncode userDataBytes
      moduleId := moduleId
      timestamp := timestamp
      certChainVerified := false
      nonce := nonce }

/-! ## The document -/

structure CoseSign1Parts where
  protectedHeader : List UInt8
  payloadBytes : List UInt8
  signatureBytes : List UInt8
  payloadMap : PayloadMap

def asBytes (message : String) : Cbor → Except AttestationError (List UInt8)
  | .bytes b => .ok b
  | _ => .error (.coseStructure message)

/-- The array, with or without its tag. -/
def coseItems : Cbor → Except AttestationError (List Cbor)
  | .tag 18 (.array items) => .ok items
  | .tag 18 _ => .error (.coseStructure "Expected array inside Tag(18)")
  | .array items => .ok items
  | _ => .error (.coseStructure "Expected COSE_Sign1 array or Tag(18)")

section Verification

variable (lib : Libraries)

def decodeCoseSign1 (docBytes : List UInt8) : Except AttestationError CoseSign1Parts := do
  let coseValue ← okOr (.cbor "") (lib.fromReader docBytes)
  let items ← coseItems coseValue
  match items with
  | [protectedItem, _, payloadItem, signatureItem] =>
    let protectedHeader ← asBytes "Protected header is not bytes" protectedItem
    let payloadBytes ← asBytes "Payload is not bytes" payloadItem
    let signatureBytes ← asBytes "Signature is not bytes" signatureItem
    let payloadValue ← okOr (.cbor "Payload CBOR") (lib.fromReader payloadBytes)
    match payloadValue with
    | .map payloadMap => pure ⟨protectedHeader, payloadBytes, signatureBytes, payloadMap⟩
    | _ => .error (.coseStructure "Payload is not a map")
  | items =>
    let count := items.length
    .error (.coseStructure s!"Expected 4 items, got {count}")

/-- The first lines of `parse_attestation` and `verify_attestation`. -/
def decodeDocument (base64Doc : String) : Except AttestationError CoseSign1Parts := do
  let docBytes ← okOr .base64 (lib.base64Decode base64Doc)
  decodeCoseSign1 lib docBytes

def parseAttestation (base64Doc : String) : Except AttestationError VerifiedAttestation := do
  let parts ← decodeDocument lib base64Doc
  parseFieldsFromMap parts.payloadMap

/-! ## Certificates and signatures -/

def verifyRootCert (rootCert : Certificate) : Except AttestationError Unit := do
  let rootCaDer ← okOr (.certChain "Root CA PEM decode") (lib.base64Decode rootCaBody)
  let expectedRoot ← okOr (.certChain "Failed to parse root CA cert") (lib.fromDer rootCaDer)
  require (rootCert.subjectPublicKeyInfo == expectedRoot.subjectPublicKeyInfo)
    (.certChain "Root cert public key mismatch with AWS Nitro root CA")

def verifyCertSignature (issuer subject : Certificate) : Except AttestationError Unit := do
  let verifyingKey ← okOr (.certChain "Invalid issuer P-384 key")
    (lib.fromSec1Bytes issuer.subjectPublicKeyInfo.subjectPublicKey)
  let tbsDer ← okOr (.certChain "Failed to encode TBS") subject.tbsDer
  let derSig ← okOr (.certChain "Invalid cert DER signature") (lib.derSignature subject.signature)
  require (lib.verify verifyingKey tbsDer derSig) (.certChain "Cert signature verification failed")

/-- What the enclave's key signs. -/
def sigStructure (parts : CoseSign1Parts) : Cbor :=
  .array [.text "Signature1", .bytes parts.protectedHeader, .bytes [], .bytes parts.payloadBytes]

def verifyCoseSignature (leafCert : Certificate) (parts : CoseSign1Parts) :
    Except AttestationError Unit := do
  let verifyingKey ← okOr (.certChain "Invalid leaf P-384 key")
    (lib.fromSec1Bytes leafCert.subjectPublicKeyInfo.subjectPublicKey)
  let sigStructureBytes ← okOr (.certChain "Failed to encode Sig_structure")
    (lib.intoWriter (sigStructure parts))
  let count := parts.signatureBytes.length
  require (count == 96)
    (.certChain s!"Expected 96-byte P-384 COSE signature, got {count} bytes")
  let signature ← okOr (.certChain "Invalid COSE signature") (lib.rawSignature parts.signatureBytes)
  require (lib.verify verifyingKey sigStructureBytes signature)
    (.certChain "COSE signature verification failed")

def parseCert (entry : List UInt8 × ℕ) : Except AttestationError Certificate :=
  let i := entry.2
  okOr (.certChain s!"Failed to parse cert[{i}]") (lib.fromDer entry.1)

def verifyCertChain (cabundle : List (List UInt8)) (parts : CoseSign1Parts) :
    Except AttestationError Unit := do
  require (!cabundle.isEmpty) (.certChain "Empty certificate bundle")
  let certs ← cabundle.zipIdx.mapM (parseCert lib)
  match certs.head?, certs.getLast? with
  | some root, some leaf =>
    verifyRootCert lib root
    -- Each certificate is checked with the key of the one before it.
    (certs.zip certs.tail).forM fun link => verifyCertSignature lib link.1 link.2
    verifyCoseSignature lib leaf parts
  | _, _ => .error (.certChain "No leaf certificate")

/-- The test for a document of the development mode. -/
def isMock (attestation : VerifiedAttestation) : Bool := attestation.pcr0.all (· == '0')

def verifyAttestation (base64Doc : String) : Except AttestationError VerifiedAttestation := do
  let parts ← decodeDocument lib base64Doc
  let attestation ← parseFieldsFromMap parts.payloadMap
  if isMock attestation then pure attestation
  else
    let cabundle ← extractCabundle parts.payloadMap
    verifyCertChain lib cabundle parts
    pure { attestation with certChainVerified := true }

end Verification

def validatePcr0 (attestation : VerifiedAttestation) (expectedPcr0 : List Char) :
    Except AttestationError Unit :=
  let expected := stripHexPrefix expectedPcr0
  require (attestation.pcr0 == expected) (.pcrMismatch expected attestation.pcr0)

/-- `nowMs` is `none` for a clock before the epoch. -/
def validateFreshness (attestation : VerifiedAttestation) (nowMs : Option ℕ) (maxAgeSecs : ℕ) :
    Except AttestationError Unit := do
  let now ← okOr .expired nowMs
  require (decide ((now - attestation.timestamp) / 1000 ≤ maxAgeSecs)) .expired

def validateNonce (attestation : VerifiedAttestation) (expectedNonceHex : List Char) :
    Except AttestationError Unit :=
  let expected := stripHexPrefix expectedNonceHex
  require (attestation.nonce == some expected) (.nonceMismatch expected attestation.nonce)

/-! ## What an accepted document is -/

section Specification

variable (lib : Libraries)

/-- The issuer's key verifies the signature of a certificate. -/
def SignedBy (issuer subject : Certificate) : Prop :=
  ∃ key tbsDer sig, lib.fromSec1Bytes issuer.subjectPublicKeyInfo.subjectPublicKey = some key ∧
    subject.tbsDer = some tbsDer ∧ lib.derSignature subject.signature = some sig ∧
    lib.verify key tbsDer sig = true

/-- The key of the certificate verifies the signature of the document. -/
def CoseSignedBy (leaf : Certificate) (parts : CoseSign1Parts) : Prop :=
  ∃ key message sig, lib.fromSec1Bytes leaf.subjectPublicKeyInfo.subjectPublicKey = some key ∧
    lib.intoWriter (sigStructure parts) = some message ∧ parts.signatureBytes.length = 96 ∧
    lib.rawSignature parts.signatureBytes = some sig ∧ lib.verify key message sig = true

/-- A certificate with the public key of the embedded one. -/
def HasRootKey (cert : Certificate) : Prop :=
  ∃ der root, lib.base64Decode rootCaBody = some der ∧ lib.fromDer der = some root ∧
    cert.subjectPublicKeyInfo = root.subjectPublicKeyInfo

/-- The certificates of a document lead from the embedded root key to a leaf whose key signed the
document. -/
structure Genuine (parts : CoseSign1Parts) (cabundle : List (List UInt8))
    (certs : List Certificate) (root leaf : Certificate) : Prop where
  bundled : extractCabundle parts.payloadMap = .ok cabundle
  parsed : List.Forall₂ (fun der cert => lib.fromDer der = some cert) cabundle certs
  first : certs.head? = some root
  rootKey : HasRootKey lib root
  links : ∀ link ∈ certs.zip certs.tail, SignedBy lib link.1 link.2
  last : certs.getLast? = some leaf
  signed : CoseSignedBy lib leaf parts

/-- The certificate chain of a document was verified up to the root key, and its signature with the
leaf key. -/
def ChainVerified (parts : CoseSign1Parts) : Prop :=
  ∃ cabundle certs root leaf, Genuine lib parts cabundle certs root leaf

variable {lib} {parts : CoseSign1Parts}

theorem hasRootKey_of_verifyRootCert {cert : Certificate} {u : Unit}
    (h : verifyRootCert lib cert = .ok u) : HasRootKey lib cert := by
  simp only [verifyRootCert, bind_eq_ok, okOr_eq_ok, require_eq_ok, beq_iff_eq] at h
  obtain ⟨der, hder, root, hroot, hkey⟩ := h
  exact ⟨der, root, hder, hroot, hkey⟩

theorem signedBy_of_verifyCertSignature {issuer subject : Certificate} {u : Unit}
    (h : verifyCertSignature lib issuer subject = .ok u) : SignedBy lib issuer subject := by
  simp only [verifyCertSignature, bind_eq_ok, okOr_eq_ok, require_eq_ok] at h
  obtain ⟨key, hkey, tbsDer, htbs, sig, hsig, hverify⟩ := h
  exact ⟨key, tbsDer, sig, hkey, htbs, hsig, hverify⟩

theorem coseSignedBy_of_verifyCoseSignature {leaf : Certificate} {u : Unit}
    (h : verifyCoseSignature lib leaf parts = .ok u) : CoseSignedBy lib leaf parts := by
  simp only [verifyCoseSignature, bind_eq_ok, okOr_eq_ok, require_eq_ok, beq_iff_eq] at h
  obtain ⟨key, hkey, message, hmessage, _, hlength, sig, hsig, hverify⟩ := h
  exact ⟨key, message, sig, hkey, hmessage, hlength, hsig, hverify⟩

theorem forall₂_of_parseCerts {cabundle : List (List UInt8)} {certs : List Certificate} {start : ℕ}
    (h : (cabundle.zipIdx start).mapM (parseCert lib) = .ok certs) :
    List.Forall₂ (fun der cert => lib.fromDer der = some cert) cabundle certs := by
  induction cabundle generalizing start certs with
  | nil =>
    obtain rfl := pure_eq_ok.mp h
    exact .nil
  | cons der cabundle ih =>
    simp only [List.zipIdx_cons, List.mapM_cons, bind_eq_ok, pure_eq_ok] at h
    obtain ⟨cert, hcert, certs, hcerts, rfl⟩ := h
    exact .cons (okOr_eq_ok.mp hcert) (ih hcerts)

theorem chainVerified_of_verifyCertChain {cabundle : List (List UInt8)} {u : Unit}
    (hcabundle : extractCabundle parts.payloadMap = .ok cabundle)
    (h : verifyCertChain lib cabundle parts = .ok u) : ChainVerified lib parts := by
  simp only [verifyCertChain, bind_eq_ok] at h
  obtain ⟨_, -, certs, hcerts, h⟩ := h
  split at h
  case h_1 root leaf hroot hleaf =>
    simp only [bind_eq_ok] at h
    obtain ⟨_, hrootCert, _, hlinks, hsignature⟩ := h
    exact ⟨cabundle, certs, root, leaf,
      { bundled := hcabundle
        parsed := forall₂_of_parseCerts hcerts
        first := hroot
        rootKey := hasRootKey_of_verifyRootCert hrootCert
        links := fun link hlink =>
          signedBy_of_verifyCertSignature (forM_eq_ok.mp hlinks link hlink)
        last := hleaf
        signed := coseSignedBy_of_verifyCoseSignature hsignature }⟩
  case h_2 => cases h

/-- What `verify_attestation` returns: the fields of the document, and either the PCR0 is all zeros
or the chain was verified. -/
theorem verifyAttestation_eq_ok {base64Doc : String} {attestation : VerifiedAttestation}
    (h : verifyAttestation lib base64Doc = .ok attestation) :
    ∃ parts fields, decodeDocument lib base64Doc = .ok parts ∧
      parseFieldsFromMap parts.payloadMap = .ok fields ∧
      (attestation = fields ∧ isMock fields = true ∨
        attestation = { fields with certChainVerified := true } ∧ ChainVerified lib parts) := by
  simp only [verifyAttestation, bind_eq_ok] at h
  obtain ⟨parts, hparts, fields, hfields, h⟩ := h
  refine ⟨parts, fields, hparts, hfields, ?_⟩
  split at h
  case isTrue hmock => exact .inl ⟨(pure_eq_ok.mp h).symm, hmock⟩
  case isFalse =>
    simp only [bind_eq_ok, pure_eq_ok] at h
    obtain ⟨cabundle, hcabundle, _, hchain, rfl⟩ := h
    exact .inr ⟨rfl, chainVerified_of_verifyCertChain hcabundle hchain⟩

theorem enclaveAddress_eq {payloadMap : PayloadMap} {fields : VerifiedAttestation}
    (h : parseFieldsFromMap payloadMap = .ok fields) :
    ∃ publicKey, getBytes payloadMap "public_key" = .ok publicKey ∧
      fields.enclaveAddress = '0' :: 'x' :: hexEncode publicKey := by
  simp only [parseFieldsFromMap, bind_eq_ok, pure_eq_ok] at h
  obtain ⟨_, -, _, -, publicKey, hkey, _, -, rfl⟩ := h
  exact ⟨publicKey, hkey, rfl⟩

end Specification

end WorldZk.NitroAttestation
