import WorldZk.OwnedContracts
import WorldZk.TeeVerifier

/-!
# The program registry

`ProgramRegistry`: who registered a program, which verifier its proofs go to, and the marks that
the admin sets on it. The contract calls no other one. The state also keeps the calls that
succeeded, the latest first, each with the storage that it found.
-/

namespace WorldZk.ProgramRegistry

open CheckedRuns OwnedContracts

/-! ## Storage -/

structure Program where
  imageId : ℕ
  owner : ℕ
  name : List UInt8
  programUrl : List UInt8
  inputSchema : ℕ
  registeredAt : ℕ
  active : Bool
  verified : Bool
  verifierContract : ℕ
  proofSystem : List UInt8
deriving DecidableEq, Repr

/-- What the slot of a program reads before it is written. -/
def Program.empty : Program := ⟨0, 0, [], [], 0, 0, false, false, 0, []⟩

structure ProgramStorage where
  admin : Administration
  programs : ℕ → Program
  programIds : List ℕ
  ownerPrograms : ℕ → List ℕ

def MAX_NAME_LENGTH : ℕ := 64

def MAX_URL_LENGTH : ℕ := 512

inductive ProgramError
  | unauthorizedAccount
  | enforcedPause
  | expectedPause
  | programAlreadyRegistered
  | programNotFound
  | notProgramOwner
  | invalidImageId
  | programAlreadyVerified
  | programNotVerified
  | programAlreadyActive
  | programAlreadyInactive
  | invalidVerifierContract
  | stringTooLong (field : String) (maxLength : ℕ)
deriving DecidableEq, Repr

def ofAdminError : AdminError → ProgramError
  | .ownableUnauthorizedAccount => .unauthorizedAccount
  | .enforcedPause => .enforcedPause
  | .expectedPause => .expectedPause

abbrev ProgramCall (α : Type) : Type := Except ProgramError α

def ofAdmin {α : Type} (x : Except AdminError α) : ProgramCall α := x.mapError ofAdminError

/-! ## The functions -/

inductive ProgramOperation
  | registerProgram (imageId : ℕ) (name programUrl : List UInt8) (inputSchema : ℕ)
  | registerProgramWithVerifier (imageId : ℕ) (name programUrl : List UInt8)
      (inputSchema verifierContract : ℕ) (proofSystem : List UInt8)
  | updateProgramUrl (imageId : ℕ) (newUrl : List UInt8)
  | deactivateProgram (imageId : ℕ)
  | reactivateProgram (imageId : ℕ)
  | updateVerifier (imageId verifierContract : ℕ)
  | verifyProgram (imageId : ℕ)
  | unverifyProgram (imageId : ℕ)
  | adminForceUpdateUrl (imageId : ℕ) (newUrl : List UInt8)
  | administer (operation : AdminOperation)
deriving DecidableEq, Repr

def setProgram (c : ProgramStorage) (imageId : ℕ) (program : Program) : ProgramStorage :=
  { c with programs := Function.update c.programs imageId program }

def checkLength (field : String) (text : List UInt8) (maxLength : ℕ) : ProgramCall Unit :=
  require (decide (text.length ≤ maxLength)) (.stringTooLong field maxLength)

/-- `_registerProgram`. -/
def registerProgramEntry (c : ProgramStorage) (ctx : CallContext) (imageId : ℕ)
    (name programUrl : List UInt8) (inputSchema verifierContract : ℕ) (proofSystem : List UInt8) :
    ProgramCall ProgramStorage := do
  require (imageId != 0) .invalidImageId
  checkLength "name" name MAX_NAME_LENGTH
  checkLength "url" programUrl MAX_URL_LENGTH
  require ((c.programs imageId).registeredAt == 0) .programAlreadyRegistered
  pure { setProgram c imageId
    { imageId := imageId
      owner := ctx.sender
      name := name
      programUrl := programUrl
      inputSchema := inputSchema
      registeredAt := ctx.timestamp
      active := true
      verified := false
      verifierContract := verifierContract
      proofSystem := proofSystem } with
    programIds := c.programIds ++ [imageId]
    ownerPrograms :=
      Function.update c.ownerPrograms ctx.sender (c.ownerPrograms ctx.sender ++ [imageId]) }

def registerProgram (c : ProgramStorage) (ctx : CallContext) (imageId : ℕ)
    (name programUrl : List UInt8) (inputSchema : ℕ) : ProgramCall ProgramStorage := do
  ofAdmin (whenNotPaused c.admin)
  registerProgramEntry c ctx imageId name programUrl inputSchema 0 (TeeVerifier.utf8 "risc0")

def registerProgramWithVerifier (c : ProgramStorage) (ctx : CallContext) (imageId : ℕ)
    (name programUrl : List UInt8) (inputSchema verifierContract : ℕ) (proofSystem : List UInt8) :
    ProgramCall ProgramStorage := do
  ofAdmin (whenNotPaused c.admin)
  registerProgramEntry c ctx imageId name programUrl inputSchema verifierContract proofSystem

/-- `if (program.registeredAt == 0) revert ProgramNotFound()`. -/
def checkRegistered (c : ProgramStorage) (imageId : ℕ) : ProgramCall Unit :=
  require ((c.programs imageId).registeredAt != 0) .programNotFound

def checkProgramOwner (c : ProgramStorage) (ctx : CallContext) (imageId : ℕ) : ProgramCall Unit :=
  require ((c.programs imageId).owner == ctx.sender) .notProgramOwner

def updateProgramUrl (c : ProgramStorage) (ctx : CallContext) (imageId : ℕ)
    (newUrl : List UInt8) : ProgramCall ProgramStorage := do
  ofAdmin (whenNotPaused c.admin)
  checkLength "url" newUrl MAX_URL_LENGTH
  checkRegistered c imageId
  checkProgramOwner c ctx imageId
  pure (setProgram c imageId { c.programs imageId with programUrl := newUrl })

def deactivateProgram (c : ProgramStorage) (ctx : CallContext) (imageId : ℕ) :
    ProgramCall ProgramStorage := do
  ofAdmin (onlyOwner c.admin ctx.sender)
  checkRegistered c imageId
  require (c.programs imageId).active .programAlreadyInactive
  pure (setProgram c imageId { c.programs imageId with active := false })

def reactivateProgram (c : ProgramStorage) (ctx : CallContext) (imageId : ℕ) :
    ProgramCall ProgramStorage := do
  ofAdmin (onlyOwner c.admin ctx.sender)
  checkRegistered c imageId
  require (!(c.programs imageId).active) .programAlreadyActive
  pure (setProgram c imageId { c.programs imageId with active := true })

/-- The new verifier must be a deployed contract. -/
def updateVerifier (hasCode : ℕ → Bool) (c : ProgramStorage) (ctx : CallContext)
    (imageId verifierContract : ℕ) : ProgramCall ProgramStorage := do
  ofAdmin (whenNotPaused c.admin)
  checkRegistered c imageId
  checkProgramOwner c ctx imageId
  require (verifierContract != 0) .invalidVerifierContract
  require (hasCode verifierContract) .invalidVerifierContract
  pure (setProgram c imageId { c.programs imageId with verifierContract := verifierContract })

def verifyProgram (c : ProgramStorage) (ctx : CallContext) (imageId : ℕ) :
    ProgramCall ProgramStorage := do
  ofAdmin (onlyOwner c.admin ctx.sender)
  checkRegistered c imageId
  require (!(c.programs imageId).verified) .programAlreadyVerified
  pure (setProgram c imageId { c.programs imageId with verified := true })

def unverifyProgram (c : ProgramStorage) (ctx : CallContext) (imageId : ℕ) :
    ProgramCall ProgramStorage := do
  ofAdmin (onlyOwner c.admin ctx.sender)
  checkRegistered c imageId
  require (c.programs imageId).verified .programNotVerified
  pure (setProgram c imageId { c.programs imageId with verified := false })

def adminForceUpdateUrl (c : ProgramStorage) (ctx : CallContext) (imageId : ℕ)
    (newUrl : List UInt8) : ProgramCall ProgramStorage := do
  ofAdmin (onlyOwner c.admin ctx.sender)
  checkLength "url" newUrl MAX_URL_LENGTH
  checkRegistered c imageId
  pure (setProgram c imageId { c.programs imageId with programUrl := newUrl })

def administerPrograms (c : ProgramStorage) (ctx : CallContext) (operation : AdminOperation) :
    ProgramCall ProgramStorage := do
  let admin ← ofAdmin (administer c.admin ctx.sender operation)
  pure { c with admin := admin }

/-- One call. None of the functions is payable; `hasCode` tells the deployed contracts. -/
def programCall (hasCode : ℕ → Bool) (c : ProgramStorage) (ctx : CallContext) :
    ProgramOperation → ProgramCall ProgramStorage
  | .registerProgram imageId name programUrl inputSchema =>
    registerProgram c ctx imageId name programUrl inputSchema
  | .registerProgramWithVerifier imageId name programUrl inputSchema verifierContract
      proofSystem =>
    registerProgramWithVerifier c ctx imageId name programUrl inputSchema verifierContract
      proofSystem
  | .updateProgramUrl imageId newUrl => updateProgramUrl c ctx imageId newUrl
  | .deactivateProgram imageId => deactivateProgram c ctx imageId
  | .reactivateProgram imageId => reactivateProgram c ctx imageId
  | .updateVerifier imageId verifierContract =>
    updateVerifier hasCode c ctx imageId verifierContract
  | .verifyProgram imageId => verifyProgram c ctx imageId
  | .unverifyProgram imageId => unverifyProgram c ctx imageId
  | .adminForceUpdateUrl imageId newUrl => adminForceUpdateUrl c ctx imageId newUrl
  | .administer operation => administerPrograms c ctx operation

/-! ## Views -/

def isProgramActive (c : ProgramStorage) (imageId : ℕ) : Bool :=
  (c.programs imageId).registeredAt != 0 && (c.programs imageId).active

def isProgramVerified (c : ProgramStorage) (imageId : ℕ) : Bool :=
  (c.programs imageId).registeredAt != 0 && (c.programs imageId).verified

def getProgram (c : ProgramStorage) (imageId : ℕ) : ProgramCall Program := do
  checkRegistered c imageId
  pure (c.programs imageId)

/-! ## Calls with their history -/

structure ProgramRecord where
  sender : ℕ
  operation : ProgramOperation
  before : ProgramStorage

structure ProgramState where
  storage : ProgramStorage
  records : List ProgramRecord

def recordedCall (hasCode : ℕ → Bool) (s : ProgramState) (ctx : CallContext)
    (operation : ProgramOperation) : ProgramCall ProgramState := do
  let storage ← programCall hasCode s.storage ctx operation
  pure ⟨storage, ⟨ctx.sender, operation, s.storage⟩ :: s.records⟩

/-- The constructor. -/
def construct (admin : ℕ) : ProgramState where
  storage :=
    { admin := ⟨admin, 0, false⟩
      programs := fun _ => Program.empty
      programIds := []
      ownerPrograms := fun _ => [] }
  records := []

/-! ## What one call does to a program -/

/-- The verifier that the call sets for a program. -/
def updatedVerifier (imageId : ℕ) : ProgramOperation → Option ℕ
  | .updateVerifier i verifierContract => if i = imageId then some verifierContract else none
  | _ => none

/-- The effect of one call on one program: it registers the program, marks it, sets its verifier
for its owner, or leaves the owner and the verifier and sets no mark. -/
inductive Effect (c : ProgramStorage) (sender imageId : ℕ) : ProgramOperation → Program → Prop
  | registered {operation : ProgramOperation} {program : Program}
      (fresh : (c.programs imageId).registeredAt = 0) (unverified : program.verified = false) :
      Effect c sender imageId operation program
  | verified (admin : sender = c.admin.owner)
      (registered : (c.programs imageId).registeredAt ≠ 0) :
      Effect c sender imageId (.verifyProgram imageId)
        { c.programs imageId with verified := true }
  | updated (verifierContract : ℕ) (owner : sender = (c.programs imageId).owner) :
      Effect c sender imageId (.updateVerifier imageId verifierContract)
        { c.programs imageId with verifierContract := verifierContract }
  | kept {operation : ProgramOperation} {program : Program}
      (other : operation ≠ .verifyProgram imageId)
      (noUpdate : updatedVerifier imageId operation = none)
      (registeredAt : program.registeredAt = (c.programs imageId).registeredAt)
      (owner : program.owner = (c.programs imageId).owner)
      (verifierContract : program.verifierContract = (c.programs imageId).verifierContract)
      (verified : program.verified = true → (c.programs imageId).verified = true) :
      Effect c sender imageId operation program

section Effect

variable {hasCode : ℕ → Bool} {c d : ProgramStorage} {ctx : CallContext} {imageId i : ℕ}
  {operation : ProgramOperation} {program : Program}

@[simp] theorem setProgram_programs :
    (setProgram c i program).programs imageId =
      if imageId = i then program else c.programs imageId :=
  Function.update_apply c.programs i program imageId

@[simp] theorem ofAdmin_eq_ok {α : Type} {x : Except AdminError α} {a : α} :
    ofAdmin x = .ok a ↔ x = .ok a := mapError_eq_ok

/-- A call that changes nothing of a program but its address and its activity. -/
private theorem Effect.of_fields {c : ProgramStorage} {sender i imageId : ℕ}
    {operation : ProgramOperation} {program : Program}
    (other : operation ≠ .verifyProgram imageId)
    (noUpdate : updatedVerifier imageId operation = none)
    (registeredAt : program.registeredAt = (c.programs i).registeredAt)
    (owner : program.owner = (c.programs i).owner)
    (verifierContract : program.verifierContract = (c.programs i).verifierContract)
    (verified : program.verified = true → (c.programs i).verified = true) :
    Effect c sender imageId operation ((setProgram c i program).programs imageId) := by
  rw [setProgram_programs]
  split
  case isTrue h =>
    subst h
    exact .kept other noUpdate registeredAt owner verifierContract verified
  case isFalse => exact .kept other noUpdate rfl rfl rfl id

private theorem registerProgramEntry_effect {name programUrl : List UInt8}
    {inputSchema verifierContract : ℕ} {proofSystem : List UInt8}
    (other : operation ≠ .verifyProgram imageId)
    (noUpdate : updatedVerifier imageId operation = none)
    (h : registerProgramEntry c ctx i name programUrl inputSchema verifierContract proofSystem =
      .ok d) : Effect c ctx.sender imageId operation (d.programs imageId) := by
  simp only [registerProgramEntry, bind_eq_ok, require_eq_ok, beq_iff_eq, pure_eq_ok] at h
  obtain ⟨_, -, _, -, _, -, _, hfresh, rfl⟩ := h
  simp only [setProgram_programs]
  split
  case isTrue hi =>
    subst hi
    exact .registered hfresh rfl
  case isFalse => exact .kept other noUpdate rfl rfl rfl id

/-- What a call that succeeds does to any one program. -/
theorem programCall_effect (imageId : ℕ) (h : programCall hasCode c ctx operation = .ok d) :
    Effect c ctx.sender imageId operation (d.programs imageId) := by
  cases operation with
  | registerProgram i name programUrl inputSchema =>
    simp only [programCall, registerProgram, bind_eq_ok] at h
    obtain ⟨_, -, h⟩ := h
    exact registerProgramEntry_effect (by simp) rfl h
  | registerProgramWithVerifier i name programUrl inputSchema verifierContract proofSystem =>
    simp only [programCall, registerProgramWithVerifier, bind_eq_ok] at h
    obtain ⟨_, -, h⟩ := h
    exact registerProgramEntry_effect (by simp) rfl h
  | updateProgramUrl i newUrl =>
    simp only [programCall, updateProgramUrl, bind_eq_ok, pure_eq_ok] at h
    obtain ⟨_, -, _, -, _, -, _, -, rfl⟩ := h
    exact .of_fields (by simp) rfl rfl rfl rfl id
  | deactivateProgram i =>
    simp only [programCall, deactivateProgram, bind_eq_ok, pure_eq_ok] at h
    obtain ⟨_, -, _, -, _, -, rfl⟩ := h
    exact .of_fields (by simp) rfl rfl rfl rfl id
  | reactivateProgram i =>
    simp only [programCall, reactivateProgram, bind_eq_ok, pure_eq_ok] at h
    obtain ⟨_, -, _, -, _, -, rfl⟩ := h
    exact .of_fields (by simp) rfl rfl rfl rfl id
  | updateVerifier i verifierContract =>
    simp only [programCall, updateVerifier, checkProgramOwner, bind_eq_ok, require_eq_ok,
      beq_iff_eq, pure_eq_ok] at h
    obtain ⟨_, -, _, -, _, howner, _, -, _, -, rfl⟩ := h
    rw [setProgram_programs]
    split
    case isTrue hi =>
      subst hi
      exact .updated verifierContract howner.symm
    case isFalse hi =>
      exact .kept (by simp) (if_neg (Ne.symm hi)) rfl rfl rfl id
  | verifyProgram i =>
    simp only [programCall, verifyProgram, checkRegistered, bind_eq_ok, ofAdmin_eq_ok,
      onlyOwner_eq_ok, require_eq_ok, bne_iff_ne, pure_eq_ok] at h
    obtain ⟨_, hadmin, _, hregistered, _, -, rfl⟩ := h
    rw [setProgram_programs]
    split
    case isTrue hi =>
      subst hi
      exact .verified hadmin hregistered
    case isFalse hi =>
      exact .kept (fun heq => hi (ProgramOperation.verifyProgram.inj heq).symm) rfl rfl rfl rfl id
  | unverifyProgram i =>
    simp only [programCall, unverifyProgram, bind_eq_ok, pure_eq_ok] at h
    obtain ⟨_, -, _, -, _, -, rfl⟩ := h
    exact .of_fields (by simp) rfl rfl rfl rfl fun hverified => (by cases hverified)
  | adminForceUpdateUrl i newUrl =>
    simp only [programCall, adminForceUpdateUrl, bind_eq_ok, pure_eq_ok] at h
    obtain ⟨_, -, _, -, _, -, rfl⟩ := h
    exact .of_fields (by simp) rfl rfl rfl rfl id
  | administer operation =>
    simp only [programCall, administerPrograms, bind_eq_ok, pure_eq_ok] at h
    obtain ⟨_, -, rfl⟩ := h
    exact .kept (by simp) rfl rfl rfl rfl id

end Effect

end WorldZk.ProgramRegistry
