import WorldZk.TeeDisputes

/-!
# What a winning proof is bound to

Whether one proof tuple can win the disputes of two results of a `TEEMLVerifier` with different
hashes. A tuple that the verifier confirms can: the hashes of the disputed result are in no call,
so the run that submits, challenges and resolves two results replays it.
-/

namespace WorldZk.TeeProofBinding

open CheckedRuns FieldArithmetic Keccak256 SolidityVerifier TeeVerifier TeeDisputes

variable {recover : ℕ → List UInt8 → Option ℕ} {c c' : TeeContract} {tx : Transaction}

/-! ## Wins and confirmed tuples -/

/-- The hashes of the result that a dispute is about. -/
def hashes (r : PackedMLResult) : ℕ × ℕ × ℕ := (r.modelHash, r.inputHash, r.resultHash)

/-- A dispute settled in the prover's favour: the proof, and the hashes of the result. -/
structure Win where
  tuple : ProofTuple
  hashes : ℕ × ℕ × ℕ
deriving DecidableEq, Repr

def winOf (recover : ℕ → List UInt8 → Option ℕ) (c : TeeContract) (tx : Transaction) :
    Option Win :=
  match resolution c tx.operation, execute recover c tx with
  | some (resultId, call), .ok c' =>
    if c'.disputeProverWon resultId then some ⟨call.tuple, hashes (c.results resultId)⟩ else none
  | _, _ => none

/-- The disputes that a run settles in the prover's favour. -/
def wins (recover : ℕ → List UInt8 → Option ℕ) : TeeContract → List Transaction → List Win
  | _, [] => []
  | c, tx :: txs => (winOf recover c tx).toList ++ wins recover (step recover c tx) txs

/-- In no run against the given verifier behaviours does the tuple win the disputes of two results
with different hashes. -/
def ProofBound (recover : ℕ → List UInt8 → Option ℕ) (c : TeeContract)
    (behaviours : Set Verifiers) (tuple : ProofTuple) : Prop :=
  ∀ txs : List Transaction, (∀ tx ∈ txs, tx.verifiers ∈ behaviours) →
    ∀ w ∈ wins recover c txs, ∀ w' ∈ wins recover c txs,
      w.tuple = tuple → w'.tuple = tuple → w.hashes = w'.hashes

/-- A verifier may answer true to a call with the tuple. -/
def Confirmed (behaviours : Set Verifiers) (tuple : ProofTuple) : Prop :=
  ∃ verifiers ∈ behaviours, ∃ address ≠ 0, ∃ call : VerifierCall, call.tuple = tuple ∧
    proofValid (verifiers address call) = .ok true

theorem winOf_eq_some {w : Win} (h : winOf recover c tx = some w) :
    ∃ address ≠ 0, ∃ call : VerifierCall, call.tuple = w.tuple ∧
      proofValid (tx.verifiers address call) = .ok true := by
  unfold winOf at h
  split at h
  · next resultId call c' hresolution hexecute =>
    split at h
    · next hwon =>
      obtain rfl := Option.some.inj h
      obtain ⟨hverifier, valid, hvalid, -, -, hw⟩ :=
        dispatch_resolution (execute_eq_ok.mp hexecute).2 hresolution
      rw [hw, Function.update_self] at hwon
      subst hwon
      exact ⟨c.remainderVerifier, hverifier, call, rfl, hvalid⟩
    · cases h
  · cases h

theorem wins_confirmed {behaviours : Set Verifiers} {txs : List Transaction} {w : Win}
    (hallowed : ∀ tx ∈ txs, tx.verifiers ∈ behaviours) (hw : w ∈ wins recover c txs) :
    Confirmed behaviours w.tuple := by
  induction txs generalizing c with
  | nil => cases hw
  | cons tx txs ih =>
    rcases List.mem_append.mp hw with hhead | htail
    · obtain ⟨address, hne, call, hcall, hvalid⟩ := winOf_eq_some (Option.mem_toList.mp hhead)
      exact ⟨tx.verifiers, hallowed tx (List.mem_cons_self ..), address, hne, call, hcall, hvalid⟩
    · exact ih (fun tx' htx' => hallowed tx' (List.mem_cons_of_mem _ htx')) htail

/-! ## A confirmed call wins an open dispute -/

/-- The operation that makes the given verifier call in the dispute of a result. -/
def resolutionOf (resultId : ℕ) : VerifierCall → Operation
  | .verifyDAGProof tuple => .resolveDispute resultId tuple
  | .verifyDAGProofStylus tuple => .resolveDispute resultId tuple
  | .verifyDAGProofStylusGroth16 tuple ecGroth16Proof =>
    .resolveDisputeHybrid resultId tuple ecGroth16Proof
  | .verifyDAGProofStylusGroth16Chunked tuple ecGroth16Proofs totalChunks opsDigest =>
    .resolveDisputeHybridChunked resultId tuple ecGroth16Proofs totalChunks opsDigest

def isStylusCall : VerifierCall → Bool
  | .verifyDAGProofStylus _ => true
  | _ => false

/-- The contract makes the given call on the given verifier. -/
structure Configured (c : TeeContract) (address : ℕ) (call : VerifierCall) : Prop where
  unpaused : c.paused = false
  verifier : c.remainderVerifier = address
  stylus : c.useStylusVerifier = isStylusCall call
  hybrid : c.useStylusGroth16 = true

variable {call : VerifierCall} {verifiers : Verifiers} {msg : Message}
  {address chainId key modelHash resultId pot : ℕ} {attestation : ℕ → List UInt8}

theorem resolution_resolutionOf (hstylus : c.useStylusVerifier = isStylusCall call) :
    resolution c (resolutionOf resultId call) = some (resultId, call) := by
  cases call <;> simp_all [resolution, resolutionOf, isStylusCall]

/-- The state after a dispute is won. -/
def afterWin (c : TeeContract) (resultId pot : ℕ) : TeeContract :=
  { setResult c resultId { c.results resultId with finalized := true } with
    disputeResolved := Function.update c.disputeResolved resultId true
    disputeProverWon := Function.update c.disputeProverWon resultId true
    balance := c.balance - pot }

theorem resolveWith_valid (hverifier : c.remainderVerifier ≠ 0)
    (hchallenged : (c.results resultId).challenged = true)
    (hopen : c.disputeResolved resultId = false)
    (hvalid : proofValid (verifiers c.remainderVerifier call) = .ok true)
    (hpot : addChecked (c.results resultId).challengeBond
      (c.results resultId).proverStakeAmount = .ok pot) (hbalance : pot ≤ c.balance) :
    resolveWith c verifiers (fun _ _ => true) resultId call = .ok (afterWin c resultId pot) := by
  have hsettle : settleDispute c (fun _ _ => true) resultId true =
      .ok (afterWin c resultId pot) := by
    simp only [settleDispute, bind_eq_ok, pay_eq_ok]
    exact ⟨pot, hpot, ⟨hbalance, trivial⟩, rfl⟩
  simp only [resolveWith, bind_eq_ok, checkDisputed_eq_ok, require_eq_ok, bne_iff_ne]
  exact ⟨(), ⟨hchallenged, hopen⟩, (), hverifier, true, hvalid, hsettle⟩

theorem execute_resolutionOf (hconfig : Configured c address call) (haddress : address ≠ 0)
    (hchallenged : (c.results resultId).challenged = true)
    (hopen : c.disputeResolved resultId = false)
    (hvalid : proofValid (verifiers address call) = .ok true)
    (hpot : addChecked (c.results resultId).challengeBond
      (c.results resultId).proverStakeAmount = .ok pot) (hbalance : pot ≤ c.balance)
    (hvalue : msg.value = 0) :
    execute recover c ⟨msg, resolutionOf resultId call, verifiers, fun _ _ => true⟩ =
      .ok (afterWin c resultId pot) := by
  obtain ⟨hpaused, rfl, hstylus, hhybrid⟩ := hconfig
  have hresolve := resolveWith_valid haddress hchallenged hopen hvalid hpot hbalance
  have hcredit : credit c msg.value = c := by
    rw [hvalue]
    rfl
  rw [execute_eq_ok, hcredit]
  refine ⟨by simp [hvalue], ?_⟩
  cases call <;> simpa [dispatch, resolutionOf, resolveDispute, resolveDisputeHybrid,
    resolveDisputeHybridChunked, whenNotPaused, hpaused, hhybrid, hstylus, isStylusCall] using
    hresolve

theorem winOf_resolutionOf (hconfig : Configured c address call)
    (hexecute : execute recover c ⟨msg, resolutionOf resultId call, verifiers, fun _ _ => true⟩ =
      .ok (afterWin c resultId pot)) :
    winOf recover c ⟨msg, resolutionOf resultId call, verifiers, fun _ _ => true⟩ =
      some ⟨call.tuple, hashes (c.results resultId)⟩ := by
  have hwon : (afterWin c resultId pot).disputeProverWon resultId = true :=
    Function.update_self ..
  simp only [winOf, resolution_resolutionOf hconfig.stylus, hexecute, hwon, if_true]

/-! ## Two results, submitted and challenged -/

/-- The identifier of the result that `12` submits for a model in block `1`. -/
def resultIdOf (modelHash : ℕ) : ℕ := generateResultId 12 modelHash 0 1

theorem resultIdOf_one_ne_two : resultIdOf 1 ≠ resultIdOf 2 := by
  simp only [resultIdOf, generateResultId, keccak256_eq_keccakLanes]
  decide +kernel

/-- The contract takes the results that the given enclave attests. -/
structure TakesResults (recover : ℕ → List UInt8 → Option ℕ) (c : TeeContract) (chainId key : ℕ)
    (attestation : ℕ → List UInt8) : Prop where
  unpaused : c.paused = false
  stake : c.proverStake ≤ ETHER
  bond : c.challengeBondAmount ≤ ETHER
  registered : (c.enclaves key).registered = true
  active : (c.enclaves key).active = true
  challengeable : 200 < uint40 (100 + c.challengeWindow)
  challengeWindow : 100 + c.challengeWindow < WORD
  disputeWindow : 200 + c.disputeWindow < WORD
  attested : ∀ modelHash ∈ [1, 2],
    recover (attestationDigest c chainId modelHash 0 (keccak256 [])) (attestation modelHash) =
      some key

def submission (verifiers : Verifiers) (chainId : ℕ) (attestation : ℕ → List UInt8)
    (modelHash : ℕ) : Transaction :=
  ⟨⟨12, ETHER, 100, 1, chainId⟩, .submitResult modelHash 0 [] (attestation modelHash), verifiers,
    fun _ _ => true⟩

def submittedResult (challengeWindow key modelHash : ℕ) : PackedMLResult :=
  ⟨key, uint40 100, uint40 (100 + challengeWindow), false, false, 12, 0, 0, modelHash, 0,
    keccak256 [], [], 0, ETHER⟩

def disputing (verifiers : Verifiers) (chainId : ℕ) (modelHash : ℕ) : Transaction :=
  ⟨⟨13, ETHER, 200, 1, chainId⟩, .challenge (resultIdOf modelHash), verifiers, fun _ _ => true⟩

def challengedResult (c : TeeContract) (key modelHash : ℕ) : PackedMLResult :=
  { submittedResult c.challengeWindow key modelHash with
    challenged := true
    challenger := 13
    challengeBond := ETHER
    disputeDeadline := uint40 (200 + c.disputeWindow) }

/-- The second state is the first with one result written and one ether more. -/
structure Stores (recover : ℕ → List UInt8 → Option ℕ) (c c' : TeeContract) (modelHash : ℕ)
    (r : PackedMLResult) : Prop where
  results : c'.results = Function.update c.results (resultIdOf modelHash) r
  record : c'.disputeResolved = c.disputeResolved
  balance : c'.balance = c.balance + ETHER
  window : c'.challengeWindow = c.challengeWindow
  takes : ∀ {chainId key attestation}, TakesResults recover c chainId key attestation →
    TakesResults recover c' chainId key attestation
  config : ∀ {address call}, Configured c address call → Configured c' address call

theorem stores_setResult (c : TeeContract) (modelHash : ℕ) (r : PackedMLResult) :
    Stores recover c (setResult (credit c ETHER) (resultIdOf modelHash) r) modelHash r where
  results := rfl
  record := rfl
  balance := rfl
  window := rfl
  takes h := ⟨h.unpaused, h.stake, h.bond, h.registered, h.active, h.challengeable,
    h.challengeWindow, h.disputeWindow, h.attested⟩
  config h := ⟨h.unpaused, h.verifier, h.stylus, h.hybrid⟩

theorem step_submission (hc : TakesResults recover c chainId key attestation)
    (hmodel : modelHash ∈ [1, 2]) (hnew : (c.results (resultIdOf modelHash)).submittedAt = 0) :
    Stores recover c (step recover c (submission verifiers chainId attestation modelHash)) modelHash
      (submittedResult c.challengeWindow key modelHash) := by
  have hdigest : attestationDigest (credit c ETHER) = attestationDigest c := rfl
  have hnew' : (c.results (generateResultId 12 modelHash 0 1)).submittedAt = 0 := hnew
  have hexecute : execute recover c (submission verifiers chainId attestation modelHash) =
      .ok (setResult (credit c ETHER) (resultIdOf modelHash)
        (submittedResult c.challengeWindow key modelHash)) := by
    simp only [execute, submission, Operation.payable, dispatch, submitResult, hdigest,
      hc.attested modelHash hmodel, Bool.true_or, require_true, ok_bind]
    simp [whenNotPaused, credit, hc.unpaused, hc.stake, hc.registered, hc.active, hnew',
      addChecked, hc.challengeWindow, resultIdOf, submittedResult]
  rw [step_of_execute hexecute]
  exact stores_setResult c modelHash _

theorem step_disputing (hc : TakesResults recover c chainId key attestation)
    (hr : c.results (resultIdOf modelHash) = submittedResult c.challengeWindow key modelHash) :
    Stores recover c (step recover c (disputing verifiers chainId modelHash)) modelHash
      (challengedResult c key modelHash) := by
  have hfound : (uint40 100 != 0) = true := rfl
  have hexecute : execute recover c (disputing verifiers chainId modelHash) =
      .ok (setResult (credit c ETHER) (resultIdOf modelHash) (challengedResult c key modelHash)) := by
    simp [execute, disputing, Operation.payable, dispatch, challenge, whenNotPaused, credit, hr,
      hc.unpaused, submittedResult, challengedResult, hfound, hc.bond, hc.challengeable, addChecked,
      hc.disputeWindow]
  rw [step_of_execute hexecute]
  exact stores_setResult c modelHash _

/-- The dispute over the result of a model is open. -/
structure OpenDispute (c : TeeContract) (modelHash : ℕ) : Prop where
  challenged : (c.results (resultIdOf modelHash)).challenged = true
  bond : (c.results (resultIdOf modelHash)).challengeBond = ETHER
  stake : (c.results (resultIdOf modelHash)).proverStakeAmount = ETHER
  model : (c.results (resultIdOf modelHash)).modelHash = modelHash
  unresolved : c.disputeResolved (resultIdOf modelHash) = false

theorem openDispute_of_results
    (hr : c.results (resultIdOf modelHash) = challengedResult c' key modelHash)
    (hopen : c.disputeResolved (resultIdOf modelHash) = false) : OpenDispute c modelHash := by
  refine ⟨?_, ?_, ?_, ?_, hopen⟩ <;> rw [hr] <;> rfl

def openingRun (verifiers : Verifiers) (chainId : ℕ) (attestation : ℕ → List UInt8) :
    List Transaction :=
  [submission verifiers chainId attestation 1, submission verifiers chainId attestation 2,
    disputing verifiers chainId 1, disputing verifiers chainId 2]

/-- Both disputes are open, and the contract holds their four stakes. -/
structure TwoDisputes (c : TeeContract) (address : ℕ) (call : VerifierCall) : Prop where
  config : Configured c address call
  one : OpenDispute c 1
  two : OpenDispute c 2
  balance : 4 * ETHER ≤ c.balance

theorem run_openingRun (hc : TakesResults recover c chainId key attestation)
    (hnew : ∀ modelHash, (c.results (resultIdOf modelHash)).submittedAt = 0)
    (hopen : ∀ resultId, c.disputeResolved resultId = false)
    (hconfig : Configured c address call) :
    TwoDisputes (run recover c (openingRun verifiers chainId attestation)) address call := by
  have hne := resultIdOf_one_ne_two
  simp only [run, openingRun, List.foldl_cons, List.foldl_nil]
  -- each state is only known by what the transaction before it stored
  have h₁ := @step_submission recover c verifiers chainId key 1 attestation hc (by simp) (hnew 1)
  generalize step recover c (submission verifiers chainId attestation 1) = c₁ at h₁ ⊢
  have hc₁ := h₁.takes hc
  have hnew₂ : (c₁.results (resultIdOf 2)).submittedAt = 0 := by
    rw [h₁.results, Function.update_of_ne hne.symm]
    exact hnew 2
  have h₂ := @step_submission recover c₁ verifiers chainId key 2 attestation hc₁ (by simp) hnew₂
  generalize step recover c₁ (submission verifiers chainId attestation 2) = c₂ at h₂ ⊢
  have hc₂ := h₂.takes hc₁
  have hr₁ : c₂.results (resultIdOf 1) = submittedResult c₂.challengeWindow key 1 := by
    rw [h₂.results, Function.update_of_ne hne, h₁.results, Function.update_self, h₂.window,
      h₁.window]
  have h₃ := @step_disputing recover c₂ verifiers chainId key 1 attestation hc₂ hr₁
  generalize step recover c₂ (disputing verifiers chainId 1) = c₃ at h₃ ⊢
  have hc₃ := h₃.takes hc₂
  have hr₂ : c₃.results (resultIdOf 2) = submittedResult c₃.challengeWindow key 2 := by
    rw [h₃.results, Function.update_of_ne hne.symm, h₂.results, Function.update_self, h₃.window,
      h₂.window]
  have h₄ := @step_disputing recover c₃ verifiers chainId key 2 attestation hc₃ hr₂
  generalize step recover c₃ (disputing verifiers chainId 2) = c₄ at h₄ ⊢
  have hrecord : ∀ resultId, c₄.disputeResolved resultId = false := by
    intro resultId
    rw [h₄.record, h₃.record, h₂.record, h₁.record, hopen]
  have hone : c₄.results (resultIdOf 1) = challengedResult c₂ key 1 := by
    rw [h₄.results, Function.update_of_ne hne, h₃.results, Function.update_self]
  have htwo : c₄.results (resultIdOf 2) = challengedResult c₃ key 2 := by
    rw [h₄.results, Function.update_self]
  refine ⟨h₄.config (h₃.config (h₂.config (h₁.config hconfig))),
    openDispute_of_results hone (hrecord _), openDispute_of_results htwo (hrecord _), ?_⟩
  rw [h₄.balance, h₃.balance, h₂.balance, h₁.balance]
  omega

/-! ## The replay -/

/-- The admin configures the verifier and registers one enclave. -/
def setupRun (verifiers : Verifiers) (chainId admin address key : ℕ) (call : VerifierCall) :
    List Transaction :=
  [.setRemainderVerifier address, .registerEnclave key 0,
    .setUseStylusVerifier (isStylusCall call), .setUseStylusGroth16 true].map fun operation =>
      ⟨⟨admin, 0, 100, 1, chainId⟩, operation, verifiers, fun _ _ => true⟩

def setupState (self chainId admin remainderVerifier address key : ℕ) (call : VerifierCall) :
    TeeContract :=
  { initialStorage self chainId admin remainderVerifier with
    remainderVerifier := address
    enclaves := Function.update (fun _ => PackedEnclaveInfo.empty) key ⟨true, true, 100, 0⟩
    useStylusVerifier := isStylusCall call
    useStylusGroth16 := true }

variable {self admin remainderVerifier : ℕ}

theorem run_setupRun (haddress : address ≠ 0) (hkey : key ≠ 0) :
    run recover (initialStorage self chainId admin remainderVerifier)
      (setupRun verifiers chainId admin address key call) =
        setupState self chainId admin remainderVerifier address key call := by
  have haddress' := bne_iff_ne.mpr haddress
  have hkey' := bne_iff_ne.mpr hkey
  simp [setupRun, run, step, execute, dispatch, Operation.payable, setRemainderVerifier,
    registerEnclave, setUseStylusVerifier, setUseStylusGroth16, onlyAdmin, onlyTimelocked, credit,
    initialStorage, haddress', hkey', PackedEnclaveInfo.empty, setupState, uint40]

/-- The enclave has attested the empty results of the models `1` and `2`. -/
def Attested (recover : ℕ → List UInt8 → Option ℕ) (c : TeeContract) (chainId key : ℕ)
    (attestation : ℕ → List UInt8) : Prop :=
  ∀ modelHash ∈ [1, 2],
    recover (attestationDigest c chainId modelHash 0 (keccak256 [])) (attestation modelHash) =
      some key

theorem takesResults_setupState
    (hattested : Attested recover (initialStorage self chainId admin remainderVerifier) chainId key
      attestation) :
    TakesResults recover (setupState self chainId admin remainderVerifier address key call) chainId
      key attestation := by
  have hkey : (setupState self chainId admin remainderVerifier address key call).enclaves key =
      ⟨true, true, 100, 0⟩ := by
    simp only [setupState, Function.update_self]
  have hamount : ETHER / 10 ≤ ETHER := by decide
  have hdeadline : 200 < uint40 (100 + 60 * 60) := by decide
  have hchallenge : 100 + 60 * 60 < WORD := by decide
  have hdispute : 200 + 24 * 60 * 60 < WORD := by decide
  exact ⟨rfl, hamount, hamount, by rw [hkey], by rw [hkey], hdeadline, hchallenge, hdispute,
    hattested⟩

theorem openDispute_afterWin {other : ℕ} (hne : resultIdOf modelHash ≠ resultIdOf other)
    (h : OpenDispute c modelHash) : OpenDispute (afterWin c (resultIdOf other) pot) modelHash := by
  have hr : (afterWin c (resultIdOf other) pot).results (resultIdOf modelHash) =
      c.results (resultIdOf modelHash) := Function.update_of_ne hne _ _
  have hrecord : (afterWin c (resultIdOf other) pot).disputeResolved (resultIdOf modelHash) =
      c.disputeResolved (resultIdOf modelHash) := Function.update_of_ne hne _ _
  exact ⟨hr ▸ h.challenged, hr ▸ h.bond, hr ▸ h.stake, hr ▸ h.model, hrecord ▸ h.unresolved⟩

def replay (verifiers : Verifiers) (chainId : ℕ) (call : VerifierCall) (modelHash : ℕ) :
    Transaction :=
  ⟨⟨14, 0, 201, 1, chainId⟩, resolutionOf (resultIdOf modelHash) call, verifiers, fun _ _ => true⟩

theorem execute_replay (hconfig : Configured c address call) (haddress : address ≠ 0)
    (hopen : OpenDispute c modelHash) (hbalance : 2 * ETHER ≤ c.balance)
    (hvalid : proofValid (verifiers address call) = .ok true) :
    execute recover c (replay verifiers chainId call modelHash) =
      .ok (afterWin c (resultIdOf modelHash) (2 * ETHER)) := by
  have hpot : addChecked (c.results (resultIdOf modelHash)).challengeBond
      (c.results (resultIdOf modelHash)).proverStakeAmount = .ok (2 * ETHER) := by
    rw [hopen.bond, hopen.stake]
    decide
  exact execute_resolutionOf hconfig haddress hopen.challenged hopen.unresolved hvalid hpot
    hbalance rfl

theorem wins_append (xs ys : List Transaction) :
    wins recover c (xs ++ ys) = wins recover c xs ++ wins recover (run recover c xs) ys := by
  induction xs generalizing c with
  | nil => rfl
  | cons tx xs ih =>
    simp only [List.cons_append, wins, ih, List.append_assoc]
    rfl

/-- The confirmed tuple wins both disputes. -/
theorem wins_replays (h : TwoDisputes c address call) (haddress : address ≠ 0)
    (hvalid : proofValid (verifiers address call) = .ok true) :
    wins recover c [replay verifiers chainId call 1, replay verifiers chainId call 2] =
      [⟨call.tuple, hashes (c.results (resultIdOf 1))⟩,
        ⟨call.tuple, hashes (c.results (resultIdOf 2))⟩] := by
  have hne := resultIdOf_one_ne_two
  have hbalance := h.balance
  have hone := @execute_replay recover c call verifiers address chainId 1 h.config haddress h.one
    (by omega) hvalid
  have hafter : 2 * ETHER ≤ (afterWin c (resultIdOf 1) (2 * ETHER)).balance := by
    show 2 * ETHER ≤ c.balance - 2 * ETHER
    omega
  have hconfig : Configured (afterWin c (resultIdOf 1) (2 * ETHER)) address call :=
    ⟨h.config.unpaused, h.config.verifier, h.config.stylus, h.config.hybrid⟩
  have htwo := @execute_replay recover _ call verifiers address chainId 2 hconfig haddress
    (openDispute_afterWin hne.symm h.two) hafter hvalid
  have hresult : (afterWin c (resultIdOf 1) (2 * ETHER)).results (resultIdOf 2) =
      c.results (resultIdOf 2) := Function.update_of_ne hne.symm _ _
  simp only [wins, step_of_execute hone]
  rw [replay, winOf_resolutionOf h.config hone, replay, winOf_resolutionOf hconfig htwo, hresult]
  rfl

theorem not_proofBound_of_confirmed {behaviours : Set Verifiers} {tuple : ProofTuple}
    (hkey : key ≠ 0)
    (hattested : Attested recover (initialStorage self chainId admin remainderVerifier) chainId key
      attestation) (hconfirmed : Confirmed behaviours tuple) :
    ¬ProofBound recover (initialStorage self chainId admin remainderVerifier) behaviours tuple := by
  intro hbound
  obtain ⟨verifiers, hverifiers, address, haddress, call, rfl, hvalid⟩ := hconfirmed
  have hopened : TwoDisputes (run recover (initialStorage self chainId admin remainderVerifier)
      (setupRun verifiers chainId admin address key call ++
        openingRun verifiers chainId attestation)) address call := by
    rw [run, List.foldl_append]
    change TwoDisputes (run recover (run recover _ _) _) address call
    rw [run_setupRun haddress hkey]
    exact run_openingRun (takesResults_setupState hattested) (fun _ => rfl) (fun _ => rfl)
      ⟨rfl, rfl, rfl, rfl⟩
  have hwins := @wins_append recover (initialStorage self chainId admin remainderVerifier)
    (setupRun verifiers chainId admin address key call ++ openingRun verifiers chainId attestation)
    [replay verifiers chainId call 1, replay verifiers chainId call 2]
  rw [wins_replays hopened haddress hvalid] at hwins
  have hsame := hbound _ (by
    intro tx htx
    simp only [setupRun, openingRun, submission, disputing, replay, List.map_cons, List.map_nil,
      List.mem_append, List.mem_cons, List.not_mem_nil, or_false] at htx
    rcases htx with ((rfl | rfl | rfl | rfl) | rfl | rfl | rfl | rfl) | rfl | rfl <;>
      exact hverifiers)
    _ (hwins ▸ List.mem_append_right _ (List.mem_cons_self ..))
    _ (hwins ▸ List.mem_append_right _ (List.mem_cons_of_mem _ (List.mem_cons_self ..))) rfl rfl
  have hmodel := congrArg Prod.fst hsame
  simp only [hashes, hopened.one.model, hopened.two.model] at hmodel
  cases hmodel

/-- One tuple cannot win the disputes of two results with different hashes exactly when no verifier
that the contract may use confirms it. -/
theorem proofBound_iff_not_confirmed (hkey : key ≠ 0)
    (hc : initializeContract self chainId admin remainderVerifier = .ok c)
    (hattested : Attested recover c chainId key attestation) (behaviours : Set Verifiers)
    (tuple : ProofTuple) :
    ProofBound recover c behaviours tuple ↔ ¬Confirmed behaviours tuple := by
  obtain rfl : initialStorage self chainId admin remainderVerifier = c := by
    simp only [initializeContract, bind_eq_ok, pure_eq_ok] at hc
    obtain ⟨_, -, rfl⟩ := hc
    rfl
  constructor
  · intro hbound hconfirmed
    exact not_proofBound_of_confirmed hkey hattested hconfirmed hbound
  · intro hconfirmed txs hallowed w hw w' _ htuple _
    exact absurd (htuple ▸ wins_confirmed hallowed hw) hconfirmed

theorem sampleRecover_attested :
    Attested sampleRecover (initialStorage 15 1 10 11) 1 sampleEnclave sampleAttestation := by
  intro modelHash hmodel
  rcases List.mem_cons.mp hmodel with rfl | hmodel
  · exact if_pos (.inl rfl)
  · obtain rfl := List.mem_singleton.mp hmodel
    exact if_pos (.inr rfl)

theorem remainderResponses_empty {address : ℕ} {call : VerifierCall}
    (hcall : call.tuple = ⟨[], 1, [], []⟩) :
    remainderResponses (Contract.single BatchSoundness.plainConfig) address call = ⟨false, []⟩ := by
  cases call with
  | verifyDAGProof tuple =>
    obtain rfl : tuple = ⟨[], 1, [], []⟩ := hcall
    rfl
  | _ => rfl

theorem emptyProof_bound :
    ProofBound sampleRecover (initialStorage 15 1 10 11)
      {remainderResponses (Contract.single BatchSoundness.plainConfig)} ⟨[], 1, [], []⟩ := by
  refine (proofBound_iff_not_confirmed (by decide)
    (show initializeContract 15 1 10 11 = .ok (initialStorage 15 1 10 11) from rfl)
    sampleRecover_attested _ _).mpr ?_
  rintro ⟨verifiers, rfl, address, -, call, hcall, hvalid⟩
  rw [remainderResponses_empty hcall] at hvalid
  cases hvalid

theorem confirmed_of_verifyDAGProof {verifier : Contract} {tuple : ProofTuple}
    (hverify : verifyDAGProof verifier tuple.proof tuple.circuitHash tuple.publicInputs
      tuple.gensData = .ok true) : Confirmed {remainderResponses verifier} tuple := by
  refine ⟨_, rfl, 11, by decide, .verifyDAGProof tuple, rfl, ?_⟩
  have hresponse : remainderResponses verifier 11 (.verifyDAGProof tuple) =
      ⟨true, Transcript.wordToBeBytes 1⟩ := by
    simp only [remainderResponses, hverify, if_true]
  rw [hresponse]
  decide

/-- An accepted proof of a circuit without inputs wins the disputes of both results. -/
theorem plainProof_not_bound :
    ¬ProofBound sampleRecover (initialStorage 15 1 10 11)
      {remainderResponses (Contract.single BatchSoundness.plainConfig)}
      ⟨(BatchSoundness.plainPayload BatchSoundness.plainGensData).proof, 1, [],
        BatchSoundness.plainGensData⟩ := by
  have hverify := @BatchSoundness.verifyDAGProof_plain BatchSoundness.plainGensData
    (by simp [checkGenerators, BatchSoundness.plainConfig])
    (by
      rw [BatchSoundness.plainGensData, calldataReader_flatMap_wordToBeBytes (by decide)]
      decide)
  exact not_proofBound_of_confirmed (by decide) sampleRecover_attested
    (confirmed_of_verifyDAGProof hverify)

end WorldZk.TeeProofBinding
