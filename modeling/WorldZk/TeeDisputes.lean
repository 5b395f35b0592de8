import WorldZk.TeeVerifier
import WorldZk.BatchSoundness

/-!
# Disputes over TEE results

What one transaction can do to the record of settled disputes, and from it how a prover loses a
dispute in a run of `TEEMLVerifier`.
-/

namespace WorldZk.TeeDisputes

open CheckedRuns FieldArithmetic Transcript SolidityVerifier TeeVerifier

variable {recover : ℕ → List UInt8 → Option ℕ} {c c' : TeeContract} {tx : Transaction}

/-! ## One transaction -/

/-- The result that a resolution is about, and the call it makes on the verifier. -/
def resolution (c : TeeContract) : Operation → Option (ℕ × VerifierCall)
  | .resolveDispute resultId tuple =>
    some (resultId,
      if c.useStylusVerifier then .verifyDAGProofStylus tuple else .verifyDAGProof tuple)
  | .resolveDisputeHybrid resultId tuple ecGroth16Proof =>
    some (resultId, .verifyDAGProofStylusGroth16 tuple ecGroth16Proof)
  | .resolveDisputeHybridChunked resultId tuple ecGroth16Proofs totalChunks opsDigest =>
    some (resultId,
      .verifyDAGProofStylusGroth16Chunked tuple ecGroth16Proofs totalChunks opsDigest)
  | _ => none

/-- The transaction is a resolution of the given dispute, and the verifier's answer is taken as
`valid`. -/
def Resolves (c : TeeContract) (tx : Transaction) (resultId : ℕ) (valid : Bool) : Prop :=
  ∃ call, resolution c tx.operation = some (resultId, call) ∧ c.remainderVerifier ≠ 0 ∧
    proofValid (tx.verifiers c.remainderVerifier call) = .ok valid

/-- The transaction ends the given dispute after its deadline. -/
def TimesOut (c : TeeContract) (tx : Transaction) (resultId : ℕ) : Prop :=
  tx.operation = .resolveDisputeByTimeout resultId ∧
    (c.results resultId).disputeDeadline ≤ tx.msg.timestamp

/-- The record of settled disputes is the same in both states. -/
def SameRecord (c c' : TeeContract) : Prop :=
  c'.disputeResolved = c.disputeResolved ∧ c'.disputeProverWon = c.disputeProverWon

/-- The second state is the first with one more dispute settled. -/
def RecordsOutcome (c c' : TeeContract) (resultId : ℕ) (won : Bool) : Prop :=
  c.disputeResolved resultId = false ∧
    c'.disputeResolved = Function.update c.disputeResolved resultId true ∧
    c'.disputeProverWon = Function.update c.disputeProverWon resultId won

theorem pay_eq_ok {accepts : ℕ → ℕ → Bool} {failed : TeeError} {payee amount : ℕ} :
    pay c accepts failed payee amount = .ok c' ↔
      (amount ≤ c.balance ∧ accepts payee amount = true) ∧
        { c with balance := c.balance - amount } = c' := by
  simp only [pay, bind_eq_ok, pure_eq_ok, require_eq_ok, Bool.and_eq_true, decide_eq_true_eq,
    exists_const]

theorem checkDisputed_eq_ok {resultId : ℕ} {u : Unit} :
    checkDisputed c resultId = .ok u ↔
      (c.results resultId).challenged = true ∧ c.disputeResolved resultId = false := by
  simp only [checkDisputed, bind_eq_ok, require_eq_ok, Bool.not_eq_true', exists_const]

theorem settleDispute_records {accepts : ℕ → ℕ → Bool} {resultId : ℕ} {valid : Bool}
    (hopen : c.disputeResolved resultId = false)
    (h : settleDispute c accepts resultId valid = .ok c') :
    RecordsOutcome c c' resultId valid := by
  simp only [settleDispute, bind_eq_ok, pay_eq_ok] at h
  obtain ⟨totalPot, -, -, rfl⟩ := h
  exact ⟨hopen, rfl, rfl⟩

theorem resolveWith_records {verifiers : Verifiers} {accepts : ℕ → ℕ → Bool} {resultId : ℕ}
    {call : VerifierCall} (h : resolveWith c verifiers accepts resultId call = .ok c') :
    c.remainderVerifier ≠ 0 ∧ ∃ valid,
      proofValid (verifiers c.remainderVerifier call) = .ok valid ∧
        RecordsOutcome c c' resultId valid := by
  simp only [resolveWith, bind_eq_ok, checkDisputed_eq_ok, require_eq_ok, bne_iff_ne] at h
  obtain ⟨_, ⟨-, hopen⟩, _, hverifier, valid, hvalid, hsettle⟩ := h
  exact ⟨hverifier, valid, hvalid, settleDispute_records hopen hsettle⟩

/-- The functions behind `onlyAdmin` and `onlyTimelocked`. -/
def isAdmin : Operation → Bool
  | .registerEnclave .. | .revokeEnclave _ | .setRemainderVerifier _ | .setChallengeBondAmount _
  | .setProverStake _ | .setChallengeWindow _ | .setDisputeWindow _ | .setUseStylusVerifier _
  | .setUseStylusGroth16 _ | .pause | .unpause | .changeAdmin _ | .setTimelock _ => true
  | _ => false

theorem adminOperation_sameRecord (h : dispatch recover c tx = .ok c')
    (hadmin : isAdmin tx.operation = true) : SameRecord c c' := by
  obtain ⟨msg, operation, verifiers, accepts⟩ := tx
  cases operation <;> simp only [isAdmin, Bool.false_eq_true] at hadmin <;>
    simp only [dispatch, registerEnclave, revokeEnclave, setRemainderVerifier,
      setChallengeBondAmount, setProverStake, setChallengeWindow, setDisputeWindow,
      setUseStylusVerifier, setUseStylusGroth16, pause, unpause, changeAdmin, setTimelock,
      bind_eq_ok, pure_eq_ok] at h
  case registerEnclave | revokeEnclave =>
    obtain ⟨_, -, _, -, _, -, rfl⟩ := h
    exact ⟨rfl, rfl⟩
  case setUseStylusVerifier | setUseStylusGroth16 | setTimelock =>
    obtain ⟨_, -, rfl⟩ := h
    exact ⟨rfl, rfl⟩
  all_goals
    obtain ⟨_, -, _, -, rfl⟩ := h
    exact ⟨rfl, rfl⟩

theorem submitResult_sameRecord {msg : Message} {modelHash inputHash resultId : ℕ}
    {result attestation : List UInt8}
    (h : submitResult recover c msg modelHash inputHash result attestation = .ok (resultId, c')) :
    SameRecord c c' := by
  simp only [submitResult, bind_eq_ok] at h
  obtain ⟨_, -, _, -, h⟩ := h
  split at h
  · cases h
  · simp only [bind_eq_ok, pure_eq_ok, Prod.mk.injEq] at h
    obtain ⟨_, -, _, -, _, -, _, -, -, rfl⟩ := h
    exact ⟨rfl, rfl⟩

theorem challenge_sameRecord {msg : Message} {resultId : ℕ}
    (h : challenge c msg resultId = .ok c') : SameRecord c c' := by
  simp only [challenge, bind_eq_ok, pure_eq_ok] at h
  obtain ⟨_, -, _, -, _, -, _, -, _, -, _, -, _, -, rfl⟩ := h
  exact ⟨rfl, rfl⟩

theorem extendDisputeWindow_sameRecord {msg : Message} {resultId : ℕ}
    (h : extendDisputeWindow c msg resultId = .ok c') : SameRecord c c' := by
  simp only [extendDisputeWindow, bind_eq_ok, pure_eq_ok] at h
  obtain ⟨_, -, _, -, _, -, rfl⟩ := h
  exact ⟨rfl, rfl⟩

theorem finalize_sameRecord {msg : Message} {accepts : ℕ → ℕ → Bool} {resultId : ℕ}
    (h : finalize c msg accepts resultId = .ok c') : SameRecord c c' := by
  simp only [finalize, bind_eq_ok] at h
  obtain ⟨_, -, _, -, _, -, _, -, _, -, h⟩ := h
  split at h
  · obtain ⟨-, rfl⟩ := pay_eq_ok.mp h
    exact ⟨rfl, rfl⟩
  · obtain rfl := pure_eq_ok.mp h
    exact ⟨rfl, rfl⟩

/-- A resolution that does not revert settles its dispute with the verifier's answer. -/
theorem dispatch_resolution {resultId : ℕ} {call : VerifierCall}
    (h : dispatch recover c tx = .ok c')
    (hresolution : resolution c tx.operation = some (resultId, call)) :
    c.remainderVerifier ≠ 0 ∧ ∃ valid,
      proofValid (tx.verifiers c.remainderVerifier call) = .ok valid ∧
        RecordsOutcome c c' resultId valid := by
  obtain ⟨msg, operation, verifiers, accepts⟩ := tx
  cases operation <;> simp only [resolution, reduceCtorEq, Option.some.injEq, Prod.mk.injEq]
    at hresolution
  case resolveDispute =>
    obtain ⟨rfl, rfl⟩ := hresolution
    simp only [dispatch, resolveDispute, bind_eq_ok] at h
    obtain ⟨_, -, h⟩ := h
    exact resolveWith_records h
  case resolveDisputeHybrid =>
    obtain ⟨rfl, rfl⟩ := hresolution
    simp only [dispatch, resolveDisputeHybrid, bind_eq_ok] at h
    obtain ⟨_, -, _, -, h⟩ := h
    exact resolveWith_records h
  case resolveDisputeHybridChunked =>
    obtain ⟨rfl, rfl⟩ := hresolution
    simp only [dispatch, resolveDisputeHybridChunked, bind_eq_ok] at h
    obtain ⟨_, -, _, -, h⟩ := h
    exact resolveWith_records h

/-- What a transaction can do to the record: nothing, or settle one open dispute, by a resolution
with the verifier's answer or against the prover after the deadline. -/
theorem dispatch_cases (h : dispatch recover c tx = .ok c') :
    SameRecord c c' ∨ ∃ resultId won, RecordsOutcome c c' resultId won ∧
      (Resolves c tx resultId won ∨ TimesOut c tx resultId ∧ won = false) := by
  by_cases hadmin : isAdmin tx.operation = true
  · exact .inl (adminOperation_sameRecord h hadmin)
  obtain ⟨msg, operation, verifiers, accepts⟩ := tx
  cases operation <;> simp only [isAdmin, Bool.false_eq_true, not_true_eq_false] at hadmin
  case submitResult =>
    simp only [dispatch] at h
    obtain ⟨⟨resultId, c₁⟩, hsubmit, rfl⟩ := map_eq_ok.mp h
    exact .inl (submitResult_sameRecord hsubmit)
  case challenge => exact .inl (challenge_sameRecord h)
  case extendDisputeWindow => exact .inl (extendDisputeWindow_sameRecord h)
  case finalize => exact .inl (finalize_sameRecord h)
  case receive =>
    obtain rfl := pure_eq_ok.mp h
    exact .inl ⟨rfl, rfl⟩
  case resolveDisputeByTimeout resultId =>
    simp only [dispatch, resolveDisputeByTimeout, bind_eq_ok, checkDisputed_eq_ok, require_eq_ok,
      decide_eq_true_eq] at h
    obtain ⟨_, -, _, ⟨-, hopen⟩, _, htime, hsettle⟩ := h
    exact .inr ⟨resultId, false, settleDispute_records hopen hsettle, .inr ⟨⟨rfl, htime⟩, rfl⟩⟩
  all_goals
    obtain ⟨hverifier, valid, hvalid, hrecord⟩ := dispatch_resolution h rfl
    exact .inr ⟨_, valid, hrecord, .inl ⟨_, rfl, hverifier, hvalid⟩⟩

theorem execute_eq_ok :
    execute recover c tx = .ok c' ↔
      (tx.operation.payable || tx.msg.value == 0) = true ∧
        dispatch recover (credit c tx.msg.value) tx = .ok c' := by
  simp only [execute, bind_eq_ok, require_eq_ok, exists_const]

-- The credited value is on the balance only, so the cases of `dispatch` carry over as they are.
theorem execute_cases (h : execute recover c tx = .ok c') :
    SameRecord c c' ∨ ∃ resultId won, RecordsOutcome c c' resultId won ∧
      (Resolves c tx resultId won ∨ TimesOut c tx resultId ∧ won = false) := by
  have hcases := dispatch_cases (execute_eq_ok.mp h).2
  exact hcases

/-! ## How a prover loses -/

/-- The transaction settles the given dispute. -/
def Settles (recover : ℕ → List UInt8 → Option ℕ) (c : TeeContract) (tx : Transaction)
    (resultId : ℕ) (won : Bool) : Prop :=
  ∃ c', execute recover c tx = .ok c' ∧ c.disputeResolved resultId = false ∧
    c'.disputeResolved resultId = true ∧ c'.disputeProverWon resultId = won

theorem step_of_execute (h : execute recover c tx = .ok c') : step recover c tx = c' := by
  rw [step, h]

theorem settles_cases {resultId : ℕ} {won : Bool} (h : Settles recover c tx resultId won) :
    Resolves c tx resultId won ∨ TimesOut c tx resultId ∧ won = false := by
  obtain ⟨c', hexecute, hopen, hresolved, hwon⟩ := h
  rcases execute_cases hexecute with ⟨hsame, -⟩ | ⟨settledId, outcome, ⟨-, hr, hw⟩, hhow⟩
  · rw [hsame, hopen] at hresolved
    cases hresolved
  · rw [hr] at hresolved
    have hid : resultId = settledId := by
      by_contra hne
      rw [Function.update_of_ne hne, hopen] at hresolved
      cases hresolved
    subst hid
    rw [hw, Function.update_self] at hwon
    rwa [hwon] at hhow

theorem settles_of_okAnd {resultId : ℕ} {won : Bool}
    (h : okAnd (execute recover c tx) (fun c' => !c.disputeResolved resultId &&
      (c'.disputeResolved resultId && c'.disputeProverWon resultId == won)) = true) :
    Settles recover c tx resultId won := by
  obtain ⟨c', hexecute, hsettled⟩ := okAnd_eq_true.mp h
  simp only [Bool.and_eq_true, Bool.not_eq_true', beq_iff_eq] at hsettled
  exact ⟨c', hexecute, hsettled⟩

theorem step_keeps_outcome {resultId : ℕ} (hresolved : c.disputeResolved resultId = true) :
    (step recover c tx).disputeResolved resultId = true ∧
      (step recover c tx).disputeProverWon resultId = c.disputeProverWon resultId := by
  cases hexecute : execute recover c tx with
  | error e =>
    rw [step, hexecute]
    exact ⟨hresolved, rfl⟩
  | ok c' =>
    rw [step_of_execute hexecute]
    rcases execute_cases hexecute with ⟨hr, hw⟩ | ⟨settledId, won, ⟨hopen, hr, hw⟩, -⟩
    · rw [hr, hw]
      exact ⟨hresolved, rfl⟩
    · have hne : resultId ≠ settledId := by
        rintro rfl
        rw [hresolved] at hopen
        cases hopen
      rw [hr, hw, Function.update_of_ne hne, Function.update_of_ne hne]
      exact ⟨hresolved, rfl⟩

theorem run_append_singleton (txs : List Transaction) (tx : Transaction) :
    run recover c (txs ++ [tx]) = step recover (run recover c txs) tx := by
  rw [run, List.foldl_append]
  rfl

/-- A dispute that a run settles is settled by one of its transactions, with the outcome that
stands at the end. -/
theorem settled_in_run {resultId : ℕ} {txs : List Transaction}
    (hopen : c.disputeResolved resultId = false)
    (hresolved : (run recover c txs).disputeResolved resultId = true) :
    ∃ pre tx post, txs = pre ++ tx :: post ∧
      Settles recover (run recover c pre) tx resultId
        ((run recover c txs).disputeProverWon resultId) := by
  induction txs using List.reverseRecOn with
  | nil =>
    rw [show run recover c [] = c from rfl, hopen] at hresolved
    cases hresolved
  | append_singleton txs tx ih =>
    rw [run_append_singleton] at hresolved ⊢
    by_cases hearlier : (run recover c txs).disputeResolved resultId = true
    · obtain ⟨pre, tx', post, rfl, hsettles⟩ := ih hearlier
      rw [(step_keeps_outcome hearlier).2]
      exact ⟨pre, tx', post ++ [tx], by simp, hsettles⟩
    · rw [Bool.not_eq_true] at hearlier
      refine ⟨txs, tx, [], rfl, ?_⟩
      cases hexecute : execute recover (run recover c txs) tx with
      | error e =>
        rw [step, hexecute] at hresolved
        exact absurd hresolved (by simp [hearlier])
      | ok c' =>
        rw [step_of_execute hexecute] at hresolved ⊢
        exact ⟨c', hexecute, hearlier, hresolved, rfl⟩

/-! A deployment with one enclave, whose signing key is `1`, and the answers of a
`RemainderVerifier` behind it. -/

def sampleEnclave : ℕ := 0x7e5f4552091a69125d5dfcb7b8c2659029395bdf

/-- The enclave's signature of the empty result of the given model. -/
def sampleAttestation (modelHash : ℕ) : List UInt8 :=
  wordToBeBytes 0x5cbdf0646e5db4eaa398f365f2ea7a0e3d419b7e0330e39ce92bddedcac4f9bc ++
    wordToBeBytes (if modelHash = 1 then
      0x421e7e2f519c5e3426de0eef26c1da3edd9757349b2f8757c8f11405c6a9b337
    else 0x44ece032b70115093c7d7ff84f4f23370b44be3021537e7c6222b4f347189d76) ++ [28]

def sampleRecover (_digest : ℕ) (attestation : List UInt8) : Option ℕ :=
  if attestation = sampleAttestation 1 ∨ attestation = sampleAttestation 2 then
    some sampleEnclave
  else none

/-- The answers of a `RemainderVerifier` in which no Stylus verifier is configured. -/
def remainderResponses (verifier : Contract) : Verifiers := fun _ call =>
  match call with
  | .verifyDAGProof tuple =>
    match verifyDAGProof verifier tuple.proof tuple.circuitHash tuple.publicInputs
        tuple.gensData with
    | .ok valid => ⟨true, wordToBeBytes (if valid then 1 else 0)⟩
    | .error _ => ⟨false, []⟩
  | _ => ⟨false, []⟩

def sampleTransaction (verifiers : Verifiers) (sender value timestamp : ℕ)
    (operation : Operation) : Transaction :=
  ⟨⟨sender, value, timestamp, 1, 1⟩, operation, verifiers, fun _ _ => true⟩

/-- A result is submitted by `12` and challenged by `13`. -/
def sampleOpening (verifiers : Verifiers) (modelHash : ℕ) : List Transaction :=
  [sampleTransaction verifiers 12 ETHER 100
      (.submitResult modelHash 0 [] (sampleAttestation modelHash)),
    sampleTransaction verifiers 13 ETHER 200 (.challenge (generateResultId 12 modelHash 0 1))]

/-- In every run a prover loses a dispute at or after its deadline, or by a resolution for which
the verifier's answer is not true; and every dispute that stands lost was lost so. -/
theorem proverLoses_by_deadline_or_failedProof {self chainId admin remainderVerifier : ℕ}
    (hc : initializeContract self chainId admin remainderVerifier = .ok c)
    (txs : List Transaction) (resultId : ℕ) :
    (∀ pre tx post, txs = pre ++ tx :: post →
      Settles recover (run recover c pre) tx resultId false →
        ((run recover c pre).results resultId).disputeDeadline ≤ tx.msg.timestamp ∨
          Resolves (run recover c pre) tx resultId false) ∧
      ((run recover c txs).disputeResolved resultId = true →
        (run recover c txs).disputeProverWon resultId = false →
          ∃ pre tx post, txs = pre ++ tx :: post ∧
            Settles recover (run recover c pre) tx resultId false) := by
  constructor
  · rintro pre tx post - hsettles
    rcases settles_cases hsettles with hresolves | ⟨⟨-, htime⟩, -⟩
    · exact .inr hresolves
    · exact .inl htime
  · intro hresolved hlost
    have hopen : c.disputeResolved resultId = false := by
      simp only [initializeContract, bind_eq_ok, pure_eq_ok] at hc
      obtain ⟨_, -, rfl⟩ := hc
      rfl
    have hsettled := settled_in_run hopen hresolved
    rwa [hlost] at hsettled

/-- A dispute over one result, which `14` resolves with an empty proof right after the
challenge. -/
def emptyProofRun : List Transaction :=
  sampleTransaction (remainderResponses (Contract.single BatchSoundness.plainConfig)) 10 0 100
      (.registerEnclave sampleEnclave 0) ::
    sampleOpening (remainderResponses (Contract.single BatchSoundness.plainConfig)) 1

def emptyProofResolution : Transaction :=
  sampleTransaction (remainderResponses (Contract.single BatchSoundness.plainConfig)) 14 0 201
    (.resolveDispute (generateResultId 12 1 0 1) ⟨[], 1, [], []⟩)

theorem emptyProofResolution_settles :
    Settles sampleRecover (run sampleRecover (initialStorage 15 1 10 11) emptyProofRun)
      emptyProofResolution (generateResultId 12 1 0 1) false := by
  apply settles_of_okAnd
  decide +kernel

theorem proverLoses_after_opening :
    ((run sampleRecover (initialStorage 15 1 10 11) emptyProofRun).results
        (generateResultId 12 1 0 1)).disputeDeadline ≤ emptyProofResolution.msg.timestamp ∨
      Resolves (run sampleRecover (initialStorage 15 1 10 11) emptyProofRun) emptyProofResolution
        (generateResultId 12 1 0 1) false :=
  (proverLoses_by_deadline_or_failedProof
    (show initializeContract 15 1 10 11 = .ok (initialStorage 15 1 10 11) from rfl)
    (emptyProofRun ++ [emptyProofResolution]) (generateResultId 12 1 0 1)).1 emptyProofRun
      emptyProofResolution [] rfl emptyProofResolution_settles

/-- Anybody may end a dispute against the prover with an empty proof, long before its deadline. -/
theorem proverLoses_before_deadline :
    ¬∀ (recover : ℕ → List UInt8 → Option ℕ) (c : TeeContract) (txs : List Transaction)
      (tx : Transaction) (resultId : ℕ), initializeContract 15 1 10 11 = .ok c →
        Settles recover (run recover c txs) tx resultId false →
          ((run recover c txs).results resultId).disputeDeadline ≤ tx.msg.timestamp := by
  intro h
  have hdeadline := h _ (initialStorage 15 1 10 11) _ _ _ rfl emptyProofResolution_settles
  revert hdeadline
  decide +kernel

end WorldZk.TeeDisputes
