import WorldZk.ProverJobs
import WorldZk.TransactionSenders

/-!
# The claim transactions of a job

A job claims its request through `send_claim_with_retry`, which sends a transaction for each of its
attempts. The model here follows a run of a job down to these transactions. Each of them may succeed
on the chain, whatever the answer to its sender.
-/

namespace WorldZk.ClaimTransactions

open CheckedRuns LoggedRuns ProverJobs

/-! ## The attempts of a claim -/

inductive AttemptAnswer
  | receipt
  -- The send or the wait for the receipt fails. The nonce manager may ask the chain for its count,
  -- and that may fail too.
  | failed (errorLower : List Char) (syncFails : Bool)

structure ClaimAttempt where
  answer : AttemptAnswer
  succeeds : Bool

/-- The loop goes on if it has retries left. -/
def ClaimAttempt.retryable (attempt : ClaimAttempt) : Bool :=
  match attempt.answer with
  | .receipt => false
  | .failed errorLower syncFails =>
    !(NonceManager.needsSync errorLower && syncFails) &&
      TransactionSenders.isRetryableError errorLower

/-- An attempt after which the call returns. The log tells whether its transaction succeeds. -/
def ClaimAttempt.last (attempt : ClaimAttempt) : Logged Bool JobError Unit where
  log := [attempt.succeeds]
  result :=
    match attempt.answer with
    | .receipt => .ok ()
    | .failed _ _ => .error .external

/-- `send_claim_with_retry` on the attempts to come, with so many retries left. -/
def sendClaimWithRetry : ℕ → (ℕ → ClaimAttempt) → Logged Bool JobError Unit
  | 0, attempts => (attempts 0).last
  | retries + 1, attempts =>
    if (attempts 0).retryable then
      let rest := sendClaimWithRetry retries fun k => attempts (k + 1)
      ⟨(attempts 0).succeeds :: rest.log, rest.result⟩
    else (attempts 0).last

/-- `max_retries` of the default configuration; the first attempt counts. -/
def MAX_RETRIES : ℕ := 3

abbrev Attempts : Type := ClaimSite → ℕ → ClaimAttempt

def sendAt (attempts : Attempts) (site : ClaimSite) : Logged Bool JobError Unit :=
  sendClaimWithRetry (MAX_RETRIES - 1) (attempts site)

/-- The answers to a job whose claims meet the attempts. -/
def withAttempts (attempts : Attempts) (answers : JobAnswers) : JobAnswers :=
  { answers with claim := fun site => (sendAt attempts site).result }

/-- The claim transactions of a run. -/
def claimTransactions (attempts : Attempts) (log : List JobEvent) : List Bool :=
  log.flatMap fun
    | .claim site _ => (sendAt attempts site).log
    | _ => []

/-- No transaction comes after one that succeeds. -/
def NoneAfterSuccess (transactions : List Bool) : Prop :=
  transactions.Pairwise fun earlier _ => earlier = false

/-- The attempt `k` is made: there are retries for it, and all attempts before it can be
retried. -/
def Made (retries : ℕ) (attempts : ℕ → ClaimAttempt) (k : ℕ) : Prop :=
  k ≤ retries ∧ ∀ i < k, (attempts i).retryable = true

section Attempts

variable {retries k : ℕ} {attempts : ℕ → ClaimAttempt} {succeeded : Bool}

theorem made_zero : Made retries attempts 0 :=
  ⟨Nat.zero_le _, fun _ hi => absurd hi (Nat.not_lt_zero _)⟩

theorem made_succ : Made (retries + 1) attempts (k + 1) ↔
    (attempts 0).retryable = true ∧ Made retries (fun k => attempts (k + 1)) k := by
  constructor
  · rintro ⟨hle, hretried⟩
    exact ⟨hretried 0 k.succ_pos, Nat.le_of_succ_le_succ hle, fun i hi =>
      hretried (i + 1) (Nat.succ_lt_succ hi)⟩
  · rintro ⟨hfirst, hle, hretried⟩
    refine ⟨Nat.succ_le_succ hle, fun i hi => ?_⟩
    cases i with
    | zero => exact hfirst
    | succ i => exact hretried i (Nat.lt_of_succ_lt_succ hi)

theorem log_succ (retries : ℕ) (attempts : ℕ → ClaimAttempt) :
    (sendClaimWithRetry (retries + 1) attempts).log = (attempts 0).succeeds ::
      if (attempts 0).retryable then
        (sendClaimWithRetry retries fun k => attempts (k + 1)).log
      else [] := by
  rw [sendClaimWithRetry]
  split <;> rfl

theorem mem_log_iff : succeeded ∈ (sendClaimWithRetry retries attempts).log ↔
    ∃ k, Made retries attempts k ∧ (attempts k).succeeds = succeeded := by
  induction retries generalizing attempts with
  | zero =>
    refine List.mem_singleton.trans ?_
    constructor
    · exact fun h => ⟨0, made_zero, h.symm⟩
    · rintro ⟨k, hmade, hk⟩
      rw [← hk, Nat.le_zero.mp hmade.1]
  | succ retries ih =>
    rw [log_succ, List.mem_cons]
    constructor
    · rintro (h | h)
      · exact ⟨0, made_zero, h.symm⟩
      · split at h
        case isTrue hretry =>
          obtain ⟨k, hmade, hk⟩ := ih.mp h
          exact ⟨k + 1, made_succ.mpr ⟨hretry, hmade⟩, hk⟩
        case isFalse => cases h
    · rintro ⟨k, hmade, hk⟩
      cases k with
      | zero => exact .inl hk.symm
      | succ k =>
        obtain ⟨hretry, hrest⟩ := made_succ.mp hmade
        rw [if_pos hretry]
        exact .inr (ih.mpr ⟨k, hrest, hk⟩)

/-- One of the attempts that are made gets a receipt. -/
def GetsReceipt (retries : ℕ) (attempts : ℕ → ClaimAttempt) : Prop :=
  ∃ k, Made retries attempts k ∧ (attempts k).answer = .receipt

theorem last_result_iff {attempt : ClaimAttempt} :
    attempt.last.result = .ok () ↔ attempt.answer = .receipt := by
  simp only [ClaimAttempt.last]
  split
  case h_1 h => exact iff_of_true rfl h
  case h_2 h => exact iff_of_false nofun (by rw [h]; nofun)

theorem last_result_iff_getsReceipt (h : ∀ k, Made retries attempts k → k = 0) :
    (attempts 0).last.result = .ok () ↔ GetsReceipt retries attempts := by
  rw [last_result_iff]
  refine ⟨fun hreceipt => ⟨0, made_zero, hreceipt⟩, ?_⟩
  rintro ⟨k, hmade, hreceipt⟩
  rwa [h k hmade] at hreceipt

theorem result_iff :
    (sendClaimWithRetry retries attempts).result = .ok () ↔ GetsReceipt retries attempts := by
  induction retries generalizing attempts with
  | zero => exact last_result_iff_getsReceipt fun k hmade => Nat.le_zero.mp hmade.1
  | succ retries ih =>
    rw [sendClaimWithRetry]
    split
    case isTrue hretry =>
      refine ih.trans ⟨?_, ?_⟩
      · rintro ⟨k, hmade, hreceipt⟩
        exact ⟨k + 1, made_succ.mpr ⟨hretry, hmade⟩, hreceipt⟩
      · rintro ⟨k, hmade, hreceipt⟩
        cases k with
        | zero =>
          rw [ClaimAttempt.retryable, hreceipt] at hretry
          cases hretry
        | succ k => exact ⟨k, (made_succ.mp hmade).2, hreceipt⟩
    case isFalse hfinal =>
      refine last_result_iff_getsReceipt fun k hmade => ?_
      cases k with
      | zero => rfl
      | succ k => exact absurd (made_succ.mp hmade).1 hfinal

/-- What a retried attempt must not do. -/
def RetriesAfterFailure (retries : ℕ) (attempts : ℕ → ClaimAttempt) : Prop :=
  ∀ k, Made retries attempts (k + 1) → (attempts k).succeeds = false

theorem noneAfterSuccess_log_iff :
    NoneAfterSuccess (sendClaimWithRetry retries attempts).log ↔
      RetriesAfterFailure retries attempts := by
  induction retries generalizing attempts with
  | zero =>
    exact iff_of_true (List.pairwise_singleton _ _) fun k hmade => absurd hmade.1 (by omega)
  | succ retries ih =>
    rw [log_succ]
    cases hretry : (attempts 0).retryable with
    | false =>
      refine iff_of_true (List.pairwise_singleton _ _) fun k hmade => ?_
      have hfirst := hmade.2 0 k.succ_pos
      rw [hretry] at hfirst
      cases hfirst
    | true =>
      simp only [if_true]
      refine List.pairwise_cons.trans ((and_congr_right fun _ => ih).trans ?_)
      constructor
      · rintro ⟨hfirst, hrest⟩ k hmade
        cases k with
        | zero =>
          exact hfirst _ (mem_log_iff.mpr ⟨0, made_zero, rfl⟩)
        | succ k => exact hrest k (made_succ.mp hmade).2
      · intro h
        refine ⟨fun _ _ => h 0 (made_succ.mpr ⟨hretry, made_zero⟩), fun k hmade => ?_⟩
        exact h (k + 1) (made_succ.mpr ⟨hretry, hmade⟩)

end Attempts

/-! ## The claims of a run -/

section Sites

variable {ρ : Type} (prover : Prover ρ) (job : QueuedJob) (elf : List UInt8)
  (answers : JobAnswers)

/-- Where the job is claimed once its input is there. -/
def pathSite (input : List UInt8) : Option ClaimSite :=
  match answers.cachedProof with
  | some _ => some .cached
  | none =>
    match prover.backends.preflight elf input with
    | .error _ => none
    | .ok preflight =>
      if preflight.strategy = .tooComplex then none
      else if (decomposedProof prover job answers elf input preflight.cycles).isSome then
        some .decomposed
      else
        match (checkProfitability prover answers).result with
        | .error _ => none
        | .ok () => if job.isPrivate then none else some .standard

/-- Where the job is claimed after the early claim. -/
def laterSite : Option ClaimSite :=
  match fetchInput job answers with
  | .error _ => none
  | .ok input => pathSite prover job elf answers input

/-- The run gets to the claim. -/
def Reached (attempts : Attempts) (site : ClaimSite) : Prop :=
  (job.isPrivate = true ∧ site = .early) ∨
    (job.isPrivate = true → GetsReceipt (MAX_RETRIES - 1) (attempts .early)) ∧
      laterSite prover job elf answers = some site

end Sites

section Runs

variable {ρ : Type} {prover : Prover ρ} {job : QueuedJob} {elf : List UInt8}
  {answers : JobAnswers} {attempts : Attempts}

theorem claimTransactions_bind {α β : Type} (x : JobRun α) (f : α → JobRun β) :
    claimTransactions attempts (x >>= f).log = claimTransactions attempts x.log ++
      match x.result with
      | .ok a => claimTransactions attempts (f a).log
      | .error _ => [] := by
  rw [Logged.log_bind, claimTransactions, List.flatMap_append]
  cases x.result <;> rfl

theorem claimTransactions_ofExcept_bind {α β : Type} (x : Except JobError α)
    (f : α → JobRun β) : claimTransactions attempts (Logged.ofExcept x >>= f).log =
      match x with
      | .ok a => claimTransactions attempts (f a).log
      | .error _ => [] := by
  rw [claimTransactions_bind]
  cases x <;> rfl

theorem claimTransactions_sendClaim (answers : JobAnswers) (site : ClaimSite) :
    claimTransactions attempts (sendClaim answers site).log = (sendAt attempts site).log := by
  rw [sendClaim, claimTransactions_bind]
  exact (List.append_nil _).trans (List.append_nil _)

theorem claimTransactions_sendClaim_bind {β : Type} (site : ClaimSite) (f : Unit → JobRun β)
    (hsilent : claimTransactions attempts (f ()).log = []) :
    claimTransactions attempts (sendClaim answers site >>= f).log = (sendAt attempts site).log := by
  rw [claimTransactions_bind, claimTransactions_sendClaim]
  cases (sendClaim answers site).result with
  | ok a => exact (congrArg _ hsilent).trans (List.append_nil _)
  | error e => exact List.append_nil _

theorem claimTransactions_sendSubmit_bind {β : Type} (path : ProofPath)
    (sealBytes journal : List UInt8) (f : Unit → JobRun β)
    (hsilent : claimTransactions attempts (f ()).log = []) :
    claimTransactions attempts (sendSubmit answers path sealBytes journal >>= f).log = [] := by
  rw [claimTransactions_bind]
  have hsubmit : claimTransactions attempts (sendSubmit answers path sealBytes journal).log = [] :=
    rfl
  rw [hsubmit, List.nil_append]
  cases (sendSubmit answers path sealBytes journal).result with
  | ok a => exact hsilent
  | error e => rfl

theorem checkProfitability_log : (checkProfitability prover answers).log = [] := by
  unfold checkProfitability
  split <;> rfl

/-- The transactions at a site, if any. -/
def transactionsAt (attempts : Attempts) (site : Option ClaimSite) : List Bool :=
  site.elim [] fun site => (sendAt attempts site).log

theorem claimTransactions_standardProof (input : List UInt8) :
    claimTransactions attempts (standardProof prover job answers elf input).log =
      match (checkProfitability prover answers).result with
      | .error _ => []
      | .ok () => transactionsAt attempts (if job.isPrivate then none else some .standard) := by
  rw [standardProof, claimTransactions_bind, checkProfitability_log]
  cases (checkProfitability prover answers).result with
  | error e => rfl
  | ok u =>
    have hprove : claimTransactions attempts
        (Logged.ofExcept (prover.backends.proveFast elf input) >>= fun proof => do
          .tell (.proofCached (cacheKey prover job) ⟨proof.sealBytes, proof.journal, proof.cycles⟩)
          sendSubmit answers .standard proof.sealBytes proof.journal
          pure (proof.cycles, input.length) : JobRun (ℕ × ℕ)).log = [] := by
      rw [claimTransactions_ofExcept_bind]
      cases prover.backends.proveFast elf input with
      | error e => rfl
      | ok proof =>
        exact claimTransactions_sendSubmit_bind .standard proof.sealBytes proof.journal _ rfl
    change claimTransactions attempts (claimPublic job answers >>= fun _ => _).log = _
    unfold claimPublic
    split
    case isTrue hprivate => exact hprove
    case isFalse hpublic => exact claimTransactions_sendClaim_bind .standard _ hprove

/-- After the early claim the job is claimed at one more site at most. -/
theorem claimTransactions_processJob :
    claimTransactions attempts (processJob prover job elf answers).log =
      claimTransactions attempts (claimPrivate job answers).log ++
        match (claimPrivate job answers).result with
        | .error _ => []
        | .ok () => transactionsAt attempts (laterSite prover job elf answers) := by
  rw [processJob, claimTransactions_bind]
  congr 1
  cases (claimPrivate job answers).result with
  | error e => rfl
  | ok u =>
    refine (claimTransactions_ofExcept_bind _ _).trans ?_
    unfold laterSite
    cases fetchInput job answers with
    | error e => rfl
    | ok input =>
      simp only [pathSite]
      cases answers.cachedProof with
      | some cached =>
        exact claimTransactions_sendClaim_bind .cached _
          (claimTransactions_sendSubmit_bind .cached cached.proof cached.journal _ rfl)
      | none =>
        refine (claimTransactions_ofExcept_bind _ _).trans ?_
        cases prover.backends.preflight elf input with
        | error e => rfl
        | ok preflight =>
          refine (claimTransactions_ofExcept_bind _ _).trans ?_
          by_cases hcomplex : preflight.strategy = .tooComplex
          · simp only [hcomplex, require, if_pos]
            rfl
          · have hrequire : require (decide (preflight.strategy ≠ .tooComplex))
                (JobError.tooComplex preflight.cycles) = .ok () :=
              require_eq_ok.mpr (decide_eq_true hcomplex)
            simp only [hrequire, if_neg hcomplex]
            cases hproof : decomposedProof prover job answers elf input preflight.cycles with
            | some found =>
              exact claimTransactions_sendClaim_bind .decomposed _
                (claimTransactions_sendSubmit_bind found.1 found.2.sealBytes found.2.journal _ rfl)
            | none =>
              refine (claimTransactions_standardProof input).trans ?_
              cases (checkProfitability prover answers).result <;> rfl

theorem claimTransactions_claimPrivate :
    claimTransactions attempts (claimPrivate job answers).log =
      if job.isPrivate then (sendAt attempts .early).log else [] := by
  unfold claimPrivate
  split
  case isTrue => exact claimTransactions_sendClaim answers .early
  case isFalse => rfl

theorem claimPrivate_result_withAttempts :
    (claimPrivate job (withAttempts attempts answers)).result =
      if job.isPrivate then (sendAt attempts .early).result else .ok () := by
  unfold claimPrivate
  split <;> rfl

theorem claimTransactions_processSingleJob (programAnswers : ProgramAnswers) :
    claimTransactions attempts
        (processSingleJob prover job programAnswers (withAttempts attempts answers)).log =
      match (loadProgram prover.computeImageId job programAnswers).result with
      | .error _ => []
      | .ok elf =>
        if job.isPrivate then
          (sendAt attempts .early).log ++
            match (sendAt attempts .early).result with
            | .error _ => []
            | .ok () => transactionsAt attempts (laterSite prover job elf answers)
        else transactionsAt attempts (laterSite prover job elf answers) := by
  have hload : claimTransactions attempts
      (loadProgram prover.computeImageId job programAnswers).log = [] := by
    unfold loadProgram
    split
    case h_1 => rfl
    case h_2 =>
      rw [claimTransactions_ofExcept_bind]
      cases fetchProgramFromRegistry prover.computeImageId job.imageId programAnswers <;> rfl
  rw [processSingleJob, claimTransactions_bind, hload, List.nil_append]
  cases (loadProgram prover.computeImageId job programAnswers).result with
  | error e => rfl
  | ok elf =>
    refine claimTransactions_processJob.trans ?_
    rw [claimTransactions_claimPrivate, claimPrivate_result_withAttempts]
    cases job.isPrivate <;> rfl

theorem noneAfterSuccess_transactionsAt {site : Option ClaimSite} :
    NoneAfterSuccess (transactionsAt attempts site) ↔
      ∀ claimed, site = some claimed →
        RetriesAfterFailure (MAX_RETRIES - 1) (attempts claimed) := by
  cases site with
  | none => exact iff_of_true List.Pairwise.nil nofun
  | some claimed =>
    refine noneAfterSuccess_log_iff.trans ⟨?_, fun h => h claimed rfl⟩
    rintro h _ ⟨⟩
    exact h

/-- Two claims of one run. -/
theorem noneAfterSuccess_append {site : Option ClaimSite} :
    NoneAfterSuccess ((sendAt attempts .early).log ++ transactionsAt attempts site) ↔
      RetriesAfterFailure (MAX_RETRIES - 1) (attempts .early) ∧
        (∀ claimed, site = some claimed →
          RetriesAfterFailure (MAX_RETRIES - 1) (attempts claimed)) ∧
        (site.isSome = true → ∀ k, Made (MAX_RETRIES - 1) (attempts .early) k →
          (attempts .early k).succeeds = false) := by
  refine List.pairwise_append.trans (and_congr noneAfterSuccess_log_iff
    (and_congr noneAfterSuccess_transactionsAt ?_))
  cases site with
  | none => exact iff_of_true nofun nofun
  | some claimed =>
    constructor
    · intro h _ k hmade
      exact h _ (mem_log_iff.mpr ⟨k, hmade, rfl⟩) _ (mem_log_iff.mpr ⟨0, made_zero, rfl⟩)
    · intro h earlier hearlier _ _
      obtain ⟨k, hmade, rfl⟩ := mem_log_iff.mp hearlier
      exact h rfl k hmade

end Runs

/-- A run sends no claim after one that has succeeded exactly when no attempt that it retries has
succeeded and, for a private job whose early claim has a receipt and which is claimed again, no
attempt of the early claim has succeeded. -/
theorem no_claim_after_success_iff {ρ : Type} (prover : Prover ρ) (job : QueuedJob)
    (programAnswers : ProgramAnswers) (answers : JobAnswers) (attempts : Attempts) :
    NoneAfterSuccess (claimTransactions attempts
        (processSingleJob prover job programAnswers (withAttempts attempts answers)).log) ↔
      ∀ elf, (loadProgram prover.computeImageId job programAnswers).result = .ok elf →
        (∀ site, Reached prover job elf answers attempts site →
          RetriesAfterFailure (MAX_RETRIES - 1) (attempts site)) ∧
        (job.isPrivate = true → GetsReceipt (MAX_RETRIES - 1) (attempts .early) →
          (laterSite prover job elf answers).isSome = true →
          ∀ k, Made (MAX_RETRIES - 1) (attempts .early) k →
            (attempts .early k).succeeds = false) := by
  rw [claimTransactions_processSingleJob]
  cases (loadProgram prover.computeImageId job programAnswers).result with
  | error e => exact iff_of_true List.Pairwise.nil nofun
  | ok elf =>
    refine Iff.trans ?_ ⟨fun h _ helf => Except.ok.inj helf ▸ h, fun h => h elf rfl⟩
    cases hprivate : job.isPrivate with
    | false =>
      refine noneAfterSuccess_transactionsAt.trans ⟨fun h => ⟨?_, nofun⟩, fun h site hsite => ?_⟩
      · rintro site (⟨hearly, -⟩ | ⟨-, hsite⟩)
        · rw [hprivate] at hearly
          cases hearly
        · exact h site hsite
      · exact h.1 site (.inr ⟨fun hearly => absurd (hprivate.symm.trans hearly) nofun, hsite⟩)
    | true =>
      cases hresult : (sendAt attempts .early).result with
      | error e =>
        have hnot : ¬ GetsReceipt (MAX_RETRIES - 1) (attempts .early) := fun hreceipt => by
          rw [sendAt, result_iff.mpr hreceipt] at hresult
          cases hresult
        simp only [if_pos, List.append_nil]
        refine noneAfterSuccess_log_iff.trans
          ⟨fun h => ⟨?_, fun _ hreceipt => absurd hreceipt hnot⟩, fun h => ?_⟩
        · rintro site (⟨-, rfl⟩ | ⟨hreceipt, -⟩)
          · exact h
          · exact absurd (hreceipt hprivate) hnot
        · exact h.1 .early (.inl ⟨hprivate, rfl⟩)
      | ok u =>
        have hreceipt : GetsReceipt (MAX_RETRIES - 1) (attempts .early) := result_iff.mp hresult
        simp only [if_pos]
        refine noneAfterSuccess_append.trans ⟨?_, ?_⟩
        · rintro ⟨hearly, hlater, hnone⟩
          refine ⟨?_, fun _ _ => hnone⟩
          rintro site (⟨-, rfl⟩ | ⟨-, hsite⟩)
          · exact hearly
          · exact hlater site hsite
        · rintro ⟨hreached, hnone⟩
          exact ⟨hreached .early (.inl ⟨hprivate, rfl⟩),
            fun site hsite => hreached site (.inr ⟨fun _ => hreceipt, hsite⟩),
            hnone trivial hreceipt⟩

/-! ## A private job with a cached proof -/

def privateJob : QueuedJob := ⟨1, [], Sha256.sha256 [], 1⟩

/-- A prover that can prove nothing by itself. -/
def idleProver : Prover Unit where
  config := ⟨false, false⟩
  backends :=
    { preflight := fun _ _ => .error .external
      proveFast := fun _ _ => .error .external
      proveWithReceipt := fun _ _ _ => .error .subProof
      proveWrapper := fun _ _ _ => none
      receipts := ⟨fun _ => [], fun _ => none⟩ }
  strategies := fun _ => none
  computeImageId := .ok

def cachedAnswers : JobAnswers where
  hasSigner := true
  privateInput := .ok []
  prefetched := none
  fetchedInput := .error .external
  cachedProof := some ⟨[], [], 1⟩
  claim := fun _ => .ok ()
  submit := .ok ()
  wrapperElf := none
  profitable := .ok true

/-- The first claim succeeds, and the chain refuses the second. -/
def refusedAttempts : Attempts
  | .early, _ => ⟨.receipt, true⟩
  | _, _ => ⟨.failed "execution reverted: not pending".toList false, false⟩

/-- The job is claimed again on the path of the cached proof. -/
theorem claimed_again_with_cached_proof :
    claimTransactions refusedAttempts (processSingleJob idleProver privateJob
        ⟨some [], none, none⟩ (withAttempts refusedAttempts cachedAnswers)).log = [true, false] ∧
    ¬ NoneAfterSuccess (claimTransactions refusedAttempts (processSingleJob idleProver privateJob
        ⟨some [], none, none⟩ (withAttempts refusedAttempts cachedAnswers)).log) := by
  have htransactions : claimTransactions refusedAttempts (processSingleJob idleProver privateJob
      ⟨some [], none, none⟩ (withAttempts refusedAttempts cachedAnswers)).log = [true, false] := by
    decide +kernel
  refine ⟨htransactions, ?_⟩
  rw [htransactions]
  exact fun h => absurd (List.pairwise_cons.mp h).1 (by decide)

end WorldZk.ClaimTransactions
