import WorldZk.ProverJobs

/-!
# What the prover submits

A pair is submitted for a job when its seal proves its journal for the job's image and the journal
is the guest's output on the whole input. The standard path and the cache keep this over all runs,
as long as the programs have the image ids that they are loaded for. The wrapper path breaks it: it
puts the seal of the first part beside the merged journal.
-/

namespace WorldZk.SubmittedProofs

open CheckedRuns InputDecomposition LoggedRuns ProverJobs RecursiveWrapper StepRuns XGBoostGuest

section Submitted

variable {ρ : Type} (prover : Prover ρ)
  -- The output of the program with an image id on an input.
  (guest : List UInt8 → List UInt8 → Option (List UInt8))
  -- The seal proves, for an image id, exactly a journal.
  (Proves : List UInt8 → List UInt8 → List UInt8 → Prop)

/-- What the backends return: a seal that proves the journal they return, for the image and the
input given to them. -/
structure SoundBackends : Prop where
  fast : ∀ elf input proof imageId, prover.backends.proveFast elf input = .ok proof →
    prover.computeImageId elf = .ok imageId →
      Proves proof.sealBytes imageId proof.journal ∧ guest imageId input = some proof.journal
  receipt : ∀ elf i input proof receipt imageId,
    prover.backends.proveWithReceipt elf i input = .ok (proof, receipt) →
      prover.computeImageId elf = .ok imageId →
        Proves proof.sealBytes imageId proof.journal ∧ guest imageId input = some proof.journal ∧
          prover.backends.receipts.journal receipt = proof.journal ∧
          prover.backends.receipts.extractSeal receipt = some proof.sealBytes

/-- The journal is the guest's output on the input with the digest. -/
def IsOutput (imageId inputHash journal : List UInt8) : Prop :=
  ∃ input, Sha256.sha256 input = inputHash ∧ guest imageId input = some journal

/-- The seal proves the journal for the job's image, or on the wrapper path for the wrapper's, and
the journal is the guest's output on the job's input. -/
def Matching (submission : Submission) : Prop :=
  (Proves submission.sealBytes submission.job.imageId submission.journal ∨
    submission.path = .wrapped ∧ ∃ elf imageId, submission.wrapperElf = some elf ∧
      prover.computeImageId elf = .ok imageId ∧
        Proves submission.sealBytes imageId submission.journal) ∧
    IsOutput guest submission.job.imageId submission.job.inputHash submission.journal

/-! ## What a step needs -/

/-- The input is decomposed, and the recursive wrapper takes the parts. -/
def WrapsParts (job : QueuedJob) (answers : JobAnswers) (elf input : List UInt8) (cycles : ℕ) :
    Prop :=
  ∃ strategy decomposed wrapped, prover.strategies job.imageId = some strategy ∧
    DECOMP_THRESHOLD_CYCLES < cycles ∧ strategy.canDecompose input = true ∧
      proveDecomposed DecomposerConfig.default strategy (prover.backends.proveWithReceipt elf)
        input = .ok decomposed ∧
      tryRecursiveWrap prover job answers strategy decomposed = .ok wrapped

/-- The job goes through the recursive wrapper. -/
def WrapSucceeds (job : QueuedJob) (elf : List UInt8) (answers : JobAnswers) : Prop :=
  answers.cachedProof = none ∧ ∃ input preflight, fetchInput job answers = .ok input ∧
    prover.backends.preflight elf input = .ok preflight ∧
      WrapsParts prover job answers elf input preflight.cycles

/-- A local program file has the image id that it is named after, and the wrapper path is not
taken. -/
def Regular (s : ProverState) : ProverAction → Prop
  | .load _ job answers => answers.cached = none →
    ∀ elf, answers.localFile = some (.ok elf) → prover.computeImageId elf = .ok job.imageId
  | .process task answers => ∀ job elf, s.loaded task = some (job, elf) →
    ¬WrapSucceeds prover job elf answers

/-! ## What the caches hold -/

structure SoundState (s : ProverState) : Prop where
  loaded : ∀ task job elf, s.loaded task = some (job, elf) →
    prover.computeImageId elf = .ok job.imageId
  programs : ∀ p ∈ s.programs, prover.computeImageId p.2 = .ok p.1
  proofs : ∀ p ∈ s.proofs, Proves p.2.proof p.1.imageId p.2.journal ∧
    IsOutput guest p.1.imageId p.1.inputHash p.2.journal
  submissions : ∀ submission ∈ s.submissions, Matching prover guest Proves submission

/-- What the entries of a log may do to a sound state. -/
def EventOk (job : QueuedJob) (wrapperElf : Option (List UInt8)) : JobEvent → Prop
  | .claim _ _ => True
  | .programCached imageId elf => prover.computeImageId elf = .ok imageId
  | .proofCached key proof => Proves proof.proof key.imageId proof.journal ∧
    IsOutput guest key.imageId key.inputHash proof.journal
  | .submit path sealBytes journal =>
    Matching prover guest Proves ⟨job, wrapperElf, path, sealBytes, journal⟩

variable {prover guest Proves} {s t : ProverState} {job : QueuedJob} {elf input : List UInt8}
  {answers : JobAnswers} {wrapperElf : Option (List UInt8)} {path : ProofPath}
  {proof : ProofResult} {cycles : ℕ}

theorem SoundState.applyEvent {event : JobEvent} (hs : SoundState prover guest Proves s)
    (h : EventOk prover guest Proves job wrapperElf event) :
    SoundState prover guest Proves (applyEvent job wrapperElf s event) := by
  cases event with
  | claim site succeeded => exact hs
  | programCached imageId elf =>
    refine ⟨hs.loaded, fun p hp => ?_, hs.proofs, hs.submissions⟩
    rcases List.mem_append.mp hp with hp | hp
    · exact hs.programs p hp
    · obtain rfl := List.mem_singleton.mp hp
      exact h
  | proofCached key proof =>
    refine ⟨hs.loaded, hs.programs, fun p hp => ?_, hs.submissions⟩
    rcases List.mem_append.mp hp with hp | hp
    · exact hs.proofs p hp
    · obtain rfl := List.mem_singleton.mp hp
      exact h
  | submit path sealBytes journal =>
    refine ⟨hs.loaded, hs.programs, hs.proofs, fun submission hsubmission => ?_⟩
    rcases List.mem_append.mp hsubmission with hsubmission | hsubmission
    · exact hs.submissions submission hsubmission
    · obtain rfl := List.mem_singleton.mp hsubmission
      exact h

theorem SoundState.applyLog {log : List JobEvent} (hs : SoundState prover guest Proves s)
    (h : ∀ event ∈ log, EventOk prover guest Proves job wrapperElf event) :
    SoundState prover guest Proves (log.foldl (ProverJobs.applyEvent job wrapperElf) s) := by
  induction log generalizing s with
  | nil => exact hs
  | cons event log ih =>
    obtain ⟨hevent, hlog⟩ := List.forall_mem_cons.mp h
    exact ih (hs.applyEvent hevent) hlog

theorem SoundState.setLoaded {loaded : ℕ → Option (QueuedJob × List UInt8)}
    (hs : SoundState prover guest Proves s)
    (h : ∀ task job elf, loaded task = some (job, elf) →
      prover.computeImageId elf = .ok job.imageId) :
    SoundState prover guest Proves { s with loaded := loaded } :=
  ⟨h, hs.programs, hs.proofs, hs.submissions⟩

theorem loaded_foldl (log : List JobEvent) :
    (log.foldl (applyEvent job wrapperElf) s).loaded = s.loaded := by
  induction log generalizing s with
  | nil => rfl
  | cons event log ih =>
    rw [List.foldl_cons, ih]
    cases event <;> rfl

/-! ## The steps -/

theorem fetchProgram_imageId {programAnswers : ProgramAnswers}
    (hlocal : ∀ elf, programAnswers.localFile = some (.ok elf) →
      prover.computeImageId elf = .ok job.imageId)
    (h : fetchProgramFromRegistry prover.computeImageId job.imageId programAnswers = .ok elf) :
    prover.computeImageId elf = .ok job.imageId := by
  unfold fetchProgramFromRegistry at h
  split at h
  case h_1 file hfile => exact hlocal elf (hfile.trans (congrArg some h))
  case h_2 =>
    split at h
    case h_1 => cases h
    case h_2 found =>
      simp only [bind_eq_ok, require_eq_ok, beq_iff_eq, pure_eq_ok] at h
      obtain ⟨program, -, _, -, _, -, elf, -, imageId, himageId, _, rfl, rfl⟩ := h
      exact himageId

theorem loadProgram_logs {programAnswers : ProgramAnswers}
    (hs : SoundState prover guest Proves s)
    (hlocal : programAnswers.cached = none → ∀ elf, programAnswers.localFile = some (.ok elf) →
      prover.computeImageId elf = .ok job.imageId)
    (hcached : ∀ elf ∈ programAnswers.cached, (job.imageId, elf) ∈ s.programs) :
    Logged.Logs (EventOk prover guest Proves job none)
      (fun elf => prover.computeImageId elf = .ok job.imageId)
      (loadProgram prover.computeImageId job programAnswers) := by
  unfold loadProgram
  split
  case h_1 elf helf => exact Logged.logs_pure (hs.programs _ (hcached elf helf))
  case h_2 hnone =>
    refine (Logged.logs_ofExcept fun elf h => fetchProgram_imageId (hlocal hnone) h).bind
      fun elf helf => ?_
    have htell : Logged.Logs (EventOk prover guest Proves job none) (fun _ => True)
        (.tell (.programCached job.imageId elf) : JobRun Unit) := Logged.logs_tell helf
    exact htell.bind fun _ _ => Logged.logs_pure helf

theorem fetchInput_digest (h : fetchInput job answers = .ok input) :
    Sha256.sha256 input = job.inputHash := by
  have hdigest {x : List UInt8} (h : checkDigest job x = .ok input) :
      Sha256.sha256 input = job.inputHash := by
    simp only [checkDigest, bind_eq_ok, require_eq_ok, beq_iff_eq, pure_eq_ok] at h
    obtain ⟨_, hx, rfl⟩ := h
    exact hx
  unfold fetchInput at h
  split at h
  case isTrue =>
    simp only [bind_eq_ok] at h
    obtain ⟨_, -, x, -, h⟩ := h
    exact hdigest h
  case isFalse =>
    split at h
    case h_1 data hdata =>
      obtain rfl := pure_eq_ok.mp h
      unfold getPrefetched at hdata
      split at hdata
      case h_1 entry _ =>
        split at hdata
        case isTrue hhash =>
          cases hdata
          exact entry.hash_eq.trans hhash
        case isFalse => cases hdata
      case h_2 => cases hdata
    case h_2 =>
      simp only [bind_eq_ok] at h
      obtain ⟨x, -, h⟩ := h
      exact hdigest h

/-- A decomposed run has two parts at least. -/
theorem one_lt_subJobCount {strategy : DecompositionStrategy}
    {prove : ℕ → List UInt8 → Except DecompError (ProofResult × ρ)} {config : DecomposerConfig}
    {d : DecomposedReceipts ρ} (h : proveDecomposed config strategy prove input = .ok d) :
    1 < d.subJobCount := by
  simp only [proveDecomposed, bind_eq_ok, require_eq_ok, decide_eq_true_eq, pure_eq_ok] at h
  obtain ⟨_, -, n, -, _, hn, _, -, _, -, _, -, rfl⟩ := h
  exact hn

theorem decomposedProof_eq_some
    (h : decomposedProof prover job answers elf input cycles = some (path, proof)) :
    WrapsParts prover job answers elf input cycles := by
  unfold decomposedProof at h
  obtain ⟨strategy, hstrategy, h⟩ := Option.bind_eq_some_iff.mp h
  split at h
  case isTrue hlarge =>
    split at h
    case h_1 => cases h
    case h_2 decomposed hdecomposed =>
      split at h
      case h_1 wrapped hwrapped =>
        exact ⟨strategy, decomposed, wrapped, hstrategy, hlarge.1, hlarge.2, hdecomposed, hwrapped⟩
      case h_2 =>
        rw [if_neg (one_lt_subJobCount hdecomposed).ne'] at h
        cases h
  case isFalse => cases h

theorem sendClaim_logs (site : ClaimSite) :
    Logged.Logs (EventOk prover guest Proves job wrapperElf) (fun _ => True)
      (sendClaim answers site) := by
  have htell : Logged.Logs (EventOk prover guest Proves job wrapperElf) (fun _ => True)
      (.tell (.claim site (okAnd (answers.claim site) fun _ => true)) : JobRun Unit) :=
    Logged.logs_tell trivial
  exact htell.bind fun _ _ => Logged.logs_ofExcept fun _ _ => trivial

theorem sendSubmit_logs {sealBytes journal : List UInt8}
    (h : Matching prover guest Proves ⟨job, wrapperElf, path, sealBytes, journal⟩) :
    Logged.Logs (EventOk prover guest Proves job wrapperElf) (fun _ => True)
      (sendSubmit answers path sealBytes journal) := by
  have htell : Logged.Logs (EventOk prover guest Proves job wrapperElf) (fun _ => True)
      (.tell (.submit path sealBytes journal) : JobRun Unit) := Logged.logs_tell h
  exact htell.bind fun _ _ => Logged.logs_ofExcept fun _ _ => trivial

/-- The standard prover submits what the backend has returned, and keeps it in the cache. -/
theorem standardProof_logs (hbackends : SoundBackends prover guest Proves)
    (himage : prover.computeImageId elf = .ok job.imageId)
    (hdigest : Sha256.sha256 input = job.inputHash) :
    Logged.Logs (EventOk prover guest Proves job wrapperElf) (fun _ => True)
      (standardProof prover job answers elf input) := by
  have hproof : Logged.Logs (EventOk prover guest Proves job wrapperElf)
      (fun proof => Proves proof.sealBytes job.imageId proof.journal ∧
        IsOutput guest job.imageId job.inputHash proof.journal)
      (.ofExcept (prover.backends.proveFast elf input) : JobRun ProofResult) := by
    refine Logged.logs_ofExcept fun proof h => ?_
    obtain ⟨hproves, houtput⟩ := hbackends.fast elf input proof job.imageId h himage
    exact ⟨hproves, input, hdigest, houtput⟩
  have hsubmit (proof : ProofResult) (h : Proves proof.sealBytes job.imageId proof.journal ∧
      IsOutput guest job.imageId job.inputHash proof.journal) :
      Logged.Logs (EventOk prover guest Proves job wrapperElf) (fun _ => True) (do
        .tell (.proofCached (cacheKey prover job) ⟨proof.sealBytes, proof.journal, proof.cycles⟩)
        sendSubmit answers .standard proof.sealBytes proof.journal
        pure (proof.cycles, input.length) : JobRun (ℕ × ℕ)) := by
    have hcached : Logged.Logs (EventOk prover guest Proves job wrapperElf) (fun _ => True)
        (.tell (.proofCached (cacheKey prover job)
          ⟨proof.sealBytes, proof.journal, proof.cycles⟩) : JobRun Unit) := Logged.logs_tell h
    exact hcached.bind fun _ _ => (sendSubmit_logs ⟨.inl h.1, h.2⟩).bind fun _ _ =>
      Logged.logs_pure trivial
  have hprofitable : Logged.Logs (EventOk prover guest Proves job wrapperElf) (fun _ => True)
      (checkProfitability prover answers) := by
    unfold checkProfitability
    split
    case isTrue => exact Logged.logs_pure trivial
    case isFalse => exact Logged.logs_ofExcept fun _ _ => trivial
  have hclaim : Logged.Logs (EventOk prover guest Proves job wrapperElf) (fun _ => True)
      (claimPublic job answers) := by
    unfold claimPublic
    split
    case isTrue => exact Logged.logs_pure trivial
    case isFalse => exact sendClaim_logs .standard
  exact hprofitable.bind fun _ _ => hclaim.bind fun _ _ => hproof.bind hsubmit

theorem processJob_logs (hbackends : SoundBackends prover guest Proves)
    (hs : SoundState prover guest Proves s)
    (himage : prover.computeImageId elf = .ok job.imageId)
    (hcached : ∀ proof ∈ answers.cachedProof, (cacheKey prover job, proof) ∈ s.proofs)
    (hwrap : ¬WrapSucceeds prover job elf answers) :
    Logged.Logs (EventOk prover guest Proves job wrapperElf) (fun _ => True)
      (processJob prover job elf answers) := by
  have hclaim : Logged.Logs (EventOk prover guest Proves job wrapperElf) (fun _ => True)
      (claimPrivate job answers) := by
    unfold claimPrivate
    split
    case isTrue => exact sendClaim_logs .early
    case isFalse => exact Logged.logs_pure trivial
  have hfetch : Logged.Logs (EventOk prover guest Proves job wrapperElf)
      (fun input => fetchInput job answers = .ok input)
      (.ofExcept (fetchInput job answers) : JobRun (List UInt8)) :=
    Logged.logs_ofExcept fun _ h => h
  refine hclaim.bind fun _ _ => hfetch.bind fun input hinput => ?_
  split
  case h_1 cached hcachedProof =>
    obtain ⟨hproves, houtput⟩ := hs.proofs _ (hcached cached hcachedProof)
    exact (sendClaim_logs .cached).bind fun _ _ =>
      (sendSubmit_logs ⟨.inl hproves, houtput⟩).bind fun _ _ => Logged.logs_pure trivial
  case h_2 hmiss =>
    have hpreflight : Logged.Logs (EventOk prover guest Proves job wrapperElf)
        (fun preflight => prover.backends.preflight elf input = .ok preflight)
        (.ofExcept (prover.backends.preflight elf input) : JobRun PreflightResult) :=
      Logged.logs_ofExcept fun _ h => h
    refine hpreflight.bind fun preflight hcycles => ?_
    refine (Logged.logs_ofExcept fun _ _ => trivial).bind fun _ _ => ?_
    split
    case h_1 hproof =>
      exact absurd ⟨hmiss, input, preflight, hinput, hcycles, decomposedProof_eq_some hproof⟩ hwrap
    case h_2 => exact standardProof_logs hbackends himage (fetchInput_digest hinput)

/-! ## Runs -/

theorem SoundState.start : SoundState prover guest Proves .start where
  loaded := fun _ _ _ h => by cases h
  programs := fun _ h => by cases h
  proofs := fun _ h => by cases h
  submissions := fun _ h => by cases h

theorem SoundState.step {action : ProverAction} (hbackends : SoundBackends prover guest Proves)
    (hs : SoundState prover guest Proves s) (hregular : Regular prover s action)
    (h : step prover s action = some t) : SoundState prover guest Proves t := by
  cases action with
  | load task job answers =>
    simp only [ProverJobs.step] at h
    split at h
    case isFalse => cases h
    case isTrue hcached =>
      have hlogs := loadProgram_logs hs hregular hcached
      have happlied := hs.applyLog hlogs.log
      split at h
      case h_1 elf hresult =>
        cases h
        refine happlied.setLoaded fun task' job' elf' hloaded => ?_
        rw [loaded_foldl, Function.update_apply] at hloaded
        split at hloaded
        case isTrue =>
          cases hloaded
          exact hlogs.result elf hresult
        case isFalse => exact hs.loaded task' job' elf' hloaded
      case h_2 =>
        cases h
        exact happlied
  | process task answers =>
    simp only [ProverJobs.step] at h
    split at h
    case h_1 => cases h
    case h_2 job elf htask =>
      split at h
      case isFalse => cases h
      case isTrue hcached =>
        cases h
        have hlogs : Logged.Logs (EventOk prover guest Proves job answers.wrapperElf)
            (fun _ => True) (processJob prover job elf answers) :=
          processJob_logs hbackends hs (hs.loaded task job elf htask) hcached
            (hregular job elf htask)
        refine (hs.applyLog hlogs.log).setLoaded fun task' job' elf' hloaded => ?_
        rw [loaded_foldl, Function.update_apply] at hloaded
        split at hloaded
        case isTrue => cases hloaded
        case isFalse => exact hs.loaded task' job' elf' hloaded

/-- As long as the programs have the image ids that they are loaded for and nothing is wrapped,
every pair that is submitted matches. -/
theorem submissions_matching {actions : List ProverAction}
    (hbackends : SoundBackends prover guest Proves)
    (hregular : Meets (ProverJobs.step prover) (Regular prover) .start actions)
    (hrun : runSteps (ProverJobs.step prover) .start actions = some s) :
    ∀ submission ∈ s.submissions, Matching prover guest Proves submission := by
  have hsound := runSteps_invariant
    (fun _ _ _ hs hok hstep => SoundState.step hbackends hs hok hstep) SoundState.start hregular
    hrun
  exact hsound.submissions

/-! ## What the wrapper path submits -/

/-- What the wrapper path submits begins with the seal of the first part. -/
theorem firstSubSeal_proves {strategy : DecompositionStrategy} {decomposed : DecomposedReceipts ρ}
    {wrapped : RecursiveWrapResult} (hbackends : SoundBackends prover guest Proves)
    (himage : prover.computeImageId elf = .ok job.imageId)
    (hdecomposed : proveDecomposed DecomposerConfig.default strategy
      (prover.backends.proveWithReceipt elf) input = .ok decomposed)
    (hwrapped : tryRecursiveWrap prover job answers strategy decomposed = .ok wrapped) :
    Proves wrapped.firstSubSeal job.imageId wrapped.firstSubJournal := by
  simp only [proveDecomposed, bind_eq_ok, pure_eq_ok] at hdecomposed
  obtain ⟨_, -, _, -, _, -, subInputs, -, results, hresults, _, -, rfl⟩ := hdecomposed
  have hparts := mapM_forall hresults (P := fun result =>
    Proves result.1.sealBytes job.imageId result.1.journal ∧
      prover.backends.receipts.journal result.2 = result.1.journal ∧
      prover.backends.receipts.extractSeal result.2 = some result.1.sealBytes)
    fun x result _ h => by
      obtain ⟨hproves, -, hreceipt⟩ := hbackends.receipt elf x.2 x.1 _ _ job.imageId h himage
      exact ⟨hproves, hreceipt⟩
  simp only [tryRecursiveWrap, bind_eq_ok] at hwrapped
  obtain ⟨wrapperElf, -, hwrap⟩ := hwrapped
  cases results with
  | nil => cases hwrap
  | cons first rest =>
    obtain ⟨hproves, hjournal, hseal⟩ := hparts first List.mem_cons_self
    simp only [wrap, List.map_cons, bind_eq_ok, pure_eq_ok, okOr_eq_ok] at hwrap
    obtain ⟨_, -, firstSubSeal, hfirst, input, -, receipt, -, wrapperSeal, -, rfl⟩ := hwrap
    rw [hseal] at hfirst
    obtain rfl := Option.some.inj hfirst
    rw [hjournal]
    exact hproves

/-- The wrapper's pair matches only when the merged journal is the journal of the first part. -/
theorem mergedJournal_eq_of_matching {wrapped : RecursiveWrapResult}
    (hexact : ∀ sealBytes imageId journal imageId' journal', Proves sealBytes imageId journal →
      Proves sealBytes imageId' journal' → journal = journal')
    (hfirst : Proves wrapped.firstSubSeal job.imageId wrapped.firstSubJournal)
    (hmatching : Matching prover guest Proves
      ⟨job, wrapperElf, path, wrapped.firstSubSeal, wrapped.mergedJournal⟩) :
    wrapped.mergedJournal = wrapped.firstSubJournal := by
  rcases hmatching.1 with hproves | ⟨-, _, _, -, -, hproves⟩
  · exact hexact _ _ _ _ _ hproves hfirst
  · exact hexact _ _ _ _ _ hproves hfirst

/-- A run that is wrapped submits the first seal with the merged journal. -/
theorem wrapped_mem_log {strategy : DecompositionStrategy} {decomposed : DecomposedReceipts ρ}
    {wrapped : RecursiveWrapResult} {preflight : PreflightResult}
    (hclaim : ∀ site, answers.claim site = .ok ()) (hmiss : answers.cachedProof = none)
    (hinput : fetchInput job answers = .ok input)
    (hpreflight : prover.backends.preflight elf input = .ok preflight)
    (hcomplex : preflight.strategy ≠ .tooComplex)
    (hstrategy : prover.strategies job.imageId = some strategy)
    (hlarge : DECOMP_THRESHOLD_CYCLES < preflight.cycles)
    (hcan : strategy.canDecompose input = true)
    (hdecomposed : proveDecomposed DecomposerConfig.default strategy
      (prover.backends.proveWithReceipt elf) input = .ok decomposed)
    (hwrapped : tryRecursiveWrap prover job answers strategy decomposed = .ok wrapped) :
    .submit .wrapped wrapped.firstSubSeal wrapped.mergedJournal ∈
      (processJob prover job elf answers).log := by
  have hproof : decomposedProof prover job answers elf input preflight.cycles =
      some (.wrapped, ⟨wrapped.firstSubSeal, wrapped.mergedJournal, decomposed.totalCycles⟩) := by
    simp only [decomposedProof, hstrategy, hdecomposed, hwrapped, bind, Option.bind,
      if_pos (And.intro hlarge hcan)]
  have hallowed : require (decide (preflight.strategy ≠ .tooComplex))
      (JobError.tooComplex preflight.cycles) = .ok () :=
    require_eq_ok.mpr (decide_eq_true hcomplex)
  refine Logged.mem_log_bind (claimPrivate_result hclaim) (Logged.mem_log_bind hinput ?_)
  rw [hmiss]
  refine Logged.mem_log_bind hpreflight (Logged.mem_log_bind hallowed ?_)
  rw [hproof]
  exact Logged.mem_log_bind (sendClaim_result (hclaim .decomposed))
    (Logged.mem_log_bind_left (Logged.mem_log_bind_left List.mem_cons_self))

/-- A run that is not decomposed submits what the standard prover returns. -/
theorem standard_mem_log {preflight : PreflightResult} {proof : ProofResult}
    (hskip : prover.config.skipProfitabilityCheck = true)
    (hclaim : ∀ site, answers.claim site = .ok ()) (hmiss : answers.cachedProof = none)
    (hinput : fetchInput job answers = .ok input)
    (hpreflight : prover.backends.preflight elf input = .ok preflight)
    (hcomplex : preflight.strategy ≠ .tooComplex)
    (hnone : decomposedProof prover job answers elf input preflight.cycles = none)
    (hproof : prover.backends.proveFast elf input = .ok proof) :
    .submit .standard proof.sealBytes proof.journal ∈ (processJob prover job elf answers).log := by
  have hallowed : require (decide (preflight.strategy ≠ .tooComplex))
      (JobError.tooComplex preflight.cycles) = .ok () :=
    require_eq_ok.mpr (decide_eq_true hcomplex)
  have hprofitable : (checkProfitability prover answers).result = .ok () := by
    rw [checkProfitability, if_pos hskip]
    rfl
  refine Logged.mem_log_bind (claimPrivate_result hclaim) (Logged.mem_log_bind hinput ?_)
  rw [hmiss]
  refine Logged.mem_log_bind hpreflight (Logged.mem_log_bind hallowed ?_)
  rw [hnone]
  refine Logged.mem_log_bind hprofitable (Logged.mem_log_bind
    (claimPublic_result hclaim) (Logged.mem_log_bind hproof (Logged.mem_log_bind (a := ()) rfl ?_)))
  exact Logged.mem_log_bind_left (Logged.mem_log_bind_left List.mem_cons_self)

end Submitted

/-! ## Thirty-three samples in two parts -/

/-- The samples of an input, behind a model whose trees are empty: its scores are the base score,
which stays under the threshold. -/
def batchInput (count : ℕ) : XGBoostInput :=
  ⟨⟨1, 1, 0x3FE0000000000000, .replicate 1075 ⟨[]⟩⟩, .replicate count ⟨.replicate 32 7, []⟩,
    0x3FE6666666666666⟩

def batchBytes (count : ℕ) : List UInt8 := inputFormat.serialize (batchInput count)

/-- What the guest program commits for such a model. -/
def emptyTreesOutput (input : XGBoostInput) : XGBoostOutput :=
  ⟨UInt32.ofNat input.samples.length,
    input.samples.map fun sample => ⟨sample.id, input.model.baseScore, 0⟩, 0, [],
    ⟨⟨computeInputHash input⟩, length_computeInputHash input⟩⟩

def sampleGuest (_ input : List UInt8) : Option (List UInt8) :=
  (inputFormat.deserialize input).map fun parsed =>
    outputFormat.serialize (emptyTreesOutput parsed)

/-- The seal of a sample proof is the image id and the journal. -/
def sampleProves (sealBytes imageId journal : List UInt8) : Prop :=
  imageId.length = 32 ∧ sealBytes = imageId ++ journal

def sampleProve (elf input : List UInt8) : Option ProofResult :=
  if elf.length = 32 then
    (sampleGuest elf input).map fun journal => ⟨elf ++ journal, journal, 21000000⟩
  else none

/-- A prover with the registered strategy, whose programs are their image ids. -/
def sampleProver : Prover ProofResult where
  config := ⟨false, true⟩
  backends :=
    { preflight := fun _ _ => .ok ⟨21000000, .segmented 2⟩
      proveFast := fun elf input => okOr .external (sampleProve elf input)
      proveWithReceipt := fun elf _ input =>
        (fun proof => (proof, proof)) <$> okOr .subProof (sampleProve elf input)
      proveWrapper := fun elf input _ => some ⟨elf ++ input.mergedJournal, input.mergedJournal, 0⟩
      receipts := ⟨ProofResult.journal, fun proof => some proof.sealBytes⟩ }
  strategies := strategyRegistry
  computeImageId := .ok

theorem sampleProve_eq_some {elf input imageId : List UInt8} {proof : ProofResult}
    (h : sampleProve elf input = some proof)
    (himage : sampleProver.computeImageId elf = .ok imageId) :
    sampleProves proof.sealBytes imageId proof.journal ∧
      sampleGuest imageId input = some proof.journal := by
  obtain rfl := Except.ok.inj himage
  unfold sampleProve at h
  split at h
  case isTrue hlength =>
    obtain ⟨journal, hjournal, rfl⟩ := Option.map_eq_some_iff.mp h
    exact ⟨⟨hlength, rfl⟩, hjournal⟩
  case isFalse => cases h

theorem sampleProver_sound : SoundBackends sampleProver sampleGuest sampleProves where
  fast := fun _ _ _ _ h himage => sampleProve_eq_some (okOr_eq_ok.mp h) himage
  receipt := by
    intro elf i input proof receipt imageId h himage
    obtain ⟨proof', hproof, hpair⟩ := map_eq_ok.mp h
    obtain ⟨rfl, rfl⟩ := Prod.mk.inj hpair
    obtain ⟨hproves, houtput⟩ := sampleProve_eq_some (okOr_eq_ok.mp hproof) himage
    exact ⟨hproves, houtput, rfl, rfl⟩

theorem sampleProves_exact (sealBytes imageId journal imageId' journal' : List UInt8)
    (h : sampleProves sealBytes imageId journal) (h' : sampleProves sealBytes imageId' journal') :
    journal = journal' := by
  have hlength : imageId.length = imageId'.length := h.1.trans h'.1.symm
  exact (List.append_inj (h.2.symm.trans h'.2) hlength).2

theorem fits_batchInput {count : ℕ} (hcount : count < 2 ^ 32) :
    inputFormat.Fits (batchInput count) := by
  refine ⟨⟨trivial, trivial, trivial, ?_, ?_⟩, ⟨?_, ?_⟩, trivial⟩
  · change (List.replicate 1075 _).length < _
    rw [List.length_replicate]
    omega
  · intro tree htree
    obtain rfl := List.eq_of_mem_replicate htree
    exact ⟨by decide, fun _ h => by cases h⟩
  · change (List.replicate count _).length < _
    rwa [List.length_replicate]
  · intro sample hsample
    obtain rfl := List.eq_of_mem_replicate hsample
    exact ⟨fun _ _ => trivial, by decide, fun _ h => by cases h⟩

theorem deserialize_batchBytes {count : ℕ} (hcount : count < 2 ^ 32) :
    inputFormat.deserialize (batchBytes count) = some (batchInput count) :=
  inputFormat.deserialize_serialize (fits_batchInput hcount)

theorem fits_emptyTreesOutput {input : XGBoostInput} (h : input.samples.length < 2 ^ 32) :
    outputFormat.Fits (emptyTreesOutput input) := by
  refine ⟨trivial, ⟨?_, ?_⟩, trivial, ⟨Nat.two_pow_pos 32, fun _ h => by cases h⟩,
    fun _ _ => trivial⟩
  · change (List.map _ _).length < _
    rwa [List.length_map]
  · exact fun _ _ => ⟨fun _ _ => trivial, trivial, trivial⟩

theorem length_batchBytes : (batchBytes 33).length = 8688 := by
  rw [batchBytes, WordSerde.Format.length_serialize]
  decide +kernel

theorem tryParse_batchBytes {count : ℕ} (hcount : count < 2 ^ 32) :
    tryParse (batchBytes count) = .ok (batchInput count) := by
  rw [tryParse, deserialize_batchBytes hcount]
  rfl

theorem planSplit_batchBytes :
    planSplit DecomposerConfig.default xgboostStrategy (batchBytes 33) = .ok 2 := by
  have hitems : xgboostStrategy.itemCount (batchBytes 33) = .ok 33 := by
    simp only [xgboostStrategy, itemCount, tryParse_batchBytes (by decide : 33 < 2 ^ 32)]
    rfl
  have hcycles : xgboostStrategy.estimateCycles (batchBytes 33) = some 40475000 := by
    simp only [xgboostStrategy, estimateCycles, deserialize_batchBytes (by decide : 33 < 2 ^ 32),
      Option.map_some, batchInput, List.length_replicate]
  simp only [planSplit, hitems, hcycles]
  rfl

theorem split_batchBytes : split (batchBytes 33) 2 = .ok [batchBytes 17, batchBytes 16] := by
  simp only [split, tryParse_batchBytes (by decide : 33 < 2 ^ 32)]
  rfl

def batchOutput (count : ℕ) : XGBoostOutput := emptyTreesOutput (batchInput count)

def batchProof (count : ℕ) : ProofResult :=
  ⟨XGBOOST_IMAGE_ID ++ outputFormat.serialize (batchOutput count),
    outputFormat.serialize (batchOutput count), 21000000⟩

theorem sampleProve_batchBytes {count : ℕ} (hcount : count < 2 ^ 32) :
    sampleProve XGBOOST_IMAGE_ID (batchBytes count) = some (batchProof count) := by
  simp only [sampleProve, sampleGuest, deserialize_batchBytes hcount, Option.map_some]
  rfl

theorem fits_batchOutput {count : ℕ} (hcount : count < 2 ^ 32) :
    outputFormat.Fits (batchOutput count) := by
  refine fits_emptyTreesOutput ?_
  change (List.replicate count _).length < _
  rwa [List.length_replicate]

theorem mergeJournals_pair {first second : XGBoostOutput} (hfirst : outputFormat.Fits first)
    (hsecond : outputFormat.Fits second) :
    ∃ merged, mergeJournals [outputFormat.serialize first, outputFormat.serialize second] =
        .ok (outputFormat.serialize merged) ∧
      merged.predictions = first.predictions ++ second.predictions ∧
      merged.flaggedIds = first.flaggedIds ++ second.flaggedIds := by
  simp only [mergeJournals, List.foldlM_cons, List.foldlM_nil, mergeStep,
    outputFormat.deserialize_serialize hfirst, outputFormat.deserialize_serialize hsecond]
  exact ⟨_, rfl, rfl, rfl⟩

/-- The merged journal of the two parts is not the journal of the first. -/
theorem mergeJournals_batch :
    ∃ merged, mergeJournals [(batchProof 17).journal, (batchProof 16).journal] = .ok merged ∧
      merged ≠ (batchProof 17).journal := by
  have hfirst := fits_batchOutput (by decide : 17 < 2 ^ 32)
  obtain ⟨merged, hmerged, hpredictions, hflagged⟩ :=
    mergeJournals_pair hfirst (fits_batchOutput (by decide : 16 < 2 ^ 32))
  have hlength : merged.predictions.length = 33 := by
    rw [hpredictions]
    rfl
  have hfits : outputFormat.Fits merged := by
    refine ⟨trivial, ⟨?_, fun _ _ => ⟨fun _ _ => trivial, trivial, trivial⟩⟩, trivial,
      ⟨?_, fun _ _ => fun _ _ => trivial⟩, fun _ _ => trivial⟩
    · change merged.predictions.length < 2 ^ 32
      rw [hlength]
      decide
    · change merged.flaggedIds.length < 2 ^ 32
      rw [hflagged]
      exact Nat.two_pow_pos 32
  refine ⟨_, hmerged, fun heq => ?_⟩
  have hread := congrArg outputFormat.deserialize heq
  rw [outputFormat.deserialize_serialize hfits, batchProof,
    outputFormat.deserialize_serialize hfirst] at hread
  have hcount := congrArg (fun output => output.predictions.length) (Option.some.inj hread)
  rw [hlength] at hcount
  cases hcount

theorem canDecompose_batchBytes : xgboostStrategy.canDecompose (batchBytes 33) = true := by
  simp only [xgboostStrategy, canDecompose, tryParse_batchBytes (by decide : 33 < 2 ^ 32)]
  rfl

theorem proveDecomposed_batch :
    ∃ decomposed, proveDecomposed DecomposerConfig.default xgboostStrategy
        (sampleProver.backends.proveWithReceipt XGBOOST_IMAGE_ID) (batchBytes 33) =
      .ok decomposed ∧ decomposed.receipts = [batchProof 17, batchProof 16] := by
  obtain ⟨merged, hmerged, -⟩ := mergeJournals_batch
  have hsuitable : (decide (DecomposerConfig.default.minInputSize ≤ (batchBytes 33).length) &&
      xgboostStrategy.canDecompose (batchBytes 33)) = true := by
    have hsize : DecomposerConfig.default.minInputSize ≤ (batchBytes 33).length := by
      change 4096 ≤ _
      rw [length_batchBytes]
      omega
    rw [Bool.and_eq_true, decide_eq_true_eq]
    exact ⟨hsize, canDecompose_batchBytes⟩
  have hparts : [batchBytes 17, batchBytes 16].zipIdx.mapM (fun x =>
      sampleProver.backends.proveWithReceipt XGBOOST_IMAGE_ID x.2 x.1) =
        .ok [(batchProof 17, batchProof 17), (batchProof 16, batchProof 16)] := by
    simp only [List.zipIdx_cons, List.zipIdx_nil, List.mapM_cons, List.mapM_nil, sampleProver,
      sampleProve_batchBytes (by decide : 17 < 2 ^ 32),
      sampleProve_batchBytes (by decide : 16 < 2 ^ 32)]
    rfl
  refine ⟨⟨[batchProof 17, batchProof 16], [(batchProof 17).sealBytes, (batchProof 16).sealBytes],
    [(batchProof 17).journal, (batchProof 16).journal], merged, 42000000, 2⟩, ?_, rfl⟩
  simp only [proveDecomposed, bind_eq_ok, require_eq_ok, pure_eq_ok]
  exact ⟨(), hsuitable, 2, planSplit_batchBytes, (), by decide, _, split_batchBytes, _, hparts, _,
    hmerged, rfl⟩

def batchJob : QueuedJob := ⟨1, XGBOOST_IMAGE_ID, Sha256.sha256 (batchBytes 33), 0⟩

def batchAnswers : JobAnswers where
  hasSigner := true
  privateInput := .error .external
  prefetched := none
  fetchedInput := .ok (batchBytes 33)
  cachedProof := none
  claim := fun _ => .ok ()
  submit := .ok ()
  wrapperElf := some (.replicate 32 2)
  profitable := .ok true

theorem fetchInput_batch {answers : JobAnswers} (hprefetched : answers.prefetched = none)
    (hfetched : answers.fetchedInput = .ok (batchBytes 33)) :
    fetchInput batchJob answers = .ok (batchBytes 33) := by
  have hdigest : require (Sha256.sha256 (batchBytes 33) == batchJob.inputHash)
      JobError.inputDigestMismatch = .ok () := require_eq_ok.mpr (beq_self_eq_true _)
  simp only [fetchInput, getPrefetched, hprefetched, hfetched, checkDigest]
  rw [if_neg (by decide), ok_bind, hdigest]
  rfl

theorem tryRecursiveWrap_batch {decomposed : DecomposedReceipts ProofResult}
    (h : decomposed.receipts = [batchProof 17, batchProof 16]) :
    ∃ wrapped, tryRecursiveWrap sampleProver batchJob batchAnswers xgboostStrategy decomposed =
        .ok wrapped ∧ wrapped.firstSubJournal = (batchProof 17).journal ∧
      wrapped.mergedJournal ≠ (batchProof 17).journal := by
  obtain ⟨merged, hmerged, hne⟩ := mergeJournals_batch
  have hinput : wrapperInput XGBOOST_IMAGE_ID
      ([batchProof 17, batchProof 16].map ProofResult.journal) xgboostStrategy =
        .ok ⟨XGBOOST_IMAGE_ID, 2, [(batchProof 17).journal, (batchProof 16).journal],
          merged⟩ := by
    simp only [wrapperInput, bind_eq_ok, mapError_eq_ok, pure_eq_ok]
    exact ⟨_, hmerged, rfl⟩
  refine ⟨⟨.replicate 32 2 ++ merged, merged, merged, (batchProof 17).sealBytes,
    (batchProof 17).journal⟩, ?_, rfl, hne⟩
  simp only [tryRecursiveWrap, wrap, h, bind_eq_ok, okOr_eq_ok, require_eq_ok, pure_eq_ok]
  exact ⟨_, rfl, (), by decide, _, rfl, _, hinput, _, rfl, _, rfl, rfl⟩

/-- The job alone. -/
def batchRun (answers : JobAnswers) : List ProverAction :=
  [.load 0 batchJob ⟨none, some (.ok XGBOOST_IMAGE_ID), none⟩, .process 0 answers]

/-- The wrapper path submits the seal of the first seventeen samples with the journal of all. -/
theorem first_seal_with_merged_journal :
    SoundBackends sampleProver sampleGuest sampleProves ∧
      ∃ s, runSteps (ProverJobs.step sampleProver) .start (batchRun batchAnswers) = some s ∧
        ∃ submission ∈ s.submissions,
          ¬Matching sampleProver sampleGuest sampleProves submission := by
  obtain ⟨decomposed, hdecomposed, hreceipts⟩ := proveDecomposed_batch
  obtain ⟨wrapped, hwrapped, hfirst, hne⟩ := tryRecursiveWrap_batch hreceipts
  have hlarge : DECOMP_THRESHOLD_CYCLES < 21000000 := by
    unfold DECOMP_THRESHOLD_CYCLES
    omega
  have hpreflight : sampleProver.backends.preflight XGBOOST_IMAGE_ID (batchBytes 33) =
      .ok ⟨21000000, .segmented 2⟩ := rfl
  have himage : sampleProver.computeImageId XGBOOST_IMAGE_ID = .ok batchJob.imageId := rfl
  have hsubmit := wrapped_mem_log (fun _ => rfl) rfl (fetchInput_batch rfl rfl) hpreflight
    (by decide) rfl hlarge canDecompose_batchBytes hdecomposed hwrapped
  have hfile : (loadProgram sampleProver.computeImageId batchJob
      ⟨none, some (.ok XGBOOST_IMAGE_ID), none⟩).result = .ok XGBOOST_IMAGE_ID := rfl
  obtain ⟨s, hload, hloaded⟩ := step_load .start 0 rfl hfile
  obtain ⟨t, hprocess, hsubmissions⟩ := step_process hloaded (rfl : batchAnswers.cachedProof = none)
  refine ⟨sampleProver_sound, t, runSteps_cons.mpr ⟨s, hload, runSteps_cons.mpr ⟨t, hprocess, rfl⟩⟩,
    ⟨batchJob, batchAnswers.wrapperElf, .wrapped, wrapped.firstSubSeal, wrapped.mergedJournal⟩, ?_,
    fun hmatching => hne ?_⟩
  · rw [hsubmissions]
    exact List.mem_append_right _ (List.mem_filterMap.mpr ⟨_, hsubmit, rfl⟩)
  · have hproves := firstSubSeal_proves sampleProver_sound himage hdecomposed hwrapped
    rw [← hfirst]
    exact mergedJournal_eq_of_matching sampleProves_exact hproves hmatching

/-- The same job without the wrapper program. -/
def wholeAnswers : JobAnswers := { batchAnswers with wrapperElf := none }

theorem not_wrapsParts_whole {elf input : List UInt8} {cycles : ℕ} :
    ¬WrapsParts sampleProver batchJob wholeAnswers elf input cycles := by
  rintro ⟨_, _, _, -, -, -, -, hwrapped⟩
  cases hwrapped

/-- Without the wrapper program the job is proved as a whole, and what it submits matches. -/
theorem whole_input_submitted :
    ∃ s, runSteps (ProverJobs.step sampleProver) .start (batchRun wholeAnswers) = some s ∧
      s.submissions ≠ [] ∧
      ∀ submission ∈ s.submissions, Matching sampleProver sampleGuest sampleProves submission := by
  obtain ⟨decomposed, hdecomposed, hreceipts⟩ := proveDecomposed_batch
  have hpreflight : sampleProver.backends.preflight XGBOOST_IMAGE_ID (batchBytes 33) =
      .ok ⟨21000000, .segmented 2⟩ := rfl
  have hnone : decomposedProof sampleProver batchJob wholeAnswers
      XGBOOST_IMAGE_ID (batchBytes 33) 21000000 = none := by
    rw [Option.eq_none_iff_forall_ne_some]
    exact fun found hfound => not_wrapsParts_whole (decomposedProof_eq_some hfound)
  have hfast : sampleProver.backends.proveFast XGBOOST_IMAGE_ID (batchBytes 33) =
      .ok (batchProof 33) := by
    simp only [sampleProver, sampleProve_batchBytes (by decide : 33 < 2 ^ 32)]
    rfl
  have hsubmit := standard_mem_log rfl (fun _ => rfl) rfl (fetchInput_batch rfl rfl) hpreflight
    (by decide) hnone hfast
  have hfile : (loadProgram sampleProver.computeImageId batchJob
      ⟨none, some (.ok XGBOOST_IMAGE_ID), none⟩).result = .ok XGBOOST_IMAGE_ID := rfl
  obtain ⟨s, hload, hloaded⟩ := step_load .start 0 rfl hfile
  have hmiss : wholeAnswers.cachedProof = none := rfl
  obtain ⟨t, hprocess, hsubmissions⟩ := step_process hloaded hmiss
  have hrun : runSteps (ProverJobs.step sampleProver) .start (batchRun wholeAnswers) = some t :=
    runSteps_cons.mpr ⟨s, hload, runSteps_cons.mpr ⟨t, hprocess, rfl⟩⟩
  refine ⟨t, hrun, ?_, submissions_matching sampleProver_sound ?_ hrun⟩
  · rw [hsubmissions]
    exact List.ne_nil_of_mem
      (List.mem_append_right _ (List.mem_filterMap.mpr ⟨_, hsubmit, rfl⟩))
  · refine .cons (fun _ elf helf => (Option.some.inj helf).symm) hload (.cons ?_ hprocess trivial)
    intro job elf htask hwrap
    rw [hloaded] at htask
    cases htask
    obtain ⟨-, _, _, -, -, hparts⟩ := hwrap
    exact not_wrapsParts_whole hparts

end WorldZk.SubmittedProofs
