import WorldZk.LoggedRuns
import WorldZk.RecursiveWrapper
import WorldZk.StepRuns
import Mathlib.Logic.Function.Basic

/-!
# The jobs of the prover

`process_single_job`: it loads the program, fetches the input, and then submits a proof from the
cache, from a decomposed run or from the standard prover. What the outside answers is an input of
the run, and what the job does to the caches and the chain is its log.

The caches outlive the jobs. A system of jobs takes two actions for each job, so that one may look
into a cache after another has filled it and before that one has ended.
-/

namespace WorldZk.ProverJobs

open CheckedRuns InputDecomposition LoggedRuns RecursiveWrapper StepRuns

/-! ## Jobs and what they do -/

structure QueuedJob where
  requestId : ℕ
  imageId : List UInt8
  inputHash : List UInt8
  inputType : UInt8
deriving DecidableEq

/-- `input_type == 1`. -/
def QueuedJob.isPrivate (job : QueuedJob) : Bool := job.inputType == 1

structure ProofCacheKey where
  imageId : List UInt8
  inputHash : List UInt8
  useSnark : Bool
deriving DecidableEq

structure CachedProof where
  proof : List UInt8
  journal : List UInt8
  cycles : ℕ
deriving DecidableEq

inductive ClaimSite
  | early
  | cached
  | decomposed
  | standard
deriving DecidableEq, Repr

/-- Where a submitted pair comes from. -/
inductive ProofPath
  | cached
  | wrapped
  | singleSubJob
  | standard
deriving DecidableEq, Repr

inductive JobEvent
  | claim (site : ClaimSite) (succeeded : Bool)
  | programCached (imageId elf : List UInt8)
  | proofCached (key : ProofCacheKey) (proof : CachedProof)
  | submit (path : ProofPath) (sealBytes journal : List UInt8)
deriving DecidableEq

inductive JobError
  | programNotFound
  | programDeactivated
  | programWithoutUrl
  | imageIdMismatch
  | signerRequired
  | inputDigestMismatch
  | tooComplex (cycles : ℕ)
  | notProfitable
  -- A failure of something that the job waits for.
  | external
deriving DecidableEq, Repr

abbrev JobRun (α : Type) : Type := Logged JobEvent JobError α

/-! ## The outside -/

inductive ProvingStrategy
  | direct
  | segmented (numSegments : ℕ)
  | continuation
  | tooComplex
deriving DecidableEq, Repr

structure PreflightResult where
  cycles : ℕ
  strategy : ProvingStrategy

/-- The proving backends, with receipts of any kind. -/
structure Backends (ρ : Type) where
  preflight : List UInt8 → List UInt8 → Except JobError PreflightResult
  proveFast : List UInt8 → List UInt8 → Except JobError ProofResult
  -- The ELF, then the place of the part and the part.
  proveWithReceipt : List UInt8 → ℕ → List UInt8 → Except DecompError (ProofResult × ρ)
  proveWrapper : List UInt8 → WrapperInput → List ρ → Option ρ
  receipts : Receipts ρ

structure JobConfig where
  useSnark : Bool
  skipProfitabilityCheck : Bool

structure Prover (ρ : Type) where
  config : JobConfig
  backends : Backends ρ
  strategies : List UInt8 → Option DecompositionStrategy
  computeImageId : List UInt8 → Except JobError (List UInt8)

/-- What the registry contract and the program's URL give. -/
structure RegisteredProgram where
  active : Bool
  hasUrl : Bool
  download : Except JobError (List UInt8)

/-- The sources of a program: the cache, the file `./programs/{image id}.elf` and the registry, if
one is configured. -/
structure ProgramAnswers where
  cached : Option (List UInt8)
  localFile : Option (Except JobError (List UInt8))
  registry : Option (Except JobError RegisteredProgram)

/-- An entry of the prefetcher, which hashes what it has fetched. -/
structure PrefetchedInput where
  data : List UInt8
  hash : List UInt8
  hash_eq : Sha256.sha256 data = hash

structure JobAnswers where
  hasSigner : Bool
  privateInput : Except JobError (List UInt8)
  prefetched : Option PrefetchedInput
  fetchedInput : Except JobError (List UInt8)
  cachedProof : Option CachedProof
  claim : ClaimSite → Except JobError Unit
  submit : Except JobError Unit
  -- `./programs/recursive-wrapper.elf`.
  wrapperElf : Option (List UInt8)
  profitable : Except JobError Bool

/-! ## Loading the program -/

/-- `fetch_program_from_registry`. Only what it downloads is checked against the image id. -/
def fetchProgramFromRegistry (computeImageId : List UInt8 → Except JobError (List UInt8))
    (imageId : List UInt8) (answers : ProgramAnswers) : Except JobError (List UInt8) :=
  match answers.localFile with
  | some file => file
  | none =>
    match answers.registry with
    | none => .error .programNotFound
    | some found => do
      let program ← found
      require program.active .programDeactivated
      require program.hasUrl .programWithoutUrl
      let elf ← program.download
      let computedImageId ← computeImageId elf
      require (computedImageId == imageId) .imageIdMismatch
      pure elf

/-- Step 1. -/
def loadProgram (computeImageId : List UInt8 → Except JobError (List UInt8)) (job : QueuedJob)
    (answers : ProgramAnswers) : JobRun (List UInt8) :=
  match answers.cached with
  | some elf => pure elf
  | none => do
    let elf ← .ofExcept (fetchProgramFromRegistry computeImageId job.imageId answers)
    .tell (.programCached job.imageId elf)
    pure elf

/-! ## Processing -/

/-- `send_claim_with_retry`. -/
def sendClaim (answers : JobAnswers) (site : ClaimSite) : JobRun Unit := do
  .tell (.claim site (okAnd (answers.claim site) fun _ => true))
  .ofExcept (answers.claim site)

/-- The claim before the input of a private job is fetched. -/
def claimPrivate (job : QueuedJob) (answers : JobAnswers) : JobRun Unit :=
  if job.isPrivate then sendClaim answers .early else pure ()

/-- The claim before standard proving, for a job that has not been claimed early. -/
def claimPublic (job : QueuedJob) (answers : JobAnswers) : JobRun Unit :=
  if job.isPrivate then pure () else sendClaim answers .standard

/-- `send_submit_with_retry`. -/
def sendSubmit (answers : JobAnswers) (path : ProofPath) (sealBytes journal : List UInt8) :
    JobRun Unit := do
  .tell (.submit path sealBytes journal)
  .ofExcept answers.submit

def checkDigest (job : QueuedJob) (input : List UInt8) : Except JobError (List UInt8) := do
  require (Sha256.sha256 input == job.inputHash) .inputDigestMismatch
  pure input

/-- `get_cached` of the prefetcher. -/
def getPrefetched (job : QueuedJob) (answers : JobAnswers) : Option (List UInt8) :=
  match answers.prefetched with
  | some entry => if entry.hash = job.inputHash then some entry.data else none
  | none => none

/-- Step 2, after the early claim. -/
def fetchInput (job : QueuedJob) (answers : JobAnswers) : Except JobError (List UInt8) :=
  if job.isPrivate then do
    require answers.hasSigner .signerRequired
    let input ← answers.privateInput
    checkDigest job input
  else
    match getPrefetched job answers with
    | some input => pure input
    | none => do
      let input ← answers.fetchedInput
      checkDigest job input

def DECOMP_THRESHOLD_CYCLES : ℕ := 20000000

section Prover

variable {ρ : Type} (prover : Prover ρ)

def cacheKey (job : QueuedJob) : ProofCacheKey :=
  ⟨job.imageId, job.inputHash, prover.config.useSnark⟩

/-- `try_recursive_wrap`. -/
def tryRecursiveWrap (job : QueuedJob) (answers : JobAnswers) (strategy : DecompositionStrategy)
    (decomposed : DecomposedReceipts ρ) : Except WrapError RecursiveWrapResult := do
  let wrapperElf ← okOr .wrapperNotAvailable answers.wrapperElf
  wrap prover.backends.receipts (prover.backends.proveWrapper wrapperElf) job.imageId
    decomposed.receipts strategy

/-- Step 4b: the pair of a decomposed run, or `none` to fall through to standard proving. -/
def decomposedProof (job : QueuedJob) (answers : JobAnswers) (elf input : List UInt8)
    (cycles : ℕ) : Option (ProofPath × ProofResult) := do
  let strategy ← prover.strategies job.imageId
  if DECOMP_THRESHOLD_CYCLES < cycles ∧ strategy.canDecompose input = true then
    match proveDecomposed DecomposerConfig.default strategy (prover.backends.proveWithReceipt elf)
        input with
    | .error _ => none
    | .ok decomposed =>
      match tryRecursiveWrap prover job answers strategy decomposed with
      | .ok wrapped =>
        some (.wrapped, ⟨wrapped.firstSubSeal, wrapped.mergedJournal, decomposed.totalCycles⟩)
      | .error _ =>
        if decomposed.subJobCount = 1 then
          some (.singleSubJob, ⟨decomposed.seals.headD [], decomposed.journals.headD [],
            decomposed.totalCycles⟩)
        else none
  else none

/-- Step 5. -/
def checkProfitability (answers : JobAnswers) : JobRun Unit :=
  if prover.config.skipProfitabilityCheck then pure ()
  else .ofExcept (answers.profitable >>= fun profitable => require profitable .notProfitable)

/-- Steps 5 to 9. -/
def standardProof (job : QueuedJob) (answers : JobAnswers) (elf input : List UInt8) :
    JobRun (ℕ × ℕ) := do
  checkProfitability prover answers
  claimPublic job answers
  let proof ← .ofExcept (prover.backends.proveFast elf input)
  .tell (.proofCached (cacheKey prover job) ⟨proof.sealBytes, proof.journal, proof.cycles⟩)
  sendSubmit answers .standard proof.sealBytes proof.journal
  pure (proof.cycles, input.length)

/-- Steps 2 to 9. -/
def processJob (job : QueuedJob) (elf : List UInt8) (answers : JobAnswers) : JobRun (ℕ × ℕ) := do
  claimPrivate job answers
  let input ← .ofExcept (fetchInput job answers)
  match answers.cachedProof with
  | some cached => do
    sendClaim answers .cached
    sendSubmit answers .cached cached.proof cached.journal
    pure (cached.cycles, input.length)
  | none => do
    let preflight ← .ofExcept (prover.backends.preflight elf input)
    .ofExcept (require (decide (preflight.strategy ≠ .tooComplex)) (.tooComplex preflight.cycles))
    match decomposedProof prover job answers elf input preflight.cycles with
    | some (path, proof) => do
      sendClaim answers .decomposed
      sendSubmit answers path proof.sealBytes proof.journal
      pure (proof.cycles, input.length)
    | none => standardProof prover job answers elf input

/-- `process_single_job`. -/
def processSingleJob (job : QueuedJob) (programAnswers : ProgramAnswers) (answers : JobAnswers) :
    JobRun (ℕ × ℕ) := do
  let elf ← loadProgram prover.computeImageId job programAnswers
  processJob prover job elf answers

end Prover

/-- The image id for which the monitor registers its strategy. -/
def XGBOOST_IMAGE_ID : List UInt8 :=
  [0xd6, 0xb6, 0x0a, 0xe7, 0xd1, 0xf2, 0x7a, 0xec, 0x34, 0xd2, 0x47, 0xfa, 0xd9, 0xc4, 0x70, 0x0b,
    0xe2, 0x37, 0x93, 0x8c, 0xec, 0x51, 0x5a, 0xf0, 0x3c, 0x04, 0x51, 0xf2, 0xca, 0x8a, 0xef, 0xe4]

def strategyRegistry (imageId : List UInt8) : Option DecompositionStrategy :=
  if imageId = XGBOOST_IMAGE_ID then some xgboostStrategy else none

/-! ## The system of jobs -/

structure Submission where
  job : QueuedJob
  wrapperElf : Option (List UInt8)
  path : ProofPath
  sealBytes : List UInt8
  journal : List UInt8

/-- The jobs whose program is loaded, all that was ever put into the caches, and what was
submitted. A cache answers with something that was put under the key, or with nothing. -/
structure ProverState where
  loaded : ℕ → Option (QueuedJob × List UInt8)
  programs : List (List UInt8 × List UInt8)
  proofs : List (ProofCacheKey × CachedProof)
  submissions : List Submission

def ProverState.start : ProverState := ⟨fun _ => none, [], [], []⟩

inductive ProverAction
  | load (task : ℕ) (job : QueuedJob) (answers : ProgramAnswers)
  | process (task : ℕ) (answers : JobAnswers)

def applyEvent (job : QueuedJob) (wrapperElf : Option (List UInt8)) (s : ProverState) :
    JobEvent → ProverState
  | .claim _ _ => s
  | .programCached imageId elf => { s with programs := s.programs ++ [(imageId, elf)] }
  | .proofCached key proof => { s with proofs := s.proofs ++ [(key, proof)] }
  | .submit path sealBytes journal =>
    { s with submissions := s.submissions ++ [⟨job, wrapperElf, path, sealBytes, journal⟩] }

def step {ρ : Type} (prover : Prover ρ) (s : ProverState) : ProverAction → Option ProverState
  | .load task job answers =>
    if ∀ elf ∈ answers.cached, (job.imageId, elf) ∈ s.programs then
      let run := loadProgram prover.computeImageId job answers
      let s := run.log.foldl (applyEvent job none) s
      match run.result with
      | .ok elf => some { s with loaded := Function.update s.loaded task (some (job, elf)) }
      | .error _ => some s
    else none
  | .process task answers =>
    match s.loaded task with
    | none => none
    | some (job, elf) =>
      if ∀ proof ∈ answers.cachedProof, (cacheKey prover job, proof) ∈ s.proofs then
        let run := processJob prover job elf answers
        let s := run.log.foldl (applyEvent job answers.wrapperElf) s
        some { s with loaded := Function.update s.loaded task none }
      else none

/-! ## What an action does -/

/-- The submission that an entry of a job's log is. -/
def submissionOf (job : QueuedJob) (wrapperElf : Option (List UInt8)) :
    JobEvent → Option Submission
  | .submit path sealBytes journal => some ⟨job, wrapperElf, path, sealBytes, journal⟩
  | _ => none

theorem submissions_foldl {s : ProverState} {job : QueuedJob} {wrapperElf : Option (List UInt8)}
    (log : List JobEvent) :
    (log.foldl (applyEvent job wrapperElf) s).submissions =
      s.submissions ++ log.filterMap (submissionOf job wrapperElf) := by
  induction log generalizing s with
  | nil => simp
  | cons event log ih =>
    rw [List.foldl_cons, ih]
    cases event <;> simp [applyEvent, submissionOf, List.filterMap_cons]

section Actions

variable {ρ : Type} {prover : Prover ρ} {job : QueuedJob} {answers : JobAnswers}
  {elf : List UInt8}

theorem sendClaim_result {site : ClaimSite} (h : answers.claim site = .ok ()) :
    (sendClaim answers site).result = .ok () := h

theorem claimPrivate_result (h : ∀ site, answers.claim site = .ok ()) :
    (claimPrivate job answers).result = .ok () := by
  unfold claimPrivate
  split
  case isTrue => exact sendClaim_result (h .early)
  case isFalse => rfl

theorem claimPublic_result (h : ∀ site, answers.claim site = .ok ()) :
    (claimPublic job answers).result = .ok () := by
  unfold claimPublic
  split
  case isTrue => rfl
  case isFalse => exact sendClaim_result (h .standard)

theorem step_load (s : ProverState) (task : ℕ) {programAnswers : ProgramAnswers}
    (hmiss : programAnswers.cached = none)
    (helf : (loadProgram prover.computeImageId job programAnswers).result = .ok elf) :
    ∃ t, step prover s (.load task job programAnswers) = some t ∧
      t.loaded task = some (job, elf) := by
  have hcached : ∀ elf ∈ programAnswers.cached, (job.imageId, elf) ∈ s.programs := by
    rw [hmiss]
    exact fun _ h => by cases h
  simp only [ProverJobs.step, if_pos hcached, helf]
  exact ⟨_, rfl, Function.update_self ..⟩

theorem step_process {s : ProverState} {task : ℕ} (hloaded : s.loaded task = some (job, elf))
    (hmiss : answers.cachedProof = none) :
    ∃ t, step prover s (.process task answers) = some t ∧
      t.submissions = s.submissions ++
        (processJob prover job elf answers).log.filterMap
          (submissionOf job answers.wrapperElf) := by
  have hcached : ∀ proof ∈ answers.cachedProof, (cacheKey prover job, proof) ∈ s.proofs := by
    rw [hmiss]
    exact fun _ h => by cases h
  simp only [ProverJobs.step, hloaded, if_pos hcached]
  exact ⟨_, rfl, submissions_foldl _⟩

end Actions

end WorldZk.ProverJobs
