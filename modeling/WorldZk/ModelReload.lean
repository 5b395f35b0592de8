import WorldZk.EnclaveAgreement
import WorldZk.EnclaveAttestation
import WorldZk.Sha256
import WorldZk.StepRuns

/-!
# Hot reloads of the enclave's model

A load reads the model file, checks and hashes what it read, and then reads the file a second time
to parse it. The host may write files at any moment, and inferences and loads interleave at every
file access, at the lock of the served model and at the signature.
-/

namespace WorldZk.ModelReload

open EnclaveAgreement EnclaveAttestation EnclaveModel HexText JsonValues Keccak256 ModelParsers
  Sha256 StepRuns TeeVerifier

/-! ## Validation and parsing -/

inductive RequestError
  | adminDisabled
  | invalidKey
  | readFailed
  | hashMismatch (expected computed : List Char)
  | parseFailed
  | featureCount (expected got : ℕ)
  | predictPanics
  | wrongChain
deriving DecidableEq, Repr

def computeModelHash (modelBytes : List UInt8) : List Char := hexEncode (sha256 modelBytes)

/-- The expected hash without its `0x`, in lower case. -/
def expectedClean : List Char → List Char
  | '0' :: 'x' :: stripped => stripped.map Char.toLower
  | expected => expected.map Char.toLower

def validateModel (modelBytes : List UInt8) (expectedHash : Option (List Char)) :
    Except RequestError (List Char) :=
  let computed := computeModelHash modelBytes
  match expectedHash with
  | none => .ok computed
  | some expected =>
    if computed ≠ expectedClean expected then
      .error (.hashMismatch (expectedClean expected) computed)
    else .ok computed

/-- `ModelFormat` of a request. -/
inductive RequestedFormat
  | auto
  | only (format : ModelFormat)
deriving DecidableEq, Repr

section Parsing

variable {K : Type} [Field K]

/-- `parse_model_with_format`, on the value of the document. -/
def parseModelWithFormat : RequestedFormat → Json K → Option (EnclaveEnsemble K)
  | .only format, json => (enclaveParse format json).toOption
  | .auto, json => (enclaveParse .xgboost json).toOption <|> (enclaveParse .lightgbm json).toOption

-- The JSON value of a file, or `none` when it is not UTF-8 or not JSON.
variable (readDocument : List UInt8 → Option (Json K))

/-- The model in the bytes of a file. -/
def parseModelBytes (format : RequestedFormat) (bytes : List UInt8) :
    Option (EnclaveEnsemble K) :=
  (readDocument bytes).bind (parseModelWithFormat format)

end Parsing

/-! ## The enclave -/

structure EnclaveConfig where
  adminApiKey : Option (List Char)
  expectedModelHash : Option (List Char)
deriving DecidableEq, Repr

variable {K : Type}

/-- `ModelState`. -/
structure ModelState (K : Type) where
  model : EnclaveEnsemble K
  modelHash : ℕ
  modelBytes : List UInt8
  modelSha256 : List Char

/-- Where the startup or a request is. -/
inductive TaskState (K : Type)
  | idle
  | loading (path : String) (format : RequestedFormat)
  /-- Between the two reads of the file. -/
  | validated (path : String) (format : RequestedFormat) (modelBytes : List UInt8)
      (modelSha256 : List Char) (modelHash : ℕ)
  /-- Before the write lock. -/
  | parsed (next : ModelState K)
  /-- After the read lock; `model` is the one that gave the scores. -/
  | predicted (features scores : List K) (modelHash : ℕ) (model : EnclaveEnsemble K)
  | finished (result : Except RequestError Unit)

/-- An attestation that was signed, with what it is about. -/
structure Attested (K : Type) where
  attestation : AttestationResult
  modelHash : ℕ
  features : List K
  scores : List K
  model : EnclaveEnsemble K

structure EnclaveState (K : Type) where
  files : String → Option (List UInt8)
  /-- `none` until the startup is through. -/
  modelState : Option (ModelState K)
  tasks : ℕ → TaskState K
  attestor : Attestor
  attested : List (Attested K)

inductive Action (K : Type)
  /-- The host writes or removes a file. -/
  | writeFile (path : String) (contents : Option (List UInt8))
  | startup (task : ℕ) (path : String) (format : RequestedFormat)
  | reloadModel (task : ℕ) (providedKey : List Char) (path : String) (format : RequestedFormat)
  | readAndValidate (task : ℕ)
  | loadModelWithFormat (task : ℕ)
  | swapModel (task : ℕ)
  | infer (task : ℕ) (features : List K)
  | signAttestation (task : ℕ) (chainId : Option ℕ) (timestamp : ℕ)

def setTask (s : EnclaveState K) (task : ℕ) (state : TaskState K) : EnclaveState K :=
  { s with tasks := Function.update s.tasks task state }

section Steps

variable [Field K] [LinearOrder K] (readDocument : List UInt8 → Option (Json K))
  (encode : List K → List UInt8) (config : EnclaveConfig)

/-- The check of the admin key in `reload_model`. -/
def authorize (providedKey : List Char) : Except RequestError Unit :=
  match config.adminApiKey with
  | none => .error .adminDisabled
  | some key => if providedKey ≠ key then .error .invalidKey else .ok ()

/-- The first read of the file, with its check and its hash. -/
def readAndValidate (files : String → Option (List UInt8)) (path : String)
    (format : RequestedFormat) : TaskState K :=
  match files path with
  | none => .finished (.error .readFailed)
  | some modelBytes =>
    match validateModel modelBytes config.expectedModelHash with
    | .error e => .finished (.error e)
    | .ok modelSha256 => .validated path format modelBytes modelSha256 (keccak256 modelBytes)

/-- The second read of the file. -/
def loadModelWithFormat (files : String → Option (List UInt8)) (path : String)
    (format : RequestedFormat) (modelBytes : List UInt8) (modelSha256 : List Char)
    (modelHash : ℕ) : TaskState K :=
  match (files path).bind (parseModelBytes readDocument format) with
  | none => .finished (.error .parseFailed)
  | some model => .parsed ⟨model, modelHash, modelBytes, modelSha256⟩

/-- The part of `infer` under the read lock. -/
def predictUnderLock (ms : ModelState K) (features : List K) : TaskState K :=
  if features.length ≠ ms.model.numFeatures then
    .finished (.error (.featureCount ms.model.numFeatures features.length))
  else
    match predict ms.model features with
    | none => .finished (.error .predictPanics)
    | some scores => .predicted features scores ms.modelHash ms.model

def step (s : EnclaveState K) : Action K → Option (EnclaveState K)
  | .writeFile path contents => some { s with files := Function.update s.files path contents }
  | .startup task path format =>
    match s.tasks task, s.modelState with
    | .idle, none => some (setTask s task (.loading path format))
    | _, _ => none
  | .reloadModel task providedKey path format =>
    match s.tasks task, s.modelState with
    | .idle, some _ =>
      match authorize config providedKey with
      | .error e => some (setTask s task (.finished (.error e)))
      | .ok _ => some (setTask s task (.loading path format))
    | _, _ => none
  | .readAndValidate task =>
    match s.tasks task with
    | .loading path format => some (setTask s task (readAndValidate config s.files path format))
    | _ => none
  | .loadModelWithFormat task =>
    match s.tasks task with
    | .validated path format modelBytes modelSha256 modelHash =>
      some (setTask s task
        (loadModelWithFormat readDocument s.files path format modelBytes modelSha256 modelHash))
    | _ => none
  | .swapModel task =>
    match s.tasks task with
    | .parsed next => some (setTask { s with modelState := some next } task (.finished (.ok ())))
    | _ => none
  | .infer task features =>
    match s.tasks task, s.modelState with
    | .idle, some ms => some (setTask s task (predictUnderLock ms features))
    | _, _ => none
  | .signAttestation task chainId timestamp =>
    match s.tasks task with
    | .predicted features scores modelHash model =>
      if chainId.all (· == s.attestor.chainId) then
        let (attestation, attestor) := signAttestationWithTimestamp s.attestor modelHash
          (keccak256 (encode features)) (encode scores) timestamp
        some (setTask
          { s with
            attestor := attestor
            attested := s.attested ++ [⟨attestation, modelHash, features, scores, model⟩] }
          task (.finished (.ok ())))
      else some (setTask s task (.finished (.error .wrongChain)))
    | _ => none

end Steps

/-- An enclave before its startup. -/
def start (files : String → Option (List UInt8)) (attestor : Attestor) : EnclaveState K :=
  ⟨files, none, fun _ => .idle, attestor, []⟩

/-! ## Bytes, hash and model -/

section Invariant

variable [Field K] [LinearOrder K] {readDocument : List UInt8 → Option (Json K)}
  {encode : List K → List UInt8} {config : EnclaveConfig} {s t : EnclaveState K} {a : Action K}
  {task : ℕ}

/-- The bytes have the expected SHA-256, if there is one. -/
def Expected (config : EnclaveConfig) (modelBytes : List UInt8) : Prop :=
  ∀ expected, config.expectedModelHash = some expected →
    computeModelHash modelBytes = expectedClean expected

/-- The hash is that of bytes with the expected SHA-256 whose parse is the model. -/
def Backed (readDocument : List UInt8 → Option (Json K)) (config : EnclaveConfig)
    (modelBytes : List UInt8) (modelHash : ℕ) (model : EnclaveEnsemble K) : Prop :=
  modelHash = keccak256 modelBytes ∧
    (∃ format, parseModelBytes readDocument format modelBytes = some model) ∧
    Expected config modelBytes

/-- What an attestation should vouch for. -/
def Vouched (readDocument : List UInt8 → Option (Json K)) (config : EnclaveConfig)
    (attested : Attested K) : Prop :=
  (∃ modelBytes, Backed readDocument config modelBytes attested.modelHash attested.model) ∧
    predict attested.model attested.features = some attested.scores

/-- The parts that a task carries belong together. -/
def TaskOk (readDocument : List UInt8 → Option (Json K)) (config : EnclaveConfig) :
    TaskState K → Prop
  | .validated _ _ modelBytes _ modelHash =>
    modelHash = keccak256 modelBytes ∧ Expected config modelBytes
  | .parsed next => Backed readDocument config next.modelBytes next.modelHash next.model
  | .predicted features scores modelHash model =>
    (∃ modelBytes, Backed readDocument config modelBytes modelHash model) ∧
      predict model features = some scores
  | _ => True

structure EnclaveInvariant (readDocument : List UInt8 → Option (Json K)) (config : EnclaveConfig)
    (s : EnclaveState K) : Prop where
  served : ∀ ms, s.modelState = some ms →
    Backed readDocument config ms.modelBytes ms.modelHash ms.model
  tasks : ∀ task, TaskOk readDocument config (s.tasks task)
  attested : ∀ attested ∈ s.attested, Vouched readDocument config attested

/-- At the second read of a load the file holds what the first one found. -/
def FileUnchanged (s : EnclaveState K) (a : Action K) : Prop :=
  ∀ task path format modelBytes modelSha256 modelHash, a = .loadModelWithFormat task →
    s.tasks task = .validated path format modelBytes modelSha256 modelHash →
    s.files path = some modelBytes

private theorem EnclaveInvariant.setTask (h : EnclaveInvariant readDocument config s)
    {state : TaskState K} (hstate : TaskOk readDocument config state) :
    EnclaveInvariant readDocument config (setTask s task state) where
  served := h.served
  tasks i := by
    change TaskOk readDocument config (Function.update s.tasks task state i)
    by_cases hi : i = task
    · subst hi
      rw [Function.update_self]
      exact hstate
    · rw [Function.update_of_ne hi]
      exact h.tasks i
  attested := h.attested

private theorem EnclaveInvariant.sign (h : EnclaveInvariant readDocument config s)
    {attested : Attested K} {attestor : Attestor} (hnew : Vouched readDocument config attested) :
    EnclaveInvariant readDocument config
      { s with attestor := attestor, attested := s.attested ++ [attested] } where
  served := h.served
  tasks := h.tasks
  attested a ha := by
    rcases List.mem_append.mp ha with hold | hlast
    · exact h.attested a hold
    · obtain rfl := List.mem_singleton.mp hlast
      exact hnew

private theorem validateModel_eq_ok {modelBytes : List UInt8} {modelSha256 : List Char}
    (h : validateModel modelBytes config.expectedModelHash = .ok modelSha256) :
    Expected config modelBytes := by
  intro expected hexpected
  simp only [validateModel, hexpected] at h
  by_contra hne
  rw [if_pos hne] at h
  cases h

private theorem taskOk_readAndValidate {path : String} {format : RequestedFormat} :
    TaskOk readDocument config (readAndValidate config s.files path format) := by
  unfold readAndValidate
  split
  · trivial
  · split
    case h_1 => trivial
    case h_2 modelSha256 hvalid => exact ⟨rfl, validateModel_eq_ok hvalid⟩

private theorem taskOk_loadModelWithFormat {path : String} {format : RequestedFormat}
    {modelBytes : List UInt8} {modelSha256 : List Char} {modelHash : ℕ}
    (htask : TaskOk readDocument config
      (.validated path format modelBytes modelSha256 modelHash))
    (hfile : s.files path = some modelBytes) :
    TaskOk readDocument config
      (loadModelWithFormat readDocument s.files path format modelBytes modelSha256 modelHash) := by
  unfold loadModelWithFormat
  rw [hfile]
  split
  case h_1 => trivial
  case h_2 model hmodel => exact ⟨htask.1, ⟨format, hmodel⟩, htask.2⟩

private theorem taskOk_predictUnderLock {ms : ModelState K} {features : List K}
    (hserved : Backed readDocument config ms.modelBytes ms.modelHash ms.model) :
    TaskOk readDocument config (predictUnderLock ms features) := by
  unfold predictUnderLock
  split
  · trivial
  · split
    case h_1 => trivial
    case h_2 scores hscores => exact ⟨⟨ms.modelBytes, hserved⟩, hscores⟩

/-- One action, when a load finds the same file twice. -/
theorem EnclaveInvariant.step (h : EnclaveInvariant readDocument config s)
    (hfile : FileUnchanged s a) (hstep : step readDocument encode config s a = some t) :
    EnclaveInvariant readDocument config t := by
  cases a with
  | writeFile path contents =>
    cases hstep
    exact ⟨h.served, h.tasks, h.attested⟩
  | startup task path format =>
    rw [ModelReload.step] at hstep
    split at hstep
    · cases hstep
      exact h.setTask trivial
    · cases hstep
  | reloadModel task providedKey path format =>
    rw [ModelReload.step] at hstep
    split at hstep
    · split at hstep
      · cases hstep
        exact h.setTask trivial
      · cases hstep
        exact h.setTask trivial
    · cases hstep
  | readAndValidate task =>
    rw [ModelReload.step] at hstep
    split at hstep
    · cases hstep
      exact h.setTask taskOk_readAndValidate
    · cases hstep
  | loadModelWithFormat task =>
    rw [ModelReload.step] at hstep
    split at hstep
    case h_1 path format modelBytes modelSha256 modelHash htask =>
      cases hstep
      have hok := h.tasks task
      rw [htask] at hok
      exact h.setTask (taskOk_loadModelWithFormat hok (hfile task _ _ _ _ _ rfl htask))
    case h_2 => cases hstep
  | swapModel task =>
    rw [ModelReload.step] at hstep
    split at hstep
    case h_1 next htask =>
      cases hstep
      have hok := h.tasks task
      rw [htask] at hok
      have hswapped : EnclaveInvariant readDocument config { s with modelState := some next } :=
        ⟨fun ms hms => by cases hms; exact hok, h.tasks, h.attested⟩
      exact hswapped.setTask trivial
    case h_2 => cases hstep
  | infer task features =>
    rw [ModelReload.step] at hstep
    split at hstep
    case h_1 ms _ hms =>
      cases hstep
      exact h.setTask (taskOk_predictUnderLock (h.served ms hms))
    case h_2 => cases hstep
  | signAttestation task chainId timestamp =>
    rw [ModelReload.step] at hstep
    split at hstep
    case h_1 features scores modelHash model htask =>
      have hok := h.tasks task
      rw [htask] at hok
      split at hstep
      · cases hstep
        have hnew (attestation : AttestationResult) : Vouched readDocument config
            ⟨attestation, modelHash, features, scores, model⟩ := hok
        exact (h.sign (hnew _)).setTask trivial
      · cases hstep
        exact h.setTask trivial
    case h_2 => cases hstep

omit [Field K] [LinearOrder K] in
private theorem fileUnchanged_of_ne (h : ∀ task, a ≠ .loadModelWithFormat task) :
    FileUnchanged s a :=
  fun task _ _ _ _ _ ha _ => absurd ha (h task)

private theorem meets_of_ne {actions : List (Action K)}
    (h : ∀ a ∈ actions, ∀ task, a ≠ .loadModelWithFormat task) :
    Meets (ModelReload.step readDocument encode config) FileUnchanged s actions := by
  induction actions generalizing s with
  | nil => trivial
  | cons a actions ih =>
    refine ⟨fileUnchanged_of_ne (h a List.mem_cons_self), fun _ _ => ih fun b hb => ?_⟩
    exact h b (List.mem_cons_of_mem _ hb)

/-- In every run in which each load finds the same file at both reads, every attestation carries
the hash of bytes whose parse is the model that gave its scores. -/
theorem attested_model_hash (files : String → Option (List UInt8)) (attestor : Attestor)
    (actions : List (Action K))
    (hmeets : Meets (step readDocument encode config) FileUnchanged (start files attestor) actions)
    (hrun : runSteps (step readDocument encode config) (start files attestor) actions = some t) :
    ∀ attested ∈ t.attested, Vouched readDocument config attested := by
  have hstart : EnclaveInvariant readDocument config (start (K := K) files attestor) :=
    ⟨fun _ h => (by cases h), fun _ => trivial, fun _ h => absurd h List.not_mem_nil⟩
  have hend : EnclaveInvariant readDocument config t :=
    runSteps_invariant (fun _ _ _ h hfile hstep => h.step hfile hstep) hstart hmeets hrun
  exact hend.attested

end Invariant

/-! ## A file that changes between the reads -/

/-- A model file with one leaf, whose value is a digit. -/
def leafFile (digit : UInt8) : List UInt8 :=
  utf8 "\x7b\"tree_info\":[\x7b\"tree_structure\":\x7b\"leaf_value\":" ++ digit :: utf8 "\x7d\x7d]\x7d"

/-- The value of the file. -/
def leafDocument (value : ℤ) : Json ℚ :=
  .obj [("tree_info", .arr [.obj [("tree_structure", .obj [("leaf_value", .int value)])]])]

def leafModel (value : ℚ) : EnclaveEnsemble ℚ := ⟨1, 2, 0, [⟨[-1], [-1], [0], [0], [value]⟩]⟩

/-- The values of the two files that the run meets. -/
def readLeafFile (bytes : List UInt8) : Option (Json ℚ) :=
  if bytes = leafFile 49 then some (leafDocument 1)
  else if bytes = leafFile 50 then some (leafDocument 2)
  else none

/-- Stands for the JSON text of a list of numbers. -/
def digitsFile (numbers : List ℚ) : List UInt8 := numbers.map fun x => x.num.toNat.toUInt8

/-- No admin key and no expected hash. -/
def openConfig : EnclaveConfig := ⟨none, none⟩

private theorem readLeafFile_one : readLeafFile (leafFile 49) = some (leafDocument 1) :=
  if_pos rfl

private theorem readLeafFile_two : readLeafFile (leafFile 50) = some (leafDocument 2) := by
  rw [readLeafFile, if_neg (by decide +kernel), if_pos rfl]

private theorem parse_leafDocument {format : RequestedFormat} {value : ℤ}
    {model : EnclaveEnsemble ℚ}
    (h : parseModelWithFormat format (leafDocument value) = some model) :
    model = leafModel value := by
  cases format with
  | auto => exact (Option.some.inj h).symm
  | only format =>
    cases format with
    | xgboost => cases h
    | lightgbm => exact (Option.some.inj h).symm

private theorem parse_leafFile_one :
    parseModelBytes readLeafFile .auto (leafFile 49) = some (leafModel (1 : ℤ)) := by
  rw [parseModelBytes, readLeafFile_one]
  rfl

private theorem parse_leafFile_two :
    parseModelBytes readLeafFile .auto (leafFile 50) = some (leafModel (2 : ℤ)) := by
  rw [parseModelBytes, readLeafFile_two]
  rfl

private theorem predictUnderLock_leafModel (value : ℚ) (modelHash : ℕ) (modelBytes : List UInt8)
    (modelSha256 : List Char) :
    predictUnderLock ⟨leafModel value, modelHash, modelBytes, modelSha256⟩ [0] =
      .predicted [0] [value] modelHash (leafModel value) := by
  have hpredict : predict (leafModel value) [0] = some [value] := by
    simp [predict, leafModel, traverseTree, traverseFrom]
  rw [predictUnderLock, if_neg (by simp [leafModel]), hpredict]

/-- A startup with something between its two reads, and an inference. -/
def loadAndInfer (between : List (Action ℚ)) : List (Action ℚ) :=
  [.startup 0 "model.json" .auto, .readAndValidate 0] ++ between ++
    [.loadModelWithFormat 0, .swapModel 0, .infer 1 [0], .signAttestation 1 none 5]

/-- The enclave with a model file that holds the value one. -/
def leafStart : EnclaveState ℚ := start (fun _ => some (leafFile 49)) plainAttestor

theorem unchanged_model_attested :
    ∃ t, runSteps (step readLeafFile digitsFile openConfig) leafStart (loadAndInfer []) = some t ∧
      t.attested.length = 1 ∧
      ∀ attested ∈ t.attested, Vouched readLeafFile openConfig attested := by
  obtain ⟨t, hrun, hlength⟩ : ∃ t, runSteps (step readLeafFile digitsFile openConfig) leafStart
      (loadAndInfer []) = some t ∧ t.attested.length = 1 := by
    simp [loadAndInfer, runSteps, step, leafStart, start, setTask, readAndValidate, validateModel,
      openConfig, loadModelWithFormat, parse_leafFile_one, predictUnderLock_leafModel]
  refine ⟨t, hrun, hlength, attested_model_hash _ _ _ ?_ hrun⟩
  refine Meets.cons (fileUnchanged_of_ne fun _ h => (by cases h)) rfl
    (Meets.cons (fileUnchanged_of_ne fun _ h => (by cases h)) rfl ⟨?_, fun _ _ => ?_⟩)
  · rintro _ path format modelBytes modelSha256 modelHash ⟨⟩ htask
    cases htask
    rfl
  · refine meets_of_ne fun a ha task => ?_
    rintro rfl
    simp at ha

/-- The host writes another model between the two reads. The attestation carries the hash of the
first one, and its scores are those of the second. -/
theorem changed_model_attested :
    ∃ t attestation, runSteps (step readLeafFile digitsFile openConfig) leafStart
        (loadAndInfer [.writeFile "model.json" (some (leafFile 50))]) = some t ∧
      t.attested = [⟨attestation, keccak256 (leafFile 49), [0], [2], leafModel 2⟩] ∧
      ∀ attested ∈ t.attested, ¬Vouched readLeafFile openConfig attested := by
  obtain ⟨t, attestation, hrun, hattested⟩ : ∃ t attestation,
      runSteps (step readLeafFile digitsFile openConfig) leafStart
        (loadAndInfer [.writeFile "model.json" (some (leafFile 50))]) = some t ∧
      t.attested = [⟨attestation, keccak256 (leafFile 49), [0], [2], leafModel 2⟩] := by
    simp [loadAndInfer, runSteps, step, leafStart, start, setTask, readAndValidate, validateModel,
      openConfig, loadModelWithFormat, parse_leafFile_two, predictUnderLock_leafModel]
  refine ⟨t, attestation, hrun, hattested, ?_⟩
  rw [hattested]
  rintro attested hmem ⟨⟨modelBytes, hhash, ⟨format, hparse⟩, -⟩, -⟩
  obtain rfl := List.mem_singleton.mp hmem
  rw [parseModelBytes, readLeafFile] at hparse
  split at hparse
  · have hmodel := parse_leafDocument hparse
    have hvalue : [[(2 : ℚ)]] = [[((1 : ℤ) : ℚ)]] :=
      congrArg (fun m : EnclaveEnsemble ℚ => m.trees.map EnclaveTree.baseWeights) hmodel
    norm_num at hvalue
  · split at hparse
    case isTrue hbytes =>
      rw [hbytes] at hhash
      have hcollision : keccak256 (leafFile 49) = keccak256 (leafFile 50) := hhash
      rw [keccak256_eq_keccakLanes, keccak256_eq_keccakLanes] at hcollision
      exact absurd hcollision (by decide +kernel)
    case isFalse => cases hparse

end WorldZk.ModelReload
