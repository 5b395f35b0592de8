import Mathlib.Data.List.Nodup
import WorldZk.Sha256
import WorldZk.StepRuns

/-!
# Submissions to the proof registry

`submit_proof` writes the bundle to the storage backend, its record to the database and its hash to
the transparency log, one after the other. The first two are written under the lock of the database
and the third under that of the log, so submissions interleave between them. Every write may fail.
-/

namespace WorldZk.ProofSubmission

open Sha256 StepRuns

/-! ## The stores -/

/-- A record of the table `proofs`. -/
structure StoredProof where
  modelHash : String
  circuitHash : String
  createdAt : ℕ
  verified : Option Bool
  verifiedAt : Option ℕ
  proofSizeBytes : ℕ
  deleted : Bool
deriving DecidableEq, Repr

/-- An entry of the log, whose index is its place. -/
structure LogEntry where
  proofHash : List UInt8
  proofId : String
  appendedAt : ℕ
deriving DecidableEq, Repr

structure Registry where
  blobStore : String → Option (List UInt8)
  proofs : String → Option StoredProof
  log : List LogEntry

def emptyRegistry : Registry := ⟨fun _ => none, fun _ => none, []⟩

inductive RegistryError
  | storageBackend
  | alreadyExists (id : String)
  | insertRecord
  | transparencyLog
deriving DecidableEq, Repr

/-- A bundle as it is serialised, with the hashes of its metadata. -/
structure ProofBundle where
  json : List UInt8
  modelHash : Option String
  circuitHash : Option String
deriving DecidableEq, Repr

/-- Which of the two writes of `store` fails by itself. -/
inductive StoreFault
  | none
  | storage
  | database
deriving DecidableEq, Repr

/-! ## The functions -/

/-- The record that a submission inserts. -/
def newProof (bundle : ProofBundle) (now : ℕ) : StoredProof where
  modelHash := bundle.modelHash.getD ""
  circuitHash := bundle.circuitHash.getD ""
  createdAt := now
  verified := none
  verifiedAt := none
  proofSizeBytes := bundle.json.length
  deleted := false

/-- `ProofDb::store`. A bundle whose record is refused stays in the storage backend. -/
def store (r : Registry) (id : String) (bundle : ProofBundle) (now : ℕ) (fault : StoreFault) :
    Except RegistryError Unit × Registry :=
  if fault = .storage then (.error .storageBackend, r)
  else if (r.blobStore id).isSome then (.error (.alreadyExists id), r)
  else
    let r' := { r with blobStore := Function.update r.blobStore id (some bundle.json) }
    -- The id is the primary key of the table.
    if fault = .database ∨ (r.proofs id).isSome then (.error .insertRecord, r')
    else (.ok (), { r' with proofs := Function.update r.proofs id (some (newProof bundle now)) })

/-- `hash_proof_bundle`. -/
def hashProofBundle (bundleJson : List UInt8) : List UInt8 := sha256 bundleJson

/-- `TransparencyLog::append`; `fails` when counting or inserting does. -/
def append (r : Registry) (proofHash : List UInt8) (id : String) (now : ℕ) (fails : Bool) :
    Except RegistryError ℕ × Registry :=
  if fails then (.error .transparencyLog, r)
  else (.ok r.log.length, { r with log := r.log ++ [⟨proofHash, id, now⟩] })

/-- `submit_proof` when nothing else runs meanwhile: the index in the log. -/
def submitProof (r : Registry) (id : String) (bundle : ProofBundle) (now : ℕ) (fault : StoreFault)
    (logFails : Bool) : Except RegistryError ℕ × Registry :=
  match store r id bundle now fault with
  | (.error e, r') => (.error e, r')
  | (.ok _, r') => append r' (hashProofBundle bundle.json) id now logFails

/-- `ProofDb::get`, which leaves out what was deleted. -/
def getProof (r : Registry) (id : String) : Option StoredProof :=
  (r.proofs id).filter fun proof => !proof.deleted

def mapProof (r : Registry) (id : String) (f : StoredProof → StoredProof) : Registry :=
  { r with proofs := Function.update r.proofs id ((r.proofs id).map f) }

/-- `soft_delete`, with `none` when there is nothing to delete. -/
def softDelete (r : Registry) (id : String) : Option Registry :=
  (getProof r id).map fun _ => mapProof r id fun proof => { proof with deleted := true }

/-- `mark_verified`. -/
def markVerified (r : Registry) (id : String) (result : Bool) (now : ℕ) : Option Registry :=
  (getProof r id).map fun _ =>
    mapProof r id fun proof => { proof with verified := some result, verifiedAt := some now }

/-! ## Interleaved requests -/

inductive TaskState
  | idle
  /-- Between the two locks. -/
  | appending (id : String) (proofHash : List UInt8)
  | finished (result : Except RegistryError ℕ)
  /-- The connection was closed, or the process stopped, between the two locks. -/
  | interrupted (id : String)

structure RegistryRun where
  registry : Registry
  tasks : ℕ → TaskState

inductive Action
  | storeProof (task : ℕ) (id : String) (bundle : ProofBundle) (now : ℕ) (fault : StoreFault)
  | appendToLog (task : ℕ) (now : ℕ) (fails : Bool)
  | interrupt (task : ℕ)
  | deleteProof (id : String)
  | markVerified (id : String) (result : Bool) (now : ℕ)

def setTask (s : RegistryRun) (task : ℕ) (state : TaskState) : RegistryRun :=
  { s with tasks := Function.update s.tasks task state }

def step (s : RegistryRun) : Action → Option RegistryRun
  | .storeProof task id bundle now fault =>
    match s.tasks task with
    | .idle =>
      match store s.registry id bundle now fault with
      | (.error e, r) => some (setTask { s with registry := r } task (.finished (.error e)))
      | (.ok _, r) =>
        some (setTask { s with registry := r } task (.appending id (hashProofBundle bundle.json)))
    | _ => none
  | .appendToLog task now fails =>
    match s.tasks task with
    | .appending id proofHash =>
      let (result, r) := append s.registry proofHash id now fails
      some (setTask { s with registry := r } task (.finished result))
    | _ => none
  | .interrupt task =>
    match s.tasks task with
    | .appending id _ => some (setTask s task (.interrupted id))
    | _ => none
  | .deleteProof id => (softDelete s.registry id).map fun r => { s with registry := r }
  | .markVerified id result now =>
    (markVerified s.registry id result now).map fun r => { s with registry := r }

def start : RegistryRun := ⟨emptyRegistry, fun _ => .idle⟩

/-! ## Records and entries -/

variable {r r' : Registry} {s t : RegistryRun} {a : Action} {id : String} {proofHash : List UInt8}
  {task : ℕ}

/-- There is a record of the proof, and the hash is that of its bundle. -/
def Holds (r : Registry) (id : String) (proofHash : List UInt8) : Prop :=
  (r.proofs id).isSome ∧ ∃ json, r.blobStore id = some json ∧ proofHash = hashProofBundle json

/-- The ids in the log, in their order. -/
def loggedIds (r : Registry) : List String := r.log.map LogEntry.proofId

/-- The same proofs are recorded and logged. -/
structure SameRecords (r r' : Registry) : Prop where
  proofs : ∀ id, (r'.proofs id).isSome = (r.proofs id).isSome
  blobStore : ∀ id json, r.blobStore id = some json → r'.blobStore id = some json
  log : r'.log = r.log

/-- What `store` does. -/
inductive Stored (r : Registry) (id : String) (bundle : ProofBundle) (now : ℕ) :
    Except RegistryError Unit × Registry → Prop
  | failed (e : RegistryError) (r' : Registry) (proofs : r'.proofs = r.proofs)
      (same : SameRecords r r') : Stored r id bundle now (.error e, r')
  | done (fresh : r.proofs id = none) (unwritten : r.blobStore id = none) :
      Stored r id bundle now (.ok (), { r with
        blobStore := Function.update r.blobStore id (some bundle.json)
        proofs := Function.update r.proofs id (some (newProof bundle now)) })

theorem store_stored (r : Registry) (id : String) (bundle : ProofBundle) (now : ℕ)
    (fault : StoreFault) : Stored r id bundle now (store r id bundle now fault) := by
  unfold store
  split
  · exact .failed _ r rfl ⟨fun _ => rfl, fun _ _ h => h, rfl⟩
  · split
    · exact .failed _ r rfl ⟨fun _ => rfl, fun _ _ h => h, rfl⟩
    next hunwritten =>
      have hnone : r.blobStore id = none := Option.not_isSome_iff_eq_none.mp hunwritten
      dsimp only
      split
      · refine .failed _ _ rfl ⟨fun _ => rfl, fun id' json hjson => ?_, rfl⟩
        have hne : id' ≠ id := by
          rintro rfl
          rw [hnone] at hjson
          cases hjson
        exact (Function.update_of_ne hne _ _).trans hjson
      next hrecord =>
        rw [not_or] at hrecord
        exact .done (Option.not_isSome_iff_eq_none.mp hrecord.2) hnone

theorem SameRecords.holds (h : SameRecords r r') (hholds : Holds r id proofHash) :
    Holds r' id proofHash := by
  obtain ⟨hproof, json, hjson, hhash⟩ := hholds
  exact ⟨(h.proofs id).trans hproof, json, h.blobStore id json hjson, hhash⟩

private theorem mapProof_sameRecords (f : StoredProof → StoredProof) :
    SameRecords r (mapProof r id f) where
  proofs id' := by
    change (Function.update r.proofs id ((r.proofs id).map f) id').isSome = _
    by_cases hid : id' = id
    · rw [hid, Function.update_self, Option.isSome_map]
    · rw [Function.update_of_ne hid]
  blobStore _ _ h := h
  log := rfl

/-- Each record has one entry in the log, or its submission is between the two locks. -/
structure Consistent (s : RegistryRun) : Prop where
  entries : ∀ entry ∈ s.registry.log, Holds s.registry entry.proofId entry.proofHash
  once : (loggedIds s.registry).Nodup
  pending : ∀ task id proofHash, s.tasks task = .appending id proofHash →
    Holds s.registry id proofHash ∧ id ∉ loggedIds s.registry
  distinct : ∀ task task' id proofHash proofHash', s.tasks task = .appending id proofHash →
    s.tasks task' = .appending id proofHash' → task = task'
  logged : ∀ id, (s.registry.proofs id).isSome → id ∈ loggedIds s.registry ∨
    ∃ task proofHash, s.tasks task = .appending id proofHash

theorem consistent_start : Consistent start where
  entries _ h := absurd h List.not_mem_nil
  once := List.nodup_nil
  pending _ _ _ h := by cases h
  distinct _ _ _ _ _ h := by cases h
  logged _ h := by cases h

/-- A change that adds no record, with the submissions between the locks as they were. -/
theorem Consistent.of_sameRecords (h : Consistent s) (hsame : SameRecords s.registry t.registry)
    (htasks : ∀ task id proofHash, t.tasks task = .appending id proofHash ↔
      s.tasks task = .appending id proofHash) : Consistent t where
  entries entry hentry := by
    rw [hsame.log] at hentry
    exact hsame.holds (h.entries entry hentry)
  once := by
    rw [loggedIds, hsame.log]
    exact h.once
  pending task id proofHash htask := by
    obtain ⟨hholds, hlog⟩ := h.pending task id proofHash ((htasks _ _ _).mp htask)
    rw [loggedIds, hsame.log]
    exact ⟨hsame.holds hholds, hlog⟩
  distinct task task' id proofHash proofHash' htask htask' :=
    h.distinct task task' id proofHash proofHash' ((htasks _ _ _).mp htask)
      ((htasks _ _ _).mp htask')
  logged id hproof := by
    rw [hsame.proofs] at hproof
    rw [loggedIds, hsame.log]
    refine (h.logged id hproof).imp_right fun ⟨task, proofHash, htask⟩ => ?_
    exact ⟨task, proofHash, (htasks _ _ _).mpr htask⟩

private theorem tasks_setTask {state : TaskState} (i : ℕ) :
    (setTask s task state).tasks i = if i = task then state else s.tasks i := by
  change Function.update s.tasks task state i = _
  rw [Function.update_apply]

/-- A task that enters or leaves no wait for the log. -/
private theorem appending_setTask {state : TaskState} {i : ℕ}
    (hbefore : ∀ id proofHash, s.tasks task ≠ .appending id proofHash)
    (hafter : ∀ id proofHash, state ≠ .appending id proofHash) :
    (setTask s task state).tasks i = .appending id proofHash ↔
      s.tasks i = .appending id proofHash := by
  rw [tasks_setTask]
  split
  next hi =>
    rw [hi]
    exact iff_of_false (hafter id proofHash) (hbefore id proofHash)
  next => exact Iff.rfl

/-- The registry after a bundle and its record were written. -/
def storedRegistry (r : Registry) (id : String) (bundle : ProofBundle) (now : ℕ) : Registry :=
  { r with
    blobStore := Function.update r.blobStore id (some bundle.json)
    proofs := Function.update r.proofs id (some (newProof bundle now)) }

private theorem storedRegistry_holds_self (bundle : ProofBundle) (now : ℕ) :
    Holds (storedRegistry r id bundle now) id (hashProofBundle bundle.json) := by
  refine ⟨?_, bundle.json, Function.update_self _ _ _, rfl⟩
  change (Function.update r.proofs id (some (newProof bundle now)) id).isSome
  rw [Function.update_self]
  rfl

private theorem storedRegistry_holds {id' : String} {bundle : ProofBundle} {now : ℕ}
    (hid : id' ≠ id) (h : Holds r id' proofHash) :
    Holds (storedRegistry r id bundle now) id' proofHash := by
  obtain ⟨hproof, json, hjson, hhash⟩ := h
  refine ⟨?_, json, (Function.update_of_ne hid _ _).trans hjson, hhash⟩
  exact (congrArg Option.isSome (Function.update_of_ne hid _ _)).trans hproof

/-- A submission enters the wait for the log. -/
theorem Consistent.stored (h : Consistent s) {bundle : ProofBundle} {now : ℕ}
    (hidle : ∀ id proofHash, s.tasks task ≠ .appending id proofHash)
    (hfresh : s.registry.proofs id = none) :
    Consistent (setTask { s with registry := storedRegistry s.registry id bundle now } task
      (.appending id (hashProofBundle bundle.json))) := by
  have hother {id' : String} {proofHash' : List UInt8} (hholds : Holds s.registry id' proofHash') :
      id' ≠ id := by
    rintro rfl
    have hproof := hholds.1
    rw [hfresh] at hproof
    cases hproof
  have hunlogged : id ∉ loggedIds s.registry := by
    intro hmem
    obtain ⟨entry, hentry, heq⟩ := List.mem_map.mp hmem
    exact hother (h.entries entry hentry) heq
  refine ⟨fun entry hentry => ?_, h.once, fun i id' hash htask => ?_, ?_, fun id' hproof => ?_⟩
  · have hholds := h.entries entry hentry
    exact storedRegistry_holds (hother hholds) hholds
  · rw [tasks_setTask] at htask
    split at htask
    · cases htask
      exact ⟨storedRegistry_holds_self bundle now, hunlogged⟩
    · obtain ⟨hholds, hlog⟩ := h.pending i id' hash htask
      exact ⟨storedRegistry_holds (hother hholds) hholds, hlog⟩
  · intro i j id' hash hash' hi hj
    rw [tasks_setTask] at hi hj
    split at hi <;> split at hj
    next h₁ h₂ => rw [h₁, h₂]
    next => cases hi; exact absurd rfl (hother (h.pending j _ _ hj).1)
    next => cases hj; exact absurd rfl (hother (h.pending i _ _ hi).1)
    next => exact h.distinct i j id' hash hash' hi hj
  · by_cases hid : id' = id
    · exact .inr ⟨task, _, by rw [tasks_setTask, if_pos rfl, hid]⟩
    · have hbefore : (s.registry.proofs id').isSome := by
        rw [← hproof]
        exact congrArg Option.isSome (Function.update_of_ne hid _ _).symm
      refine (h.logged id' hbefore).imp_right fun ⟨i, hash, hi⟩ => ⟨i, hash, ?_⟩
      rw [tasks_setTask, if_neg, hi]
      rintro rfl
      exact hidle _ _ hi

/-- A submission leaves the wait with its entry in the log. -/
theorem Consistent.appended (h : Consistent s) {now : ℕ} {state : TaskState}
    (htask : s.tasks task = .appending id proofHash)
    (hstate : ∀ id proofHash, state ≠ .appending id proofHash) :
    Consistent (setTask
      { s with registry := { s.registry with log := s.registry.log ++ [⟨proofHash, id, now⟩] } }
      task state) := by
  obtain ⟨hholds, hunlogged⟩ := h.pending task id proofHash htask
  have hids : loggedIds { s.registry with
      log := s.registry.log ++ [⟨proofHash, id, now⟩] } = loggedIds s.registry ++ [id] :=
    List.map_append
  have hother {i : ℕ} {id' : String} {hash : List UInt8}
      (hi : (setTask s task state).tasks i = .appending id' hash) :
      s.tasks i = .appending id' hash ∧ id' ≠ id := by
    rw [tasks_setTask] at hi
    split at hi
    next => exact absurd hi (hstate _ _)
    next hne =>
      refine ⟨hi, ?_⟩
      rintro rfl
      exact hne (h.distinct i task _ _ _ hi htask)
  refine ⟨fun entry hentry => ?_, ?_, fun i id' hash hi => ?_, ?_, fun id' hproof => ?_⟩
  · rcases List.mem_append.mp hentry with hold | hnew
    · exact h.entries entry hold
    · obtain rfl := List.mem_singleton.mp hnew
      exact hholds
  · change (loggedIds { s.registry with
      log := s.registry.log ++ [⟨proofHash, id, now⟩] }).Nodup
    rw [hids, List.nodup_append]
    refine ⟨h.once, List.nodup_singleton _, ?_⟩
    rintro id' hmem _ hlast rfl
    rw [List.mem_singleton.mp hlast] at hmem
    exact hunlogged hmem
  · obtain ⟨hbefore, hne⟩ := hother hi
    obtain ⟨hholds', hlog⟩ := h.pending i id' hash hbefore
    refine ⟨hholds', ?_⟩
    change id' ∉ loggedIds { s.registry with
      log := s.registry.log ++ [⟨proofHash, id, now⟩] }
    rw [hids, List.mem_append, List.mem_singleton, not_or]
    exact ⟨hlog, hne⟩
  · intro i j id' hash hash' hi hj
    exact h.distinct i j id' hash hash' (hother hi).1 (hother hj).1
  · change id' ∈ loggedIds { s.registry with
      log := s.registry.log ++ [⟨proofHash, id, now⟩] } ∨ _
    rw [hids, List.mem_append, List.mem_singleton]
    rcases h.logged id' hproof with hlog | ⟨i, hash, hi⟩
    · exact .inl (.inl hlog)
    · by_cases hid : i = task
      · subst hid
        rw [htask] at hi
        cases hi
        exact .inl (.inr rfl)
      · exact .inr ⟨i, hash, by rw [tasks_setTask, if_neg hid]; exact hi⟩

/-! ## Runs -/

/-- A submission that has stored its proof also writes its entry. -/
def Completes (_ : RegistryRun) : Action → Prop
  | .appendToLog _ _ fails => fails = false
  | .interrupt _ => False
  | _ => True

theorem Consistent.step (h : Consistent s) (hcompletes : Completes s a) (hstep : step s a = some t) :
    Consistent t := by
  cases a with
  | storeProof task id bundle now fault =>
    rw [ProofSubmission.step] at hstep
    split at hstep
    next hidle =>
      have hbefore : ∀ id proofHash, s.tasks task ≠ .appending id proofHash := by
        intro _ _ htask
        rw [hidle] at htask
        cases htask
      have hstored := store_stored s.registry id bundle now fault
      generalize store s.registry id bundle now fault = outcome at hstored hstep
      cases hstored with
      | failed e r' _ hsame =>
        cases hstep
        refine h.of_sameRecords hsame fun i id' hash => ?_
        exact appending_setTask (s := { s with registry := r' }) hbefore fun _ _ hfin => by cases hfin
      | done hfresh _ =>
        cases hstep
        exact h.stored hbefore hfresh
    next => cases hstep
  | appendToLog task now fails =>
    cases hcompletes
    rw [ProofSubmission.step] at hstep
    split at hstep
    next id proofHash htask =>
      cases hstep
      exact h.appended htask fun _ _ hfin => by cases hfin
    next => cases hstep
  | interrupt task => cases hcompletes
  | deleteProof id =>
    obtain ⟨r, hr, rfl⟩ := Option.map_eq_some_iff.mp hstep
    obtain ⟨_, -, rfl⟩ := Option.map_eq_some_iff.mp hr
    exact h.of_sameRecords (mapProof_sameRecords _) fun _ _ _ => Iff.rfl
  | markVerified id result now =>
    obtain ⟨r, hr, rfl⟩ := Option.map_eq_some_iff.mp hstep
    obtain ⟨_, -, rfl⟩ := Option.map_eq_some_iff.mp hr
    exact h.of_sameRecords (mapProof_sameRecords _) fun _ _ _ => Iff.rfl

/-- Each visible proof has one entry in the log, or none yet while its submission is between the two
locks. Each entry is that of a recorded proof and holds the hash of its bundle. -/
structure LogAgrees (s : RegistryRun) : Prop where
  visible : ∀ id, (getProof s.registry id).isSome →
    (loggedIds s.registry).count id = 1 ∨
      (loggedIds s.registry).count id = 0 ∧
        ∃ task proofHash, s.tasks task = .appending id proofHash
  entries : ∀ entry ∈ s.registry.log, Holds s.registry entry.proofId entry.proofHash

theorem Consistent.logAgrees (h : Consistent s) : LogAgrees s where
  visible id hvisible := by
    have hrecord : (s.registry.proofs id).isSome := by
      cases hproof : s.registry.proofs id with
      | none => simp [getProof, hproof] at hvisible
      | some proof => rfl
    rcases h.logged id hrecord with hlog | ⟨task, proofHash, htask⟩
    · exact .inl (List.count_eq_one_of_mem h.once hlog)
    · exact .inr ⟨List.count_eq_zero_of_not_mem (h.pending task id proofHash htask).2,
        task, proofHash, htask⟩
  entries := h.entries

/-- A submission that fails before the log leaves the visible proofs and the log as they were. In
every run in which no submission ends between the two locks, the visible proofs and the log
agree. -/
theorem submission_agrees_with_log :
    (∀ r id bundle now fault e, (submitProof r id bundle now fault false).1 = .error e →
      (submitProof r id bundle now fault false).2.log = r.log ∧
        ∀ id', getProof (submitProof r id bundle now fault false).2 id' = getProof r id') ∧
    ∀ actions t, Meets step Completes start actions → runSteps step start actions = some t →
      LogAgrees t := by
  constructor
  · intro r id bundle now fault e herror
    unfold submitProof at herror ⊢
    have hstored := store_stored r id bundle now fault
    generalize store r id bundle now fault = outcome at hstored herror ⊢
    cases hstored with
    | failed e r' hproofs hsame =>
      refine ⟨hsame.log, fun id' => ?_⟩
      change getProof r' id' = getProof r id'
      rw [getProof, getProof, hproofs]
    | done => cases herror
  · intro actions t hmeets hrun
    exact (runSteps_invariant (fun _ _ _ h hok hstep => h.step hok hstep) consistent_start hmeets
      hrun).logAgrees

def sampleBundle : ProofBundle := ⟨[123, 125], none, none⟩

/-- Two submissions, the second of them stored before the first is logged. -/
def interleavedRun : List Action :=
  [.storeProof 0 "a" sampleBundle 1 .none, .storeProof 1 "b" sampleBundle 2 .none,
    .appendToLog 0 3 false, .deleteProof "a"]

theorem interleaved_submissions_agree :
    ∃ t, runSteps step start interleavedRun = some t ∧ loggedIds t.registry = ["a"] ∧
      (getProof t.registry "b").isSome ∧ LogAgrees t := by
  obtain ⟨t, hrun⟩ : ∃ t, runSteps step start interleavedRun = some t := ⟨_, rfl⟩
  have hmeets : Meets step Completes start interleavedRun :=
    ⟨trivial, fun _ _ => ⟨trivial, fun _ _ => ⟨rfl, fun _ _ => ⟨trivial, fun _ _ => trivial⟩⟩⟩⟩
  have hagrees := submission_agrees_with_log.2 interleavedRun t hmeets hrun
  cases hrun
  exact ⟨_, rfl, rfl, rfl, hagrees⟩

/-- A submission whose entry cannot be written returns an error and leaves a visible proof that is
not in the log; and the log keeps the entry of a proof that was deleted. -/
theorem failed_append_and_deletion_disagree :
    ((submitProof emptyRegistry "a" sampleBundle 1 .none true).1 = .error .transparencyLog ∧
      getProof emptyRegistry "a" = none ∧
      (getProof (submitProof emptyRegistry "a" sampleBundle 1 .none true).2 "a").isSome ∧
      (submitProof emptyRegistry "a" sampleBundle 1 .none true).2.log = []) ∧
    ∃ t, runSteps step start interleavedRun = some t ∧
      ∃ entry ∈ t.registry.log, getProof t.registry entry.proofId = none := by
  refine ⟨⟨rfl, rfl, rfl, rfl⟩, _, rfl, ⟨hashProofBundle sampleBundle.json, "a", 3⟩, ?_, rfl⟩
  exact List.mem_cons_self

end WorldZk.ProofSubmission
