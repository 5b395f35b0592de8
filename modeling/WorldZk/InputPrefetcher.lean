import WorldZk.KeyedTotals
import WorldZk.Sha256
import WorldZk.StepRuns
import Mathlib.Data.Finset.Card
import Mathlib.Data.Finset.Erase

/-!
# The input prefetcher

`InputPrefetcher` fetches the inputs of queued jobs in tasks of their own. The tasks share a cache,
a counter of its bytes and the set of URLs that are being fetched, each behind a lock. An action of
the system is one lock section of one task.
-/

namespace WorldZk.InputPrefetcher

open KeyedTotals StepRuns

/-! ## The state -/

structure CachedInput where
  data : List UInt8
  hash : List UInt8
  fetchedAt : ℕ
  size : ℕ

/-- The cache and the counter. The counter is a natural number, and `underflowed` tells whether
more than its value has been subtracted from it. -/
structure Store where
  cache : KeyedMap String CachedInput
  cacheSize : ℕ
  underflowed : Bool

inductive Phase
  | spawned
  | notCached
  | fetching
  -- Fetched with the expected hash.
  | verified (data : List UInt8)
  | finished

structure Task where
  url : String
  expectedHash : List UInt8
  phase : Phase

structure State where
  store : Store
  inProgress : Finset String
  tasks : List Task

def State.start : State := ⟨⟨∅, 0, false⟩, ∅, []⟩

/-! ## The lock sections -/

/-- The loop that evicts old entries. The entry with the least `fetched_at` is the first that the
iteration over the map finds; the URLs are those that it finds. -/
def evictLoop (maxCacheBytes size : ℕ) : List String → Store → Option Store
  | [], s =>
    if maxCacheBytes < s.cacheSize + size ∧ s.cache.entries ≠ [] then none else some s
  | url :: urls, s =>
    if maxCacheBytes < s.cacheSize + size then
      match s.cache.lookup url with
      | none => none
      | some removed =>
        if ∀ entry ∈ s.cache.entries, removed.fetchedAt ≤ entry.2.fetchedAt then
          evictLoop maxCacheBytes size urls
            { cache := s.cache.erase url
              cacheSize := s.cacheSize - removed.size
              underflowed := s.underflowed || decide (s.cacheSize < removed.size) }
        else none
    else none

/-- The insertion of the new entry, which may replace one. -/
def insertEntry (url : String) (data hash : List UInt8) (now : ℕ) (s : Store) : Store :=
  { s with
    cache := s.cache.insert url ⟨data, hash, now, data.length⟩
    cacheSize := s.cacheSize + data.length }

inductive Action
  -- A call of `prefetch` for a job with the URL, the input hash and the input type.
  | prefetch (url : String) (inputHash : List UInt8) (inputType : UInt8)
  | checkCache (task : ℕ)
  | enter (task : ℕ)
  -- The fetch has ended, with the input or an error.
  | leave (task : ℕ) (result : Option (List UInt8))
  | insert (task now : ℕ) (evicted : List String)

/-- The phase after the fetch. -/
def afterFetch (expectedHash : List UInt8) : Option (List UInt8) → Phase
  | some data => if Sha256.sha256 data = expectedHash then .verified data else .finished
  | none => .finished

def State.setPhase (s : State) (task : ℕ) (t : Task) (phase : Phase) : State :=
  { s with tasks := s.tasks.set task { t with phase } }

def step (maxCacheBytes : ℕ) (s : State) : Action → Option State
  | .prefetch url inputHash inputType =>
    if inputType = 1 then some s
    else some { s with tasks := s.tasks ++ [⟨url, inputHash, .spawned⟩] }
  | .checkCache task =>
    match s.tasks[task]? with
    | some ⟨url, expectedHash, .spawned⟩ =>
      some (s.setPhase task ⟨url, expectedHash, .spawned⟩
        (if url ∈ s.store.cache then .finished else .notCached))
    | _ => none
  | .enter task =>
    match s.tasks[task]? with
    | some ⟨url, expectedHash, .notCached⟩ =>
      if url ∈ s.inProgress then
        some (s.setPhase task ⟨url, expectedHash, .notCached⟩ .finished)
      else
        some { s.setPhase task ⟨url, expectedHash, .notCached⟩ .fetching with
          inProgress := Insert.insert url s.inProgress }
    | _ => none
  | .leave task result =>
    match s.tasks[task]? with
    | some ⟨url, expectedHash, .fetching⟩ =>
      some { s.setPhase task ⟨url, expectedHash, .fetching⟩ (afterFetch expectedHash result) with
        inProgress := s.inProgress.erase url }
    | _ => none
  | .insert task now evicted =>
    match s.tasks[task]? with
    | some ⟨url, expectedHash, .verified data⟩ => do
      let store ← evictLoop maxCacheBytes data.length evicted s.store
      some { s.setPhase task ⟨url, expectedHash, .verified data⟩ .finished with
        store := insertEntry url data (Sha256.sha256 data) now store }
    | _ => none

/-- `get_cached`. -/
def getCached (cacheTtl now : ℕ) (s : State) (url : String) (expectedHash : List UInt8) :
    Option (List UInt8) :=
  match s.store.cache.lookup url with
  | none => none
  | some entry =>
    if cacheTtl < now - entry.fetchedAt then none
    else if entry.hash ≠ expectedHash then none
    else some entry.data

structure PrefetchStats where
  cachedEntries : ℕ
  cachedBytes : ℕ
  inProgress : ℕ
  maxBytes : ℕ

def stats (maxCacheBytes : ℕ) (s : State) : PrefetchStats :=
  ⟨card s.store.cache, s.store.cacheSize, s.inProgress.card, maxCacheBytes⟩

/-! ## The accounting -/

/-- The bytes that are in the cache. -/
def cachedBytes (cache : KeyedMap String CachedInput) : ℕ := total CachedInput.size cache

def Accounted (s : State) : Prop :=
  s.store.cacheSize = cachedBytes s.store.cache ∧ s.store.underflowed = false

/-- The counter is ahead of the cache by `n` bytes. -/
structure Ahead (n : ℕ) (s : Store) : Prop where
  cacheSize_eq : s.cacheSize = cachedBytes s.cache + n
  not_underflowed : s.underflowed = false

/-- The size of the entry that an insertion replaces, after what it evicts. -/
def replacedBytes (maxCacheBytes : ℕ) (s : State) : Action → ℕ
  | .insert task _ evicted =>
    match s.tasks[task]? with
    | some ⟨url, _, .verified data⟩ =>
      match evictLoop maxCacheBytes data.length evicted s.store with
      | some store => ((store.cache.lookup url).map CachedInput.size).getD 0
      | none => 0
    | _ => 0
  | _ => 0

/-- An insertion replaces no entry that has bytes. -/
def ReplacesNothing (maxCacheBytes : ℕ) (s : State) (a : Action) : Prop :=
  replacedBytes maxCacheBytes s a = 0

section Accounting

variable {maxCacheBytes size n : ℕ} {store store' : Store} {s t : State}

theorem Ahead.evict {url : String} {removed : CachedInput} (h : Ahead n store)
    (hlookup : store.cache.lookup url = some removed) :
    Ahead n ⟨store.cache.erase url, store.cacheSize - removed.size,
      store.underflowed || decide (store.cacheSize < removed.size)⟩ := by
  have htotal : cachedBytes (store.cache.erase url) + removed.size = cachedBytes store.cache :=
    total_erase hlookup
  have hsize := h.cacheSize_eq
  refine ⟨?_, ?_⟩
  · change store.cacheSize - removed.size = cachedBytes (store.cache.erase url) + n
    omega
  · change (store.underflowed || decide (store.cacheSize < removed.size)) = false
    rw [h.not_underflowed, Bool.false_or, decide_eq_false_iff_not]
    omega

/-- What the evictions keep, and where they end. -/
theorem evictLoop_spec {urls : List String}
    (hloop : evictLoop maxCacheBytes size urls store = some store') (h : Ahead n store) :
    Ahead n store' ∧ store'.cacheSize ≤ store.cacheSize ∧
      (store'.cacheSize + size ≤ maxCacheBytes ∨ store'.cache.entries = []) := by
  induction urls generalizing store with
  | nil =>
    rw [evictLoop] at hloop
    split at hloop
    case isTrue => cases hloop
    case isFalse hend =>
      cases hloop
      refine ⟨h, le_rfl, ?_⟩
      by_cases hfits : store'.cacheSize + size ≤ maxCacheBytes
      · exact .inl hfits
      · exact .inr (by_contra fun hne => hend ⟨not_le.mp hfits, hne⟩)
  | cons url urls ih =>
    rw [evictLoop] at hloop
    split at hloop
    case isTrue =>
      split at hloop
      case h_1 => cases hloop
      case h_2 removed hlookup =>
        split at hloop
        case isTrue =>
          obtain ⟨hahead, hle, hend⟩ := ih hloop (h.evict hlookup)
          exact ⟨hahead, hle.trans (Nat.sub_le _ _), hend⟩
        case isFalse => cases hloop
    case isFalse => cases hloop

theorem Ahead.insertEntry {url : String} {data hash : List UInt8} {now : ℕ} (h : Ahead n store) :
    Ahead (n + ((store.cache.lookup url).map CachedInput.size).getD 0)
      (InputPrefetcher.insertEntry url data hash now store) := by
  have hsize := h.cacheSize_eq
  have htotal : cachedBytes (store.cache.insert url ⟨data, hash, now, data.length⟩) =
      cachedBytes (store.cache.erase url) + data.length := total_insert
  refine ⟨?_, h.not_underflowed⟩
  change store.cacheSize + data.length =
    cachedBytes (store.cache.insert url ⟨data, hash, now, data.length⟩) + _
  rw [htotal]
  cases hlookup : store.cache.lookup url with
  | none =>
    rw [erase_of_lookup_none hlookup, Option.map_none, Option.getD_none]
    omega
  | some old =>
    have herase : cachedBytes (store.cache.erase url) + old.size = cachedBytes store.cache :=
      total_erase hlookup
    rw [Option.map_some, Option.getD_some]
    omega

/-- Only an insertion changes the store. -/
theorem step_store {a : Action} (hstep : step maxCacheBytes s a = some t) :
    (t.store = s.store ∧ replacedBytes maxCacheBytes s a = 0) ∨
      ∃ evicted store url data now,
        evictLoop maxCacheBytes data.length evicted s.store = some store ∧
        t.store = insertEntry url data (Sha256.sha256 data) now store ∧
        replacedBytes maxCacheBytes s a =
          ((store.cache.lookup url).map CachedInput.size).getD 0 := by
  cases a with
  | prefetch url inputHash inputType =>
    simp only [step] at hstep
    split at hstep <;> (cases hstep; exact .inl ⟨rfl, rfl⟩)
  | checkCache task =>
    simp only [step] at hstep
    split at hstep
    · cases hstep
      exact .inl ⟨rfl, rfl⟩
    · cases hstep
  | enter task =>
    simp only [step] at hstep
    split at hstep
    · split at hstep <;> (cases hstep; exact .inl ⟨rfl, rfl⟩)
    · cases hstep
  | leave task result =>
    simp only [step] at hstep
    split at hstep
    · cases hstep
      exact .inl ⟨rfl, rfl⟩
    · cases hstep
  | insert task now evicted =>
    simp only [step] at hstep
    split at hstep
    case h_1 url expectedHash data htask =>
      obtain ⟨store, hloop, hstore⟩ := Option.bind_eq_some_iff.mp hstep
      cases hstore
      refine .inr ⟨evicted, store, url, data, now, hloop, rfl, ?_⟩
      simp only [replacedBytes, htask, hloop]
    case h_2 => cases hstep

theorem Ahead.step {a : Action} (h : Ahead n s.store) (hstep : step maxCacheBytes s a = some t) :
    Ahead (n + replacedBytes maxCacheBytes s a) t.store := by
  rcases step_store hstep with ⟨hstore, hnone⟩ | ⟨evicted, store, url, data, now, hloop, hstore,
    hreplaced⟩
  · rwa [hstore, hnone]
  · rw [hstore, hreplaced]
    exact (evictLoop_spec hloop h).1.insertEntry

/-- In a run the counter stays exact as long as every insertion replaces nothing, and never gets
exact again. -/
theorem Ahead.run {actions : List Action} (h : Ahead n s.store)
    (hrun : runSteps (InputPrefetcher.step maxCacheBytes) s actions = some t) :
    ∃ k, Ahead (n + k) t.store ∧
      (k = 0 ↔ Meets (InputPrefetcher.step maxCacheBytes) (ReplacesNothing maxCacheBytes) s
        actions) := by
  induction actions generalizing s n with
  | nil =>
    cases hrun
    exact ⟨0, h, iff_of_true rfl trivial⟩
  | cons a actions ih =>
    obtain ⟨s', hstep, hrest⟩ := runSteps_cons.mp hrun
    obtain ⟨k, hahead, hk⟩ := ih (h.step hstep) hrest
    refine ⟨replacedBytes maxCacheBytes s a + k, by rwa [← Nat.add_assoc], ?_⟩
    rw [Nat.add_eq_zero_iff, hk]
    refine and_congr_right fun _ => ⟨fun hmeets s'' hs'' => ?_, fun hmeets => hmeets s' hstep⟩
    rw [hstep] at hs''
    cases hs''
    exact hmeets

end Accounting

/-! ## The budget -/

section Budget

variable {maxCacheBytes : ℕ} {s t : State}

/-- Every fetched input fits the budget. -/
def FetchesFit (maxCacheBytes : ℕ) (actions : List Action) : Prop :=
  ∀ task data, .leave task (some data) ∈ actions → data.length ≤ maxCacheBytes

/-- What is in the cache fits, and what is to be inserted would fit alone. -/
structure WithinBudget (maxCacheBytes : ℕ) (s : State) : Prop where
  ahead : Ahead 0 s.store
  cacheSize_le : s.store.cacheSize ≤ maxCacheBytes
  verified_le : ∀ task ∈ s.tasks, ∀ data, task.phase = .verified data →
    data.length ≤ maxCacheBytes

theorem WithinBudget.setPhase (h : WithinBudget maxCacheBytes s) {task : ℕ} {url : String}
    {expectedHash : List UInt8} {old phase : Phase}
    (hphase : ∀ data, phase = .verified data → data.length ≤ maxCacheBytes) :
    ∀ t ∈ (s.setPhase task ⟨url, expectedHash, old⟩ phase).tasks, ∀ data,
      t.phase = .verified data → data.length ≤ maxCacheBytes := by
  intro t ht data hdata
  rcases List.mem_or_eq_of_mem_set ht with hmem | rfl
  · exact h.verified_le t hmem data hdata
  · exact hphase data hdata

theorem WithinBudget.step {a : Action} (h : WithinBudget maxCacheBytes s)
    (hreplaces : ReplacesNothing maxCacheBytes s a) (hfits : FetchesFit maxCacheBytes [a])
    (hstep : InputPrefetcher.step maxCacheBytes s a = some t) : WithinBudget maxCacheBytes t := by
  have hahead := h.ahead.step hstep
  rw [hreplaces, Nat.add_zero] at hahead
  cases a with
  | prefetch url inputHash inputType =>
    simp only [InputPrefetcher.step] at hstep
    split at hstep
    · cases hstep
      exact h
    · cases hstep
      refine ⟨hahead, h.cacheSize_le, fun task htask data hdata => ?_⟩
      rcases List.mem_append.mp htask with hmem | hmem
      · exact h.verified_le task hmem data hdata
      · rw [List.mem_singleton.mp hmem] at hdata
        cases hdata
  | checkCache task =>
    simp only [InputPrefetcher.step] at hstep
    split at hstep
    · cases hstep
      refine ⟨hahead, h.cacheSize_le, h.setPhase fun data hdata => ?_⟩
      split at hdata <;> cases hdata
    · cases hstep
  | enter task =>
    simp only [InputPrefetcher.step] at hstep
    split at hstep
    · split at hstep <;>
      · cases hstep
        exact ⟨hahead, h.cacheSize_le, h.setPhase nofun⟩
    · cases hstep
  | leave task result =>
    simp only [InputPrefetcher.step] at hstep
    split at hstep
    · cases hstep
      refine ⟨hahead, h.cacheSize_le, h.setPhase fun data hdata => ?_⟩
      unfold afterFetch at hdata
      split at hdata
      case h_1 data' =>
        split at hdata
        · cases hdata
          exact hfits task _ (List.mem_singleton_self _)
        · cases hdata
      case h_2 => cases hdata
    · cases hstep
  | insert task now evicted =>
    simp only [InputPrefetcher.step] at hstep
    split at hstep
    case h_1 url expectedHash data htask =>
      obtain ⟨store, hloop, hstore⟩ := Option.bind_eq_some_iff.mp hstep
      cases hstore
      have hdata := h.verified_le _ (List.mem_of_getElem? htask) data rfl
      obtain ⟨hstore, hle, hend⟩ := evictLoop_spec hloop h.ahead
      refine ⟨hahead, ?_, h.setPhase nofun⟩
      change store.cacheSize + data.length ≤ maxCacheBytes
      rcases hend with hend | hempty
      · exact hend
      · have hsize := hstore.cacheSize_eq
        rw [cachedBytes, total, hempty, List.map_nil, List.sum_nil] at hsize
        omega
    case h_2 => cases hstep

theorem WithinBudget.run {actions : List Action} (h : WithinBudget maxCacheBytes s)
    (hmeets : Meets (InputPrefetcher.step maxCacheBytes) (ReplacesNothing maxCacheBytes) s actions)
    (hfits : FetchesFit maxCacheBytes actions)
    (hrun : runSteps (InputPrefetcher.step maxCacheBytes) s actions = some t) :
    WithinBudget maxCacheBytes t := by
  have hsingle : ∀ a ∈ actions, FetchesFit maxCacheBytes [a] := fun a ha task data hmem =>
    hfits task data (List.mem_singleton.mp hmem ▸ ha)
  exact runSteps_invariant (fun _ _ _ hs hok hstep => hs.step hok.1 hok.2 hstep) h
    (hmeets.and_of_forall hsingle) hrun

end Budget

/-! ## What is handed out -/

section HandedOut

variable {maxCacheBytes size : ℕ} {store store' : Store} {s t : State}

/-- Every entry has the hash of its input. -/
def HashesMatch (s : Store) : Prop :=
  ∀ url entry, s.cache.lookup url = some entry → entry.hash = Sha256.sha256 entry.data

theorem HashesMatch.evictLoop {urls : List String} (h : HashesMatch store)
    (hloop : evictLoop maxCacheBytes size urls store = some store') : HashesMatch store' := by
  induction urls generalizing store with
  | nil =>
    rw [InputPrefetcher.evictLoop] at hloop
    split at hloop
    case isTrue => cases hloop
    case isFalse =>
      cases hloop
      exact h
  | cons url urls ih =>
    rw [InputPrefetcher.evictLoop] at hloop
    split at hloop
    case isTrue =>
      split at hloop
      case h_1 => cases hloop
      case h_2 removed hlookup =>
        split at hloop
        case isTrue => exact ih (fun url' entry hentry =>
          h url' entry (lookup_of_lookup_erase hentry)) hloop
        case isFalse => cases hloop
    case isFalse => cases hloop

theorem HashesMatch.step {a : Action} (h : HashesMatch s.store)
    (hstep : step maxCacheBytes s a = some t) : HashesMatch t.store := by
  rcases step_store hstep with ⟨hstore, -⟩ | ⟨evicted, store, url, data, now, hloop, hstore, -⟩
  · rwa [hstore]
  · rw [hstore]
    intro url' entry hentry
    by_cases hurl : url' = url
    · rw [hurl, insertEntry, AList.lookup_insert] at hentry
      cases hentry
      rfl
    · rw [insertEntry, AList.lookup_insert_ne hurl] at hentry
      exact h.evictLoop hloop url' entry hentry

/-- In every interleaving, an input that is handed out has the hash that the caller expects. -/
theorem sha256_of_getCached {actions : List Action} {cacheTtl now : ℕ} {url : String}
    {expectedHash data : List UInt8}
    (hrun : runSteps (InputPrefetcher.step maxCacheBytes) State.start actions = some t)
    (h : getCached cacheTtl now t url expectedHash = some data) :
    Sha256.sha256 data = expectedHash := by
  have hstart : HashesMatch State.start.store := by
    intro url' entry hentry
    cases hentry
  have hmatch : HashesMatch t.store :=
    runSteps_invariant (I := fun s => HashesMatch s.store) (fun _ _ _ hs _ hstep => hs.step hstep)
      hstart meets_true hrun
  unfold getCached at h
  split at h
  case h_1 => cases h
  case h_2 entry hlookup =>
    split at h
    case isTrue => cases h
    case isFalse =>
      split at h
      case isTrue => cases h
      case isFalse hhash =>
        cases h
        rw [← hmatch url entry hlookup]
        exact not_not.mp hhash

end HandedOut

/-- Two tasks fetch one byte from one URL, and the second enters when the first has left. -/
def overlappingTasks : List Action :=
  [.prefetch "u" (Sha256.sha256 [0]) 0, .prefetch "u" (Sha256.sha256 [0]) 0, .checkCache 0,
    .checkCache 1, .enter 0, .leave 0 (some [0]), .enter 1, .leave 1 (some [0]), .insert 0 1 [],
    .insert 1 2 []]

theorem overlappingTasks_run : ∃ t, runSteps (step 2) State.start overlappingTasks = some t ∧
    t.store.cacheSize = 2 ∧ cachedBytes t.store.cache = 1 := by
  have hsizes : (runSteps (step 2) State.start overlappingTasks).map
      (fun t => (t.store.cacheSize, cachedBytes t.store.cache)) = some (2, 1) := by
    decide +kernel
  obtain ⟨t, hrun, hsizes⟩ := Option.map_eq_some_iff.mp hsizes
  exact ⟨t, hrun, congrArg Prod.fst hsizes, congrArg Prod.snd hsizes⟩

theorem overlappingTasks_hand_out : ∃ t data,
    runSteps (step 2) State.start overlappingTasks = some t ∧
      getCached 300 5 t "u" (Sha256.sha256 [0]) = some data ∧
        Sha256.sha256 data = Sha256.sha256 [0] := by
  have hcached : ((runSteps (step 2) State.start overlappingTasks).bind fun t =>
      getCached 300 5 t "u" (Sha256.sha256 [0])) = some [0] := by
    decide +kernel
  obtain ⟨t, hrun, hdata⟩ := Option.bind_eq_some_iff.mp hcached
  exact ⟨t, [0], hrun, hdata, sha256_of_getCached hrun hdata⟩

/-- In every interleaving no subtraction underflows. The counter is exact after it if and only if
no insertion replaced an entry that has bytes, and then it stays within the budget when every
fetched input does. -/
theorem cache_size_exact_iff {maxCacheBytes : ℕ} {actions : List Action} {t : State}
    (hrun : runSteps (step maxCacheBytes) State.start actions = some t) :
    t.store.underflowed = false ∧
    (Accounted t ↔
      Meets (step maxCacheBytes) (ReplacesNothing maxCacheBytes) State.start actions) ∧
    (Meets (step maxCacheBytes) (ReplacesNothing maxCacheBytes) State.start actions →
      FetchesFit maxCacheBytes actions → t.store.cacheSize ≤ maxCacheBytes) := by
  have hstart : Ahead 0 State.start.store := ⟨rfl, rfl⟩
  obtain ⟨k, hahead, hk⟩ := hstart.run hrun
  refine ⟨hahead.not_underflowed, ?_, fun hmeets hfits => ?_⟩
  · rw [← hk, Accounted, hahead.cacheSize_eq]
    have hflag := hahead.not_underflowed
    constructor
    · rintro ⟨hsize, -⟩
      omega
    · intro hzero
      exact ⟨by omega, hflag⟩
  · exact ((WithinBudget.mk hstart (Nat.zero_le _) nofun).run hmeets hfits hrun).cacheSize_le

/-- The counter is 2 with one byte in the cache. -/
theorem entry_counted_twice :
    ∃ t, runSteps (step 2) State.start overlappingTasks = some t ∧ ¬Accounted t := by
  obtain ⟨t, hrun, hsize, hbytes⟩ := overlappingTasks_run
  refine ⟨t, hrun, fun h => ?_⟩
  rw [Accounted, hsize, hbytes] at h
  exact absurd h.1 (by decide)

/-- So one of the insertions replaces the byte. -/
theorem overlapping_tasks_replace :
    ¬Meets (step 2) (ReplacesNothing 2) State.start overlappingTasks := by
  obtain ⟨t, hrun, hsize, hbytes⟩ := overlappingTasks_run
  intro hmeets
  have haccounted := (cache_size_exact_iff hrun).2.1.mpr hmeets
  rw [Accounted, hsize, hbytes] at haccounted
  exact absurd haccounted.1 (by decide)

end WorldZk.InputPrefetcher
