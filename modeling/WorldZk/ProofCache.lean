import WorldZk.HexText
import WorldZk.KeyedTotals
import WorldZk.LittleEndianWords
import WorldZk.StepRuns
import Mathlib.Logic.Function.Basic

/-!
# The proof cache

`ProofCache`: a bounded map in memory over a directory of files. How a proof is written as bytes
and read back is a parameter.
-/

namespace WorldZk.ProofCache

open HexText KeyedTotals LittleEndianWords StepRuns

/-! ## Keys and proofs -/

structure ProofCacheKey where
  imageId : Vector UInt8 32
  inputHash : Vector UInt8 32
  useSnark : Bool
deriving DecidableEq

def ProofCacheKey.asHex (key : ProofCacheKey) : List Char :=
  let suffix := if key.useSnark then "_snark".toList else "_stark".toList
  hexEncode key.imageId.toList ++ '_' :: (hexEncode key.inputHash.toList ++ suffix)

/-- The name of the file of a key. -/
def ProofCacheKey.fileName (key : ProofCacheKey) : List Char := key.asHex ++ ".bin".toList

private theorem suffix_injective : ∀ useSnark useSnark' : Bool,
    (if useSnark then "_snark".toList else "_stark".toList) =
      (if useSnark' then "_snark".toList else "_stark".toList) → useSnark = useSnark' := by
  decide

theorem length_hexEncode (bytes : List UInt8) : (hexEncode bytes).length = 2 * bytes.length := by
  induction bytes with
  | nil => rfl
  | cons byte bytes ih =>
    change (hexEncode bytes).length + 1 + 1 = 2 * (bytes.length + 1)
    omega

theorem fileName_injective : Function.Injective ProofCacheKey.fileName := by
  rintro ⟨imageId, inputHash, useSnark⟩ ⟨imageId', inputHash', useSnark'⟩ h
  have hhex := List.append_cancel_right h
  simp only [ProofCacheKey.asHex] at hhex
  obtain ⟨himage, hrest⟩ := List.append_inj hhex (by simp [length_hexEncode])
  obtain ⟨hinput, hsuffix⟩ :=
    List.append_inj (List.cons.inj hrest).2 (by simp [length_hexEncode])
  have himage' : imageId = imageId' := Vector.toList_inj.mp (hexEncode_injective himage)
  have hinput' : inputHash = inputHash' := Vector.toList_inj.mp (hexEncode_injective hinput)
  rw [himage', hinput', suffix_injective useSnark useSnark' hsuffix]

structure CachedProof where
  proof : List UInt8
  journal : List UInt8
  cycles : UInt64
  generatedAt : UInt64
  proofTimeMs : UInt64
deriving DecidableEq

/-- `bincode` on proofs. -/
structure Codec where
  serialize : CachedProof → Option (List UInt8)
  deserialize : List UInt8 → Option CachedProof

/-! ## The cache -/

structure CacheEntry where
  proof : CachedProof
  lastAccessed : ℕ
  accessCount : ℕ

structure CacheStats where
  hits : ℕ
  misses : ℕ
  inserts : ℕ
  evictions : ℕ
  diskHits : ℕ

/-- The time to live is in nanoseconds. -/
structure Config where
  maxMemoryEntries : ℕ
  ttl : ℕ

abbrev Memory : Type := KeyedMap ProofCacheKey CacheEntry

/-- The files of a directory. -/
abbrev Directory : Type := KeyedMap (List Char) (List UInt8)

/-- There is no directory when the cache has no path. -/
structure State where
  memory : Memory
  disk : Option Directory
  stats : CacheStats

def State.start (disk : Option Directory) : State := ⟨∅, disk, ⟨0, 0, 0, 0, 0⟩⟩

/-- The clock gives seconds. -/
def Expired (ttl : ℕ) (now : UInt64) (proof : CachedProof) : Prop :=
  ttl < (now.toNat - proof.generatedAt.toNat) * 10 ^ 9

instance (ttl : ℕ) (now : UInt64) (proof : CachedProof) : Decidable (Expired ttl now proof) :=
  inferInstanceAs (Decidable (_ < _))

/-- The loop that evicts. The least recently used entry is the first that the iteration over the
map finds; the keys are those that it finds. -/
def evictLoop (maxMemoryEntries : ℕ) : List ProofCacheKey → Memory → Option Memory
  | [], memory =>
    if maxMemoryEntries ≤ card memory ∧ memory.entries ≠ [] then none else some memory
  | lruKey :: lruKeys, memory =>
    if maxMemoryEntries ≤ card memory then
      match memory.lookup lruKey with
      | none => none
      | some lru =>
        if ∀ entry ∈ memory.entries, lru.lastAccessed ≤ entry.2.lastAccessed then
          evictLoop maxMemoryEntries lruKeys (memory.erase lruKey)
        else none
    else none

def insertMemory (config : Config) (evicted : List ProofCacheKey) (key : ProofCacheKey)
    (proof : CachedProof) (accessed : ℕ) (s : State) : Option State := do
  let memory ← evictLoop config.maxMemoryEntries evicted s.memory
  some { s with
    memory := memory.insert key ⟨proof, accessed, 1⟩
    stats := { s.stats with evictions := s.stats.evictions + evicted.length } }

variable (codec : Codec)

def loadFromDisk (disk : Directory) (key : ProofCacheKey) : Option CachedProof :=
  (disk.lookup key.fileName).bind codec.deserialize

/-- How the write of a file ends. A failed write leaves a file or none. -/
inductive WriteOutcome
  | written
  | failed (left : Option (List UInt8))

def saveToDisk (key : ProofCacheKey) (proof : CachedProof) (outcome : WriteOutcome)
    (disk : Directory) : Directory :=
  match codec.serialize proof with
  | none => disk
  | some data =>
    match outcome with
    | .written => disk.insert key.fileName data
    | .failed (some left) => disk.insert key.fileName left
    | .failed none => disk.erase key.fileName

/-- The clock is read for the entry in memory, for the file and for the last access. -/
structure GetClock where
  memory : UInt64
  disk : UInt64
  accessed : ℕ

def State.miss (s : State) : State :=
  { s with stats := { s.stats with misses := s.stats.misses + 1 } }

/-- The second half of `get`. -/
def getFromDisk (config : Config) (key : ProofCacheKey) (clock : GetClock) (readable : Bool)
    (evicted : List ProofCacheKey) (s : State) : Option (Option CachedProof × State) :=
  match s.disk.bind fun disk => if readable then loadFromDisk codec disk key else none with
  | none => some (none, s.miss)
  | some proof =>
    if Expired config.ttl clock.disk proof then some (none, s.miss)
    else do
      let s ← insertMemory config evicted key proof clock.accessed s
      some (some proof, { s with
        stats := { s.stats with hits := s.stats.hits + 1, diskHits := s.stats.diskHits + 1 } })

def get (config : Config) (key : ProofCacheKey) (clock : GetClock) (readable : Bool)
    (evicted : List ProofCacheKey) (s : State) : Option (Option CachedProof × State) :=
  match s.memory.lookup key with
  | none => getFromDisk codec config key clock readable evicted s
  | some entry =>
    if Expired config.ttl clock.memory entry.proof then
      getFromDisk codec config key clock readable evicted
        { s with memory := s.memory.erase key }
    else
      some (some entry.proof, { s with
        memory := s.memory.insert key
          ⟨entry.proof, clock.accessed, entry.accessCount + 1⟩
        stats := { s.stats with hits := s.stats.hits + 1 } })

def put (config : Config) (key : ProofCacheKey) (proof : CachedProof) (accessed : ℕ)
    (evicted : List ProofCacheKey) (outcome : WriteOutcome) (s : State) : Option State := do
  let s ← insertMemory config evicted key proof accessed s
  some { s with
    disk := s.disk.map (saveToDisk codec key proof outcome)
    stats := { s.stats with inserts := s.stats.inserts + 1 } }

/-! ## The latest proofs -/

inductive Action
  | put (key : ProofCacheKey) (proof : CachedProof) (accessed : ℕ) (evicted : List ProofCacheKey)
    (outcome : WriteOutcome)
  | get (key : ProofCacheKey) (clock : GetClock) (readable : Bool) (evicted : List ProofCacheKey)

/-- The cache with the proof that was last put under each key. -/
structure Tracked where
  cache : State
  latest : ProofCacheKey → Option CachedProof

def readDisk (disk : Option Directory) (key : ProofCacheKey) : Option CachedProof :=
  disk.bind fun disk => loadFromDisk codec disk key

/-- The directory may hold the files of an earlier process. -/
def Tracked.start (disk : Option Directory) : Tracked := ⟨State.start disk, readDisk codec disk⟩

def step (config : Config) (s : Tracked) : Action → Option Tracked
  | .put key proof accessed evicted outcome =>
    (put codec config key proof accessed evicted outcome s.cache).map fun cache =>
      ⟨cache, Function.update s.latest key (some proof)⟩
  | .get key clock readable evicted =>
    (get codec config key clock readable evicted s.cache).map fun result => ⟨result.2, s.latest⟩

/-- What one call has to do: the memory keeps its capacity, a proof that is put again evicts no
other, and a proof that is got is the latest of its key and has not expired. -/
def Correct (config : Config) (s : Tracked) (a : Action) : Prop :=
  (∀ t, step codec config s a = some t → card t.cache.memory ≤ config.maxMemoryEntries) ∧
  match a with
  | .put key _ _ _ _ =>
    ∀ t, step codec config s a = some t → key ∈ s.cache.memory →
      ∀ other ∈ s.cache.memory, other ∈ t.cache.memory
  | .get key clock readable evicted =>
    ∀ proof t, get codec config key clock readable evicted s.cache = some (some proof, t) →
      s.latest key = some proof ∧
        ∃ now ∈ [clock.memory, clock.disk], ¬ Expired config.ttl now proof

/-- There is an entry in memory that has not expired. -/
def InMemory (config : Config) (memory : Memory) (key : ProofCacheKey) (now : UInt64) : Prop :=
  ∃ entry, memory.lookup key = some entry ∧ ¬ Expired config.ttl now entry.proof

/-- A proof is put again below the capacity or in the place of the least recently used entry. -/
def ReplacesOwn (config : Config) (s : Tracked) : Action → Prop
  | .put key _ _ evicted _ =>
    key ∈ s.cache.memory → card s.cache.memory < config.maxMemoryEntries ∨ evicted = [key]
  | .get _ _ _ _ => True

/-- No call has to answer from a file that a failed write has left behind the latest proof. -/
def ReadsCurrent (config : Config) (s : Tracked) : Action → Prop
  | .put _ _ _ _ _ => True
  | .get key clock readable _ =>
    ¬ InMemory config s.cache.memory key clock.memory → readable = true →
      ∀ file, readDisk codec s.cache.disk key = some file →
        ¬ Expired config.ttl clock.disk file → s.latest key = some file

/-- A write that does not succeed leaves no other proof in the file. -/
def WriteKeeps (s : Tracked) : Action → Prop
  | .put key proof _ _ outcome =>
    match codec.serialize proof, outcome with
    | none, _ => ∀ file, readDisk codec s.cache.disk key = some file → file = proof
    | some _, .written => True
    | some _, .failed left => ∀ file, left.bind codec.deserialize = some file → file = proof
  | .get _ _ _ _ => True

/-! ## What the calls do -/

variable {codec} {config : Config} {key : ProofCacheKey} {evicted : List ProofCacheKey}
  {memory memory' : Memory}

/-- Within the capacity the loop evicts at most one entry. -/
theorem evictLoop_cases (hpos : 1 ≤ config.maxMemoryEntries)
    (hcard : card memory ≤ config.maxMemoryEntries)
    (hloop : evictLoop config.maxMemoryEntries evicted memory = some memory') :
    (card memory < config.maxMemoryEntries ∧ evicted = [] ∧ memory' = memory) ∨
      ∃ lruKey ∈ memory, card memory = config.maxMemoryEntries ∧ evicted = [lruKey] ∧
        memory' = memory.erase lruKey := by
  cases evicted with
  | nil =>
    rw [evictLoop] at hloop
    split at hloop
    case isTrue => cases hloop
    case isFalse hend =>
      cases hloop
      refine .inl ⟨lt_of_not_ge fun hfull => ?_, rfl, rfl⟩
      refine hend ⟨hfull, fun hempty => ?_⟩
      rw [card, hempty, List.length_nil] at hfull
      omega
  | cons lruKey evicted =>
    rw [evictLoop] at hloop
    split at hloop
    case isTrue hfull =>
      split at hloop
      case h_1 => cases hloop
      case h_2 lru hlookup =>
        have herase := card_erase hlookup
        split at hloop
        case isTrue =>
          refine .inr ⟨lruKey, AList.lookup_isSome.mp (by rw [hlookup]; rfl), by omega, ?_⟩
          cases evicted with
          | nil =>
            rw [evictLoop, if_neg (by omega)] at hloop
            cases hloop
            exact ⟨rfl, rfl⟩
          | cons next evicted =>
            rw [evictLoop, if_neg (by omega)] at hloop
            cases hloop
        case isFalse => cases hloop
    case isFalse => cases hloop

theorem card_insertMemory_le (hpos : 1 ≤ config.maxMemoryEntries)
    (hcard : card memory ≤ config.maxMemoryEntries)
    (hloop : evictLoop config.maxMemoryEntries evicted memory = some memory')
    (entry : CacheEntry) : card (memory'.insert key entry) ≤ config.maxMemoryEntries := by
  have hinsert : card (memory'.insert key entry) = card (memory'.erase key) + 1 := card_insert
  have herase : card (memory'.erase key) ≤ card memory' := card_erase_le
  rcases evictLoop_cases hpos hcard hloop with ⟨hlt, -, rfl⟩ | ⟨lruKey, hmem, -, -, rfl⟩
  · omega
  · obtain ⟨lru, hlookup⟩ := Option.isSome_iff_exists.mp (AList.lookup_isSome.mpr hmem)
    have := card_erase hlookup
    omega

variable {s t : State} {proof : CachedProof} {answer : Option CachedProof} {accessed : ℕ}
  {outcome : WriteOutcome} {clock : GetClock} {readable : Bool}

theorem insertMemory_eq_some
    (h : insertMemory config evicted key proof accessed s = some t) :
    ∃ memory, evictLoop config.maxMemoryEntries evicted s.memory = some memory ∧
      t.memory = memory.insert key ⟨proof, accessed, 1⟩ ∧ t.disk = s.disk := by
  obtain ⟨memory, hloop, ht⟩ := Option.bind_eq_some_iff.mp h
  cases ht
  exact ⟨memory, hloop, rfl, rfl⟩

theorem put_eq_some (h : put codec config key proof accessed evicted outcome s = some t) :
    ∃ memory, evictLoop config.maxMemoryEntries evicted s.memory = some memory ∧
      t.memory = memory.insert key ⟨proof, accessed, 1⟩ ∧
      t.disk = s.disk.map (saveToDisk codec key proof outcome) := by
  obtain ⟨s', hinsert, ht⟩ := Option.bind_eq_some_iff.mp h
  obtain ⟨memory, hloop, hmemory, hdisk⟩ := insertMemory_eq_some hinsert
  cases ht
  exact ⟨memory, hloop, hmemory, by rw [hdisk]⟩

theorem getFromDisk_cases
    (h : getFromDisk codec config key clock readable evicted s = some (answer, t)) :
    (answer = none ∧ t.memory = s.memory ∧ t.disk = s.disk) ∨
      ∃ proof memory, answer = some proof ∧ readable = true ∧
        readDisk codec s.disk key = some proof ∧ ¬ Expired config.ttl clock.disk proof ∧
        evictLoop config.maxMemoryEntries evicted s.memory = some memory ∧
        t.memory = memory.insert key ⟨proof, clock.accessed, 1⟩ ∧ t.disk = s.disk := by
  rw [getFromDisk] at h
  split at h
  case h_1 =>
    cases h
    exact .inl ⟨rfl, rfl, rfl⟩
  case h_2 proof hread =>
    split at h
    case isTrue =>
      cases h
      exact .inl ⟨rfl, rfl, rfl⟩
    case isFalse hfresh =>
      obtain ⟨s', hinsert, ht⟩ := Option.bind_eq_some_iff.mp h
      obtain ⟨memory, hloop, hmemory, hdisk⟩ := insertMemory_eq_some hinsert
      cases ht
      cases readable with
      | false =>
        obtain ⟨_, -, hnone⟩ := Option.bind_eq_some_iff.mp hread
        cases hnone
      | true => exact .inr ⟨proof, memory, rfl, rfl, hread, hfresh, hloop, hmemory, hdisk⟩

/-- A call of `get` answers from memory, or goes on without the entry. -/
theorem get_eq_some (h : get codec config key clock readable evicted s = some (answer, t)) :
    (∃ entry, s.memory.lookup key = some entry ∧
        ¬ Expired config.ttl clock.memory entry.proof ∧ answer = some entry.proof ∧
        t.memory = s.memory.insert key ⟨entry.proof, clock.accessed, entry.accessCount + 1⟩ ∧
        t.disk = s.disk) ∨
      ∃ s' : State, s'.memory = s.memory.erase key ∧ s'.disk = s.disk ∧
        ¬ InMemory config s.memory key clock.memory ∧
        getFromDisk codec config key clock readable evicted s' = some (answer, t) := by
  rw [get] at h
  split at h
  case h_1 hlookup =>
    refine .inr ⟨s, (erase_of_lookup_none hlookup).symm, rfl, ?_, h⟩
    rintro ⟨entry, hentry, -⟩
    rw [hlookup] at hentry
    cases hentry
  case h_2 entry hlookup =>
    split at h
    case isTrue hexpired =>
      refine .inr ⟨{ s with memory := s.memory.erase key }, rfl, rfl, ?_, h⟩
      rintro ⟨entry', hentry, hfresh⟩
      rw [hlookup] at hentry
      cases hentry
      exact hfresh hexpired
    case isFalse hfresh =>
      cases h
      exact .inl ⟨entry, hlookup, hfresh, rfl, rfl, rfl⟩

/-- A call of `get` answers from memory, misses, or promotes the file. -/
theorem get_cases (h : get codec config key clock readable evicted s = some (answer, t)) :
    t.disk = s.disk ∧
      ((∃ entry, s.memory.lookup key = some entry ∧
          ¬ Expired config.ttl clock.memory entry.proof ∧ answer = some entry.proof ∧
          t.memory = s.memory.insert key ⟨entry.proof, clock.accessed, entry.accessCount + 1⟩) ∨
        (answer = none ∧ t.memory = s.memory.erase key) ∨
        ∃ proof memory, ¬ InMemory config s.memory key clock.memory ∧ answer = some proof ∧
          readable = true ∧ readDisk codec s.disk key = some proof ∧
          ¬ Expired config.ttl clock.disk proof ∧
          evictLoop config.maxMemoryEntries evicted (s.memory.erase key) = some memory ∧
          t.memory = memory.insert key ⟨proof, clock.accessed, 1⟩) := by
  rcases get_eq_some h with ⟨entry, hlookup, hfresh, hanswer, hmemory, hdisk⟩ |
    ⟨s', hmemory', hdisk', hnot, hget⟩
  · exact ⟨hdisk, .inl ⟨entry, hlookup, hfresh, hanswer, hmemory⟩⟩
  · rw [← hmemory', ← hdisk']
    rcases getFromDisk_cases hget with ⟨hnone, hmemory, hdisk⟩ |
      ⟨proof, memory, hsome, hreadable, hread, hfresh, hloop, hmemory, hdisk⟩
    · exact ⟨hdisk, .inr (.inl ⟨hnone, hmemory⟩)⟩
    · exact ⟨hdisk, .inr (.inr
        ⟨proof, memory, hnot, hsome, hreadable, hread, hfresh, hloop, hmemory⟩)⟩

/-- Conversely, a file that is not expired is promoted when the memory has no answer. -/
theorem get_promotes (h : get codec config key clock true evicted s = some (answer, t))
    (hnot : ¬ InMemory config s.memory key clock.memory)
    (hread : readDisk codec s.disk key = some proof)
    (hfresh : ¬ Expired config.ttl clock.disk proof) : answer = some proof := by
  rcases get_eq_some h with ⟨entry, hlookup, hlive, -⟩ | ⟨s', -, hdisk, -, hget⟩
  · exact absurd ⟨entry, hlookup, hlive⟩ hnot
  · have hread' : (s'.disk.bind fun disk => if true then loadFromDisk codec disk key else none) =
        some proof := by
      rw [hdisk]
      exact hread
    rw [getFromDisk, hread'] at hget
    simp only [if_neg hfresh] at hget
    obtain ⟨s'', -, ht⟩ := Option.bind_eq_some_iff.mp hget
    cases ht
    rfl

/-! ## The invariant -/

/-- The memory keeps its capacity and holds the latest proofs only. -/
structure Coherent (config : Config) (s : Tracked) : Prop where
  card_le : card s.cache.memory ≤ config.maxMemoryEntries
  latest_eq : ∀ key entry, s.cache.memory.lookup key = some entry →
    s.latest key = some entry.proof

theorem Coherent.start (disk : Option Directory) : Coherent config (Tracked.start codec disk) :=
  ⟨Nat.zero_le _, nofun⟩

theorem lookup_of_evictLoop {k : ProofCacheKey} {entry : CacheEntry}
    (hpos : 1 ≤ config.maxMemoryEntries) (hcard : card memory ≤ config.maxMemoryEntries)
    (hloop : evictLoop config.maxMemoryEntries evicted memory = some memory')
    (h : memory'.lookup k = some entry) : memory.lookup k = some entry := by
  rcases evictLoop_cases hpos hcard hloop with ⟨-, -, rfl⟩ | ⟨lruKey, -, -, -, rfl⟩
  · exact h
  · exact lookup_of_lookup_erase h

section Steps

variable {s t : Tracked} {a : Action}

theorem card_le_of_step (hpos : 1 ≤ config.maxMemoryEntries)
    (h : card s.cache.memory ≤ config.maxMemoryEntries)
    (hstep : step codec config s a = some t) :
    card t.cache.memory ≤ config.maxMemoryEntries := by
  cases a with
  | put key proof accessed evicted outcome =>
    obtain ⟨cache, hput, ht⟩ := Option.map_eq_some_iff.mp hstep
    obtain ⟨memory, hloop, hmemory, -⟩ := put_eq_some hput
    cases ht
    rw [hmemory]
    exact card_insertMemory_le hpos h hloop _
  | get key clock readable evicted =>
    obtain ⟨⟨answer, cache⟩, hget, ht⟩ := Option.map_eq_some_iff.mp hstep
    cases ht
    have herase : card (s.cache.memory.erase key) ≤ card s.cache.memory := card_erase_le
    obtain ⟨-, ⟨entry, hlookup, -, -, hmemory⟩ | ⟨-, hmemory⟩ |
      ⟨proof, memory, -, -, -, -, -, hloop, hmemory⟩⟩ := get_cases hget
    · rw [hmemory, card_insert, card_erase hlookup]
      exact h
    · rw [hmemory]
      exact herase.trans h
    · rw [hmemory]
      exact card_insertMemory_le hpos (herase.trans h) hloop _

theorem card_le_of_run (hpos : 1 ≤ config.maxMemoryEntries)
    (h : card s.cache.memory ≤ config.maxMemoryEntries) {actions : List Action}
    (hrun : runSteps (step codec config) s actions = some t) :
    card t.cache.memory ≤ config.maxMemoryEntries := by
  exact runSteps_invariant (I := fun s => card s.cache.memory ≤ config.maxMemoryEntries)
    (fun _ _ _ hs _ hstep => card_le_of_step hpos hs hstep) h meets_true hrun

theorem latest_eq_of_insert {memory : Memory} {latest : ProofCacheKey → Option CachedProof}
    {key : ProofCacheKey} {entry : CacheEntry}
    (hothers : ∀ k entry, k ≠ key → memory.lookup k = some entry → latest k = some entry.proof)
    (hkey : latest key = some entry.proof) (k : ProofCacheKey) (entry' : CacheEntry)
    (h : (memory.insert key entry).lookup k = some entry') : latest k = some entry'.proof := by
  by_cases hk : k = key
  · subst hk
    rw [AList.lookup_insert] at h
    cases h
    exact hkey
  · rw [AList.lookup_insert_ne hk] at h
    exact hothers k entry' hk h

theorem Coherent.step (hpos : 1 ≤ config.maxMemoryEntries) (h : Coherent config s)
    (hreads : ReadsCurrent codec config s a)
    (hstep : ProofCache.step codec config s a = some t) : Coherent config t := by
  refine ⟨card_le_of_step hpos h.card_le hstep, ?_⟩
  cases a with
  | put key proof accessed evicted outcome =>
    obtain ⟨cache, hput, ht⟩ := Option.map_eq_some_iff.mp hstep
    obtain ⟨memory, hloop, hmemory, -⟩ := put_eq_some hput
    cases ht
    rw [hmemory]
    refine latest_eq_of_insert (fun k entry hk hentry => ?_) (Function.update_self _ _ _)
    exact (Function.update_of_ne hk _ _).trans
      (h.latest_eq k entry (lookup_of_evictLoop hpos h.card_le hloop hentry))
  | get key clock readable evicted =>
    obtain ⟨⟨answer, cache⟩, hget, ht⟩ := Option.map_eq_some_iff.mp hstep
    cases ht
    have herase : card (s.cache.memory.erase key) ≤ card s.cache.memory := card_erase_le
    obtain ⟨-, ⟨entry, hlookup, -, -, hmemory⟩ | ⟨-, hmemory⟩ |
      ⟨proof, memory, hnot, -, hreadable, hread, hfresh, hloop, hmemory⟩⟩ := get_cases hget
    · rw [hmemory]
      exact latest_eq_of_insert (fun k entry _ => h.latest_eq k entry)
        (h.latest_eq key entry hlookup)
    · rw [hmemory]
      exact fun k entry hentry => h.latest_eq k entry (lookup_of_lookup_erase hentry)
    · rw [hmemory]
      refine latest_eq_of_insert (fun k entry _ hentry => ?_)
        (hreads hnot hreadable proof hread hfresh)
      exact h.latest_eq k entry (lookup_of_lookup_erase
        (lookup_of_evictLoop hpos (herase.trans h.card_le) hloop hentry))

/-- A proof that is put again evicts no other exactly when there is room or it evicts its own. -/
theorem keepsOthers_iff {memory memory' : Memory} {key : ProofCacheKey}
    {evicted : List ProofCacheKey} {entry : CacheEntry} (hpos : 1 ≤ config.maxMemoryEntries)
    (hcard : card memory ≤ config.maxMemoryEntries)
    (hloop : evictLoop config.maxMemoryEntries evicted memory = some memory') :
    (∀ other ∈ memory, other ∈ memory'.insert key entry) ↔
      card memory < config.maxMemoryEntries ∨ evicted = [key] := by
  rcases evictLoop_cases hpos hcard hloop with ⟨hlt, -, rfl⟩ | ⟨lruKey, hlru, hfull, rfl, rfl⟩
  · exact iff_of_true (fun other hother => (AList.mem_insert _).mpr (.inr hother)) (.inl hlt)
  · constructor
    · intro hkeeps
      rcases (AList.mem_insert _).mp (hkeeps lruKey hlru) with heq | hmem
      · exact .inr (heq ▸ rfl)
      · exact absurd rfl (AList.mem_erase.mp hmem).1
    · intro hown other hother
      have hkey : lruKey = key := by
        rcases hown with hlt | hevicted
        · omega
        · exact (List.cons.inj hevicted).1
      refine (AList.mem_insert _).mpr (or_iff_not_imp_left.mpr fun hne => ?_)
      exact AList.mem_erase.mpr ⟨fun heq => hne (heq.trans hkey), hother⟩

/-- The answers are the latest proofs exactly when a file that is read is one. -/
theorem Coherent.answers_iff {key : ProofCacheKey} {clock : GetClock} {readable : Bool}
    {evicted : List ProofCacheKey} {answer : Option CachedProof} {cache : State}
    (h : Coherent config s)
    (hget : get codec config key clock readable evicted s.cache = some (answer, cache)) :
    (∀ proof t, get codec config key clock readable evicted s.cache = some (some proof, t) →
      s.latest key = some proof ∧
        ∃ now ∈ [clock.memory, clock.disk], ¬ Expired config.ttl now proof) ↔
      ReadsCurrent codec config s (.get key clock readable evicted) := by
  constructor
  · rintro hanswers hnot rfl file hread hfresh
    have hanswer := get_promotes hget hnot hread hfresh
    rw [hanswer] at hget
    exact (hanswers file cache hget).1
  · intro hreads proof t hgot
    obtain ⟨-, ⟨entry, hlookup, hfresh, hanswer, -⟩ | ⟨hnone, -⟩ |
      ⟨file, memory, hnot, hanswer, hreadable, hread, hfresh, -, -⟩⟩ := get_cases hgot
    · cases hanswer
      exact ⟨h.latest_eq key entry hlookup, clock.memory, List.mem_cons_self, hfresh⟩
    · cases hnone
    · cases hanswer
      exact ⟨hreads hnot hreadable proof hread hfresh, clock.disk,
        List.mem_cons_of_mem _ List.mem_cons_self, hfresh⟩

theorem Coherent.correct_iff (hpos : 1 ≤ config.maxMemoryEntries) (h : Coherent config s)
    (hstep : ProofCache.step codec config s a = some t) :
    Correct codec config s a ↔ ReplacesOwn config s a ∧ ReadsCurrent codec config s a := by
  have hcard : ∀ t, ProofCache.step codec config s a = some t →
      card t.cache.memory ≤ config.maxMemoryEntries :=
    fun _ => card_le_of_step hpos h.card_le
  refine (and_iff_right hcard).trans ?_
  cases a with
  | put key proof accessed evicted outcome =>
    obtain ⟨cache, hput, ht⟩ := Option.map_eq_some_iff.mp hstep
    obtain ⟨memory, hloop, hmemory, -⟩ := put_eq_some hput
    cases ht
    have hkeeps := @keepsOthers_iff config _ _ key _ ⟨proof, accessed, 1⟩ hpos h.card_le hloop
    rw [← hmemory] at hkeeps
    refine Iff.trans ⟨fun hall hkey => ?_, fun hown t ht hkey => ?_⟩ (and_iff_left trivial).symm
    · exact hkeeps.mp (hall _ hstep hkey)
    · rw [hstep] at ht
      cases ht
      exact hkeeps.mpr (hown hkey)
  | get key clock readable evicted =>
    obtain ⟨⟨answer, cache⟩, hget, -⟩ := Option.map_eq_some_iff.mp hstep
    exact (h.answers_iff hget).trans (and_iff_right trivial).symm

/-- The files hold the latest proofs only. -/
def FilesCurrent (codec : Codec) (s : Tracked) : Prop :=
  ∀ key file, readDisk codec s.cache.disk key = some file → s.latest key = some file

theorem readDisk_saveToDisk_of_ne {disk : Option Directory} {k : ProofCacheKey} (hk : k ≠ key) :
    readDisk codec (disk.map (saveToDisk codec key proof outcome)) k = readDisk codec disk k := by
  have hname : k.fileName ≠ key.fileName := fun h => hk (fileName_injective h)
  cases disk with
  | none => rfl
  | some disk =>
    change (saveToDisk codec key proof outcome disk).lookup k.fileName >>= codec.deserialize =
      disk.lookup k.fileName >>= codec.deserialize
    unfold saveToDisk
    split
    · rfl
    · split
      · rw [AList.lookup_insert_ne hname]
      · rw [AList.lookup_insert_ne hname]
      · rw [AList.lookup_erase_ne hname]

theorem eq_of_readDisk_saveToDisk {file : CachedProof}
    (hround : ∀ proof data, codec.serialize proof = some data → codec.deserialize data = some proof)
    (hkeeps : WriteKeeps codec s (.put key proof accessed evicted outcome))
    (hread : readDisk codec (s.cache.disk.map (saveToDisk codec key proof outcome)) key =
      some file) : file = proof := by
  cases hdisk : s.cache.disk with
  | none =>
    rw [hdisk] at hread
    cases hread
  | some disk =>
    rw [hdisk] at hread
    replace hread : ((saveToDisk codec key proof outcome disk).lookup key.fileName).bind
      codec.deserialize = some file := hread
    unfold saveToDisk at hread
    simp only [WriteKeeps] at hkeeps
    split at hread
    case h_1 hnone =>
      rw [hnone] at hkeeps
      exact hkeeps file (by rw [hdisk]; exact hread)
    case h_2 data hdata =>
      rw [hdata] at hkeeps
      split at hread
      case h_1 =>
        rw [AList.lookup_insert, Option.bind_some, hround proof data hdata] at hread
        exact (Option.some.inj hread).symm
      case h_2 left =>
        rw [AList.lookup_insert] at hread
        exact hkeeps file hread
      case h_3 =>
        rw [AList.lookup_erase] at hread
        cases hread

theorem FilesCurrent.step
    (hround : ∀ proof data, codec.serialize proof = some data → codec.deserialize data = some proof)
    (h : FilesCurrent codec s) (hkeeps : WriteKeeps codec s a)
    (hstep : ProofCache.step codec config s a = some t) : FilesCurrent codec t := by
  intro k file hread
  cases a with
  | put key proof accessed evicted outcome =>
    obtain ⟨cache, hput, ht⟩ := Option.map_eq_some_iff.mp hstep
    obtain ⟨memory, -, -, hdisk⟩ := put_eq_some hput
    cases ht
    rw [hdisk] at hread
    by_cases hk : k = key
    · subst hk
      rw [eq_of_readDisk_saveToDisk hround hkeeps hread]
      exact Function.update_self _ _ _
    · rw [readDisk_saveToDisk_of_ne hk] at hread
      exact (Function.update_of_ne hk _ _).trans (h k file hread)
  | get key clock readable evicted =>
    obtain ⟨⟨answer, cache⟩, hget, ht⟩ := Option.map_eq_some_iff.mp hstep
    cases ht
    rw [(get_cases hget).1] at hread
    exact h k file hread

theorem FilesCurrent.readsCurrent (h : FilesCurrent codec s) : ReadsCurrent codec config s a := by
  cases a with
  | put key proof accessed evicted outcome => trivial
  | get key clock readable evicted => exact fun _ _ file hread _ => h key file hread

end Steps

/-! ## Two proofs -/

def oldProof : CachedProof := ⟨[1], [], 1, 100, 5⟩

def newProof : CachedProof := ⟨[2], [], 1, 200, 5⟩

/-- The bytes of a proof: lengths and numbers have eight bytes each. -/
def proofBytes (proof : CachedProof) : List UInt8 :=
  leDigits 8 proof.proof.length ++ proof.proof ++ leDigits 8 proof.journal.length ++
    proof.journal ++ u64ToLeBytes proof.cycles ++ u64ToLeBytes proof.generatedAt ++
    u64ToLeBytes proof.proofTimeMs

/-- The codec on two proofs. -/
def twoProofs : Codec where
  serialize proof := if proof ∈ [oldProof, newProof] then some (proofBytes proof) else none
  deserialize data := [oldProof, newProof].find? fun proof => proofBytes proof = data

theorem twoProofs_round (proof : CachedProof) (data : List UInt8)
    (h : twoProofs.serialize proof = some data) : twoProofs.deserialize data = some proof := by
  simp only [twoProofs] at h
  split at h
  case isTrue hmem =>
    cases h
    revert hmem
    rw [List.mem_cons, List.mem_singleton]
    rintro (rfl | rfl) <;> decide +kernel
  case isFalse => cases h

def keyOf (byte : UInt8) : ProofCacheKey := ⟨.replicate 32 byte, .replicate 32 0, false⟩

/-- Room for `n` entries, and an hour to live. -/
def hourConfig (n : ℕ) : Config := ⟨n, 3600 * 10 ^ 9⟩

def putAt (accessed : ℕ) (byte : UInt8) (proof : CachedProof) (evicted : List ProofCacheKey)
    (outcome : WriteOutcome) : Action :=
  .put (keyOf byte) proof accessed evicted outcome

/-! ## Runs -/

/-- The calls of a run are correct exactly when each proof that is put again finds room or its own
entry, and each call that reads a file reads the latest proof; and the files are the latest proofs
as long as no write that fails leaves another proof behind. -/
theorem proof_cache_correct_iff (codec : Codec) (config : Config) (disk : Option Directory)
    (hround : ∀ proof data, codec.serialize proof = some data →
      codec.deserialize data = some proof)
    (hpos : 1 ≤ config.maxMemoryEntries) (actions : List Action) (t : Tracked)
    (hrun : runSteps (step codec config) (Tracked.start codec disk) actions = some t) :
    card t.cache.memory ≤ config.maxMemoryEntries ∧
    (Meets (step codec config) (Correct codec config) (Tracked.start codec disk) actions ↔
      Meets (step codec config) (fun s a => ReplacesOwn config s a ∧ ReadsCurrent codec config s a)
        (Tracked.start codec disk) actions) ∧
    (Meets (step codec config) (fun s a => ReplacesOwn config s a ∧ WriteKeeps codec s a)
        (Tracked.start codec disk) actions →
      Meets (step codec config) (Correct codec config) (Tracked.start codec disk) actions) := by
  have hcorrect : ∀ s a t, Coherent config s → step codec config s a = some t →
      (Correct codec config s a ↔ ReplacesOwn config s a ∧ ReadsCurrent codec config s a) :=
    fun s a t hs hstep => hs.correct_iff hpos hstep
  have hcoherent : Coherent config (Tracked.start codec disk) := Coherent.start disk
  have hsafe := fun hmeets => Meets.imp
    (fun s a t (hs : Coherent config s)
      (hok : ReplacesOwn config s a ∧ ReadsCurrent codec config s a) hstep =>
        hs.step hpos hok.2 hstep)
    (fun s a t hs hok hstep => (hcorrect s a t hs hstep).mpr hok) hcoherent hmeets hrun
  refine ⟨?_, ⟨?_, hsafe⟩, fun hkeeps => hsafe ?_⟩
  · exact card_le_of_run hpos (Nat.zero_le _) hrun
  · exact fun hmeets => Meets.imp
      (fun s a t hs hok hstep => hs.step hpos ((hcorrect s a t hs hstep).mp hok).2 hstep)
      (fun s a t hs hok hstep => (hcorrect s a t hs hstep).mp hok) hcoherent hmeets hrun
  · exact Meets.imp (fun s a t (hs : FilesCurrent codec s) hok hstep => hs.step hround hok.2 hstep)
      (fun s a t hs hok _ => ⟨hok.1, hs.readsCurrent⟩) (fun _ _ hread => hread) hkeeps hrun

/-- A proof that is put and got. -/
theorem put_then_get_correct :
    (∃ t, runSteps (step twoProofs (hourConfig 1)) (Tracked.start twoProofs (some ∅))
      [putAt 1 1 oldProof [] .written, .get (keyOf 1) ⟨100, 100, 2⟩ true []] = some t) ∧
    Meets (step twoProofs (hourConfig 1)) (Correct twoProofs (hourConfig 1))
      (Tracked.start twoProofs (some ∅))
      [putAt 1 1 oldProof [] .written, .get (keyOf 1) ⟨100, 100, 2⟩ true []] := by
  obtain ⟨t, hrun⟩ : ∃ t, runSteps (step twoProofs (hourConfig 1))
      (Tracked.start twoProofs (some ∅))
      [putAt 1 1 oldProof [] .written, .get (keyOf 1) ⟨100, 100, 2⟩ true []] = some t :=
    Option.isSome_iff_exists.mp (by decide +kernel)
  refine ⟨⟨t, hrun⟩, (proof_cache_correct_iff twoProofs (hourConfig 1) (some ∅) twoProofs_round
    (by decide) _ t hrun).2.2 ⟨⟨?_, ?_⟩, fun _ _ => ⟨⟨trivial, trivial⟩, fun _ _ => trivial⟩⟩⟩
  · exact fun hmem => absurd hmem (AList.notMem_empty _)
  · have hserialize : twoProofs.serialize oldProof = some (proofBytes oldProof) := by
      decide +kernel
    simp only [WriteKeeps, putAt, hserialize]

/-- A full memory, where the second key is put again. -/
def reputActions : List Action :=
  [putAt 1 1 oldProof [] .written, putAt 2 2 oldProof [] .written,
    putAt 3 2 newProof [keyOf 1] .written]

/-- The second write under the first key fails before it opens the file. -/
def failedWriteActions : List Action :=
  [putAt 1 1 oldProof [] .written,
    putAt 2 1 newProof [keyOf 1] (.failed (some (proofBytes oldProof))),
    putAt 3 2 newProof [keyOf 1] .written, .get (keyOf 1) ⟨300, 300, 4⟩ true [keyOf 2]]

theorem reput_evicts_other :
    ¬ Meets (step twoProofs (hourConfig 2)) (Correct twoProofs (hourConfig 2))
      (Tracked.start twoProofs none) reputActions := by
  intro hmeets
  have hevicts : ((runSteps (step twoProofs (hourConfig 2)) (Tracked.start twoProofs none)
      (reputActions.take 2)).bind fun s =>
        (step twoProofs (hourConfig 2) s (putAt 3 2 newProof [keyOf 1] .written)).map fun t =>
          (decide (keyOf 2 ∈ s.cache.memory), decide (keyOf 1 ∈ s.cache.memory),
            decide (keyOf 1 ∈ t.cache.memory))) = some (true, true, false) := by
    decide +kernel
  obtain ⟨s, hrun, hs⟩ := Option.bind_eq_some_iff.mp hevicts
  obtain ⟨t, hstep, hkeys⟩ := Option.map_eq_some_iff.mp hs
  simp only [Prod.mk.injEq, decide_eq_true_eq, decide_eq_false_iff_not] at hkeys
  have hcorrect : Correct twoProofs (hourConfig 2) s (putAt 3 2 newProof [keyOf 1] .written) :=
    Meets.of_append (reputActions.take 2) hmeets hrun
  exact hkeys.2.2 (hcorrect.2 t hstep hkeys.1 (keyOf 1) hkeys.2.1)

theorem failedWrite_returns_old :
    ¬ Meets (step twoProofs (hourConfig 1)) (Correct twoProofs (hourConfig 1))
      (Tracked.start twoProofs (some ∅)) failedWriteActions := by
  intro hmeets
  have hreturns : ((runSteps (step twoProofs (hourConfig 1)) (Tracked.start twoProofs (some ∅))
      (failedWriteActions.take 3)).bind fun s =>
        (get twoProofs (hourConfig 1) (keyOf 1) ⟨300, 300, 4⟩ true [keyOf 2] s.cache).map
          fun result => (s.latest (keyOf 1), result.1)) = some (some newProof, some oldProof) := by
    decide +kernel
  obtain ⟨s, hrun, hs⟩ := Option.bind_eq_some_iff.mp hreturns
  obtain ⟨⟨answer, t⟩, hget, hproofs⟩ := Option.map_eq_some_iff.mp hs
  simp only [Prod.mk.injEq] at hproofs
  have hcorrect : Correct twoProofs (hourConfig 1) s
      (.get (keyOf 1) ⟨300, 300, 4⟩ true [keyOf 2]) :=
    Meets.of_append (failedWriteActions.take 3) hmeets hrun
  rw [hproofs.2] at hget
  have hlatest := (hcorrect.2 oldProof t hget).1
  rw [hproofs.1] at hlatest
  exact absurd hlatest (by decide)

/-- Neither run keeps what the calls have to do. -/
theorem reput_and_failed_write_incorrect :
    (∃ t, runSteps (step twoProofs (hourConfig 2)) (Tracked.start twoProofs none) reputActions =
        some t) ∧
    ¬ Meets (step twoProofs (hourConfig 2)) (Correct twoProofs (hourConfig 2))
      (Tracked.start twoProofs none) reputActions ∧
    (∃ t, runSteps (step twoProofs (hourConfig 1)) (Tracked.start twoProofs (some ∅))
        failedWriteActions = some t) ∧
    ¬ Meets (step twoProofs (hourConfig 1)) (Correct twoProofs (hourConfig 1))
      (Tracked.start twoProofs (some ∅)) failedWriteActions :=
  ⟨Option.isSome_iff_exists.mp (by decide +kernel), reput_evicts_other,
    Option.isSome_iff_exists.mp (by decide +kernel), failedWrite_returns_old⟩

end WorldZk.ProofCache
