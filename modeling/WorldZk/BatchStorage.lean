import WorldZk.BatchSessions
import WorldZk.LimbArithmetic
import WorldZk.StorageAreas

/-!
# The storage of batch sessions

`DAGBatchVerifier` on the slots of the contract: a session takes fourteen slots from a hash of its
identifier on, and each of its three arrays a slot for the length and, from the hash of that slot
on, one slot for each entry. The bindings go to two of the arrays, flattened and with their offsets.
A later store may be shorter than an earlier one; what it leaves behind is not read.
-/

namespace WorldZk.BatchStorage

open CheckedRuns LimbArithmetic FlatArrays PoseidonSponge ProofTypes StorageAreas
open FieldArithmetic Transcript Keccak256 BatchSessions
open scoped NamedInstances

/-- The slots of the contract, by number. -/
abbrev Storage := ℕ → ℕ

/-- The panics of the language. -/
inductive Panic where
  | arithmeticOverflow
  | indexOutOfBounds
  | allocationTooLarge
deriving DecidableEq, Repr

/-- A checked sum. -/
def checkedAdd (x y : ℕ) : Except Panic ℕ := do
  require (decide (x + y < WORD)) .arithmeticOverflow
  pure (x + y)

/-- `new uint256[](n)`. -/
def newArray (n : ℕ) : Except Panic (List ℕ) := do
  require (decide (n < 2 ^ 64)) .allocationTooLarge
  pure (List.replicate n 0)

/-! ## Slots -/

/-- The bytes of a text whose characters take one byte each. -/
def ascii (text : List Char) : List UInt8 := text.map fun ch => UInt8.ofNat ch.toNat

/-- `"DAGBatchVerifier.sessions"`. -/
def SESSIONS : List UInt8 :=
  ascii ['D', 'A', 'G', 'B', 'a', 't', 'c', 'h', 'V', 'e', 'r', 'i', 'f', 'i', 'e', 'r', '.', 's',
    'e', 's', 's', 'i', 'o', 'n', 's']

/-- `"DAGBatchVerifier.crossBatch"`. -/
def CROSS_BATCH : List UInt8 :=
  ascii ['D', 'A', 'G', 'B', 'a', 't', 'c', 'h', 'V', 'e', 'r', 'i', 'f', 'i', 'e', 'r', '.', 'c',
    'r', 'o', 's', 's', 'B', 'a', 't', 'c', 'h']

/-- `_sessionSlot`. -/
def sessionSlot (sessionId : ℕ) : ℕ :=
  keccak256 (SESSIONS ++ wordToBeBytes sessionId)

/-- `_crossBatchSlot`. -/
def crossBatchSlot (sessionId arrayId : ℕ) : ℕ :=
  keccak256 (CROSS_BATCH ++ wordToBeBytes sessionId ++ wordToBeBytes arrayId)

/-- The slot of the first entry of an array. -/
def dataSlot (sessionId arrayId : ℕ) : ℕ :=
  keccak256 (wordToBeBytes (crossBatchSlot sessionId arrayId))

/-- The slots from which the parts of a session lie. -/
structure Slots where
  session : ℕ
  crossBatch : ℕ → ℕ
  data : ℕ → ℕ

def slotsOf (sessionId : ℕ) : Slots :=
  ⟨sessionSlot sessionId, crossBatchSlot sessionId, dataSlot sessionId⟩

def ARR_BINDINGS_FLAT : ℕ := 0

def ARR_BINDINGS_OFFSETS : ℕ := 1

def ARR_OUTPUT_CHALLENGES : ℕ := 2

/-! ## Sessions -/

/-- The words of a session, as they lie in memory. -/
def sessionWords (session : DAGBatchSession) : List ℕ :=
  [session.circuitHash, session.verifier, session.nextBatchIdx, session.totalBatches,
    session.numComputeLayers, session.finalized.toNat, session.sponge.s0, session.sponge.s1,
    session.sponge.s2, session.sponge.absorbing, session.outputEval.x, session.outputEval.y,
    session.finalizeInputIdx, session.finalizeGroupsDone]

@[simp] theorem length_sessionWords (session : DAGBatchSession) :
    (sessionWords session).length = 14 := rfl

/-- `storeSession`. The addition of the assembly wraps. -/
def storeSession (st : Storage) (slots : Slots) (session : DAGBatchSession) : Storage :=
  (sessionWords session).zipIdx.foldl
    (fun st wi => Function.update st ((slots.session + wi.2) % WORD) wi.1) st

/-- `loadSession`. -/
def loadSession (st : Storage) (slots : Slots) : DAGBatchSession :=
  let word i := st ((slots.session + i) % WORD)
  ⟨word 0, word 1, word 2, word 3, word 4, word 5 != 0,
    ⟨word 6, word 7, word 8, Fin.ofNat 2 (word 9)⟩, ⟨word 10, word 11⟩, word 12, word 13⟩

/-! ## Arrays -/

/-- `_storeArray`. -/
def storeArray (st : Storage) (slots : Slots) (arrayId : ℕ) (arr : List ℕ) : Except Panic Storage :=
  arr.zipIdx.foldlM
    (fun st xi => do
      let slot ← checkedAdd (slots.data arrayId) xi.2
      pure (Function.update st slot xi.1))
    (Function.update st (slots.crossBatch arrayId) arr.length)

/-- `_loadArray`. -/
def loadArray (st : Storage) (slots : Slots) (arrayId : ℕ) : Except Panic (List ℕ) := do
  let len := st (slots.crossBatch arrayId)
  let _ ← newArray len
  (List.range len).mapM fun i => do
    let slot ← checkedAdd (slots.data arrayId) i
    pure (st slot)

/-- `_clearArray`. -/
def clearArray (st : Storage) (slots : Slots) (arrayId : ℕ) : Except Panic Storage := do
  let st ← (List.range (st (slots.crossBatch arrayId))).foldlM
    (fun st i => do
      let slot ← checkedAdd (slots.data arrayId) i
      pure (Function.update st slot 0)) st
  pure (Function.update st (slots.crossBatch arrayId) 0)

/-- `storeCrossBatchData`. -/
def storeCrossBatchData (st : Storage) (slots : Slots) (data : CrossBatchData) :
    Except Panic Storage := do
  let st ← storeArray st slots ARR_BINDINGS_FLAT data.bindingsFlat
  let st ← storeArray st slots ARR_BINDINGS_OFFSETS data.bindingsOffsets
  storeArray st slots ARR_OUTPUT_CHALLENGES data.outputChallenges

/-- `loadCrossBatchData`. -/
def loadCrossBatchData (st : Storage) (slots : Slots) : Except Panic CrossBatchData := do
  let bindingsFlat ← loadArray st slots ARR_BINDINGS_FLAT
  let bindingsOffsets ← loadArray st slots ARR_BINDINGS_OFFSETS
  let outputChallenges ← loadArray st slots ARR_OUTPUT_CHALLENGES
  pure ⟨bindingsFlat, bindingsOffsets, outputChallenges⟩

/-- `cleanupSession`. -/
def cleanupSession (st : Storage) (slots : Slots) : Except Panic Storage := do
  let st := (List.range 14).foldl
    (fun st i => Function.update st ((slots.session + i) % WORD) 0) st
  let st ← clearArray st slots ARR_BINDINGS_FLAT
  let st ← clearArray st slots ARR_BINDINGS_OFFSETS
  clearArray st slots ARR_OUTPUT_CHALLENGES

/-! ## Flattening -/

/-- The inner body of `updateBindings`: one value of a layer goes to the next place. -/
def flattenValue (bindings : List ℕ) (acc : List ℕ × ℕ) (j : ℕ) : Except Panic (List ℕ × ℕ) := do
  let value ← getOr .indexOutOfBounds bindings j
  let next ← checkedAdd acc.2 1
  let bindingsFlat ← setOr .indexOutOfBounds acc.1 acc.2 value
  pure (bindingsFlat, next)

/-- The outer body of `updateBindings`, on the two arrays and the offset. -/
def flattenLayer (allBindings : List (List ℕ)) (acc : List ℕ × List ℕ × ℕ) (i : ℕ) :
    Except Panic (List ℕ × List ℕ × ℕ) := do
  let (bindingsFlat, bindingsOffsets, offset) := acc
  let bindingsOffsets ← setOr .indexOutOfBounds bindingsOffsets i offset
  let bindings ← getOr .indexOutOfBounds allBindings i
  let (bindingsFlat, offset) ←
    (List.range bindings.length).foldlM (flattenValue bindings) (bindingsFlat, offset)
  pure (bindingsFlat, bindingsOffsets, offset)

/-- The lengths of the layers before `endLayer`, added up. -/
def totalLength (allBindings : List (List ℕ)) (endLayer : ℕ) : Except Panic ℕ :=
  (List.range endLayer).foldlM (fun totalLen i => do
    let bindings ← getOr .indexOutOfBounds allBindings i
    checkedAdd totalLen bindings.length) 0

/-- `updateBindings`: the arrays are allocated and filled again from the first layer on. -/
def flattenBindings (data : CrossBatchData) (allBindings : List (List ℕ)) (endLayer : ℕ) :
    Except Panic CrossBatchData := do
  let totalLen ← totalLength allBindings endLayer
  let bindingsFlat ← newArray totalLen
  let size ← checkedAdd endLayer 1
  let bindingsOffsets ← newArray size
  let (bindingsFlat, bindingsOffsets, offset) ←
    (List.range endLayer).foldlM (flattenLayer allBindings) (bindingsFlat, bindingsOffsets, 0)
  let bindingsOffsets ← setOr .indexOutOfBounds bindingsOffsets endLayer offset
  pure ⟨bindingsFlat, bindingsOffsets, data.outputChallenges⟩

/-! ## Areas -/

/-- The slots of a session. -/
def sessionArea (slots : Slots) : Area := ⟨slots.session, 14⟩

/-- The slot of an array's length. -/
def lengthArea (slots : Slots) (arrayId : ℕ) : Area := ⟨slots.crossBatch arrayId, 1⟩

/-- The slots of an array's entries. No array of the language is longer. -/
def dataArea (slots : Slots) (arrayId : ℕ) : Area := ⟨slots.data arrayId, 2 ^ 64⟩

def arrayAreas (slots : Slots) (arrayId : ℕ) : List Area :=
  [lengthArea slots arrayId, dataArea slots arrayId]

/-- The layout rests on hashes that are far apart: the areas of a session do not meet and do not
pass the last slot. -/
structure SlotsApart (slots : Slots) : Prop where
  session_fits : slots.session + 14 ≤ WORD
  data_fits : ∀ arrayId < 3, slots.data arrayId + 2 ^ 64 ≤ WORD
  session : ∀ arrayId < 3, ∀ area ∈ arrayAreas slots arrayId,
    (sessionArea slots).Apart area
  own : ∀ arrayId < 3, (lengthArea slots arrayId).Apart (dataArea slots arrayId)
  arrays : ∀ i < 3, ∀ j < 3, i ≠ j → ∀ a ∈ arrayAreas slots i, ∀ b ∈ arrayAreas slots j,
    a.Apart b

section Sessions

variable {st : Storage} {slots : Slots}

theorem session_add (hfits : slots.session + 14 ≤ WORD) {i : ℕ} (hi : i < 14) :
    (slots.session + i) % WORD = slots.session + i :=
  Nat.mod_eq_of_lt (by omega)

private theorem foldl_update_eq {xs : List ℕ} {base k : ℕ} (st : Storage)
    (hfits : base + k + xs.length ≤ WORD) :
    (xs.zipIdx k).foldl (fun st wi => Function.update st ((base + wi.2) % WORD) wi.1) st =
      writeFrom st (base + k) xs := by
  induction xs generalizing k st with
  | nil => rfl
  | cons x xs ih =>
    rw [List.length_cons] at hfits
    rw [List.zipIdx_cons, List.foldl_cons, ih _ (by omega), writeFrom,
      Nat.mod_eq_of_lt (by omega), Nat.add_assoc]

theorem storeSession_eq (hfits : slots.session + 14 ≤ WORD) (session : DAGBatchSession) :
    storeSession st slots session =
      writeFrom st (slots.session) (sessionWords session) := by
  have hlen : slots.session + 0 + (sessionWords session).length ≤ WORD := by
    rw [length_sessionWords, Nat.add_zero]
    exact hfits
  rw [storeSession, foldl_update_eq st hlen, Nat.add_zero]

/-- The session that fourteen words stand for. -/
def sessionOfWords (word : ℕ → ℕ) : DAGBatchSession :=
  ⟨word 0, word 1, word 2, word 3, word 4, word 5 != 0,
    ⟨word 6, word 7, word 8, Fin.ofNat 2 (word 9)⟩, ⟨word 10, word 11⟩, word 12, word 13⟩

theorem loadSession_eq_sessionOfWords {word : ℕ → ℕ}
    (hword : ∀ i < 14, st ((slots.session + i) % WORD) = word i) :
    loadSession st slots = sessionOfWords word := by
  simp only [loadSession, sessionOfWords]
  rw [hword 0 (by decide), hword 1 (by decide), hword 2 (by decide), hword 3 (by decide),
    hword 4 (by decide), hword 5 (by decide), hword 6 (by decide), hword 7 (by decide),
    hword 8 (by decide), hword 9 (by decide), hword 10 (by decide), hword 11 (by decide),
    hword 12 (by decide), hword 13 (by decide)]

theorem sessionOfWords_sessionWords (session : DAGBatchSession) :
    sessionOfWords (fun i => (sessionWords session).getD i 0) = session := by
  have hfinalized : (session.finalized.toNat != 0) = session.finalized := by
    cases session.finalized <;> rfl
  have habsorbing : Fin.ofNat 2 (session.sponge.absorbing : ℕ) = session.sponge.absorbing :=
    Fin.ofNat_val_eq_self _
  simp only [sessionOfWords, sessionWords, List.getD_cons_zero, List.getD_cons_succ, hfinalized,
    habsorbing]

theorem loadSession_storeSession (hfits : slots.session + 14 ≤ WORD)
    (session : DAGBatchSession) :
    loadSession (storeSession st slots session) slots = session := by
  rw [← sessionOfWords_sessionWords session]
  refine loadSession_eq_sessionOfWords fun i hi => ?_
  have hlen : i < (sessionWords session).length := hi
  rw [sessionOfWords_sessionWords, storeSession_eq hfits, session_add hfits hi,
    List.getD_eq_getElem?_getD, List.getElem?_eq_getElem hlen, Option.getD_some]
  exact writeFrom_add st _ hlen

theorem agreeOn_storeSession (hfits : slots.session + 14 ≤ WORD)
    (session : DAGBatchSession) {area : Area} (happart : (sessionArea slots).Apart area) :
    AgreeOn area st (storeSession st slots session) := by
  rw [storeSession_eq hfits]
  exact agreeOn_writeFrom st happart

theorem loadSession_congr {st' : Storage} (hfits : slots.session + 14 ≤ WORD)
    (h : AgreeOn (sessionArea slots) st st') :
    loadSession st' slots = loadSession st slots := by
  change loadSession st' slots = sessionOfWords fun i => st ((slots.session + i) % WORD)
  refine loadSession_eq_sessionOfWords fun i hi => ?_
  rw [session_add hfits hi]
  exact h _ ⟨Nat.le_add_right _ _, Nat.add_lt_add_left hi _⟩

end Sessions

section Arrays

variable {st st' : Storage} {slots : Slots} {arrayId : ℕ}

theorem checkedAdd_of_lt {x y : ℕ} (h : x + y < WORD) : checkedAdd x y = .ok (x + y) := by
  rw [checkedAdd, decide_eq_true h, require_true]
  rfl

theorem newArray_of_lt {n : ℕ} (h : n < 2 ^ 64) : newArray n = .ok (List.replicate n 0) := by
  rw [newArray, decide_eq_true h, require_true]
  rfl

theorem newArray_eq_ok {n : ℕ} {arr : List ℕ} :
    newArray n = .ok arr ↔ n < 2 ^ 64 ∧ List.replicate n 0 = arr := by
  simp only [newArray, bind_eq_ok, require_eq_ok, decide_eq_true_eq, pure_eq_ok]
  constructor
  · rintro ⟨_, hn, harr⟩
    exact ⟨hn, harr⟩
  · rintro ⟨hn, harr⟩
    exact ⟨(), hn, harr⟩

private theorem foldlM_store_eq {base k : ℕ} {arr : List ℕ} (st : Storage)
    (hfits : base + k + arr.length ≤ WORD) :
    (arr.zipIdx k).foldlM (fun (st : Storage) (xi : ℕ × ℕ) => do
      let slot ← checkedAdd base xi.2
      pure (Function.update st slot xi.1)) st = .ok (writeFrom st (base + k) arr) := by
  induction arr generalizing k st with
  | nil => rfl
  | cons x arr ih =>
    rw [List.length_cons] at hfits
    rw [List.zipIdx_cons, List.foldlM_cons, checkedAdd_of_lt (by omega), ok_bind, pure_bind_ok,
      ih _ (by omega), writeFrom, Nat.add_assoc]

variable (h : SlotsApart slots) (hid : arrayId < 3)

include h hid

theorem storeArray_eq {arr : List ℕ} (hlen : arr.length < 2 ^ 64) :
    storeArray st slots arrayId arr =
      .ok (writeFrom (Function.update st (slots.crossBatch arrayId) arr.length)
        (slots.data arrayId) arr) := by
  have hfits := h.data_fits arrayId hid
  exact foldlM_store_eq _ (by omega)

theorem loadArray_eq (hlen : st (slots.crossBatch arrayId) < 2 ^ 64) :
    loadArray st slots arrayId =
      .ok (readFrom st (slots.data arrayId) (st (slots.crossBatch arrayId))) := by
  have hfits := h.data_fits arrayId hid
  rw [loadArray, newArray_of_lt hlen, ok_bind, mapM_eq_ok, readFrom, List.forall₂_map_right_iff,
    List.forall₂_same]
  intro i hi
  rw [List.mem_range] at hi
  rw [checkedAdd_of_lt (by omega), ok_bind]
  rfl

theorem loadArray_storeArray {arr : List ℕ} (hlen : arr.length < 2 ^ 64)
    (hst' : storeArray st slots arrayId arr = .ok st') :
    loadArray st' slots arrayId = .ok arr := by
  rw [storeArray_eq h hid hlen, Except.ok.injEq] at hst'
  have hlength : st' (slots.crossBatch arrayId) = arr.length := by
    have hown := h.own arrayId hid
    simp only [Area.Apart, lengthArea, dataArea] at hown
    rw [← hst', writeFrom_of_not_mem, Function.update_self]
    simp only [Area.Mem]
    omega
  rw [loadArray_eq h hid (hlength ▸ hlen), hlength, ← hst', readFrom_writeFrom]

theorem agreeOn_storeArray {arr : List ℕ} (hlen : arr.length < 2 ^ 64)
    (hst' : storeArray st slots arrayId arr = .ok st') {area : Area}
    (hapart : ∀ a ∈ arrayAreas slots arrayId, a.Apart area) : AgreeOn area st st' := by
  rw [storeArray_eq h hid hlen, Except.ok.injEq] at hst'
  subst hst'
  have hlengthApart : (lengthArea slots arrayId).Apart area := hapart _ (by simp [arrayAreas])
  have hdataApart : (dataArea slots arrayId).Apart area := hapart _ (by simp [arrayAreas])
  refine (AgreeOn.update (hlengthApart.not_mem ⟨le_rfl, Nat.lt_succ_self _⟩) st arr.length).trans
    (agreeOn_writeFrom _ ?_)
  simp only [Area.Apart, dataArea] at hdataApart ⊢
  omega

theorem loadArray_congr (hareas : ∀ a ∈ arrayAreas slots arrayId, AgreeOn a st st') :
    loadArray st' slots arrayId = loadArray st slots arrayId := by
  have hlength : st' (slots.crossBatch arrayId) = st (slots.crossBatch arrayId) :=
    (hareas (lengthArea slots arrayId) (by simp [arrayAreas])).start_eq Nat.one_pos
  have hdata : AgreeOn (dataArea slots arrayId) st st' := hareas _ (by simp [arrayAreas])
  by_cases hlen : st (slots.crossBatch arrayId) < 2 ^ 64
  · rw [loadArray_eq h hid (hlength ▸ hlen), loadArray_eq h hid hlen, hlength]
    exact congrArg Except.ok (hdata.readFrom_eq hlen.le)
  · have hnone : newArray (st (slots.crossBatch arrayId)) = .error .allocationTooLarge := by
      rw [newArray, decide_eq_false hlen, require_false, error_bind]
    rw [loadArray, loadArray, hlength, hnone, error_bind, error_bind]

theorem loadArray_storeArray_of_ne {arr : List ℕ} (hlen : arr.length < 2 ^ 64)
    (hst' : storeArray st slots arrayId arr = .ok st') {other : ℕ} (hother : other < 3)
    (hne : arrayId ≠ other) : loadArray st' slots other = loadArray st slots other :=
  loadArray_congr h hother fun b hb => agreeOn_storeArray h hid hlen hst' fun a ha =>
    h.arrays arrayId hid other hother hne a ha b hb

end Arrays

section CrossBatch

variable {st : Storage} {slots : Slots}

theorem length_of_loadArray {arrayId : ℕ} {arr : List ℕ}
    (h : loadArray st slots arrayId = .ok arr) : arr.length < 2 ^ 64 := by
  simp only [loadArray, bind_eq_ok, newArray_eq_ok, mapM_eq_ok] at h
  obtain ⟨_, ⟨hlen, -⟩, hloop⟩ := h
  rw [← hloop.length_eq, List.length_range]
  exact hlen

theorem length_outputChallenges_of_load {data : CrossBatchData}
    (h : loadCrossBatchData st slots = .ok data) : data.outputChallenges.length < 2 ^ 64 := by
  simp only [loadCrossBatchData, bind_eq_ok, pure_eq_ok] at h
  obtain ⟨_, -, _, -, _, hchallenges, rfl⟩ := h
  exact length_of_loadArray hchallenges

/-- Arrays that the language can hold. -/
structure Allocatable (data : CrossBatchData) : Prop where
  bindingsFlat : data.bindingsFlat.length < 2 ^ 64
  bindingsOffsets : data.bindingsOffsets.length < 2 ^ 64
  outputChallenges : data.outputChallenges.length < 2 ^ 64

/-- The three arrays are stored, and loaded as they were; what is apart from their slots stays. -/
theorem storeCrossBatchData_ok (h : SlotsApart slots) {data : CrossBatchData}
    (hdata : Allocatable data) :
    ∃ st', storeCrossBatchData st slots data = .ok st' ∧
      loadCrossBatchData st' slots = .ok data ∧
      ∀ area, (∀ arrayId < 3, ∀ a ∈ arrayAreas slots arrayId, a.Apart area) →
        AgreeOn area st st' := by
  have hflat := @storeArray_eq st slots ARR_BINDINGS_FLAT h (by decide) _ hdata.bindingsFlat
  obtain ⟨st₁, hst₁⟩ := (⟨_, hflat⟩ : ∃ st₁, storeArray st slots _ _ = .ok st₁)
  have hoffsets :=
    @storeArray_eq st₁ slots ARR_BINDINGS_OFFSETS h (by decide) _ hdata.bindingsOffsets
  obtain ⟨st₂, hst₂⟩ := (⟨_, hoffsets⟩ : ∃ st₂, storeArray st₁ slots _ _ = .ok st₂)
  have hchallenges :=
    @storeArray_eq st₂ slots ARR_OUTPUT_CHALLENGES h (by decide) _ hdata.outputChallenges
  obtain ⟨st₃, hst₃⟩ := (⟨_, hchallenges⟩ : ∃ st₃, storeArray st₂ slots _ _ = .ok st₃)
  refine ⟨st₃, ?_, ?_, ?_⟩
  · rw [storeCrossBatchData, hst₁, ok_bind, hst₂, ok_bind, hst₃]
  · -- each array was written once, and no later write reached it
    have hload₀ : loadArray st₃ slots ARR_BINDINGS_FLAT = .ok data.bindingsFlat := by
      rw [loadArray_storeArray_of_ne h (by decide) hdata.outputChallenges hst₃ (by decide)
        (by decide), loadArray_storeArray_of_ne h (by decide) hdata.bindingsOffsets hst₂ (by decide)
        (by decide), loadArray_storeArray h (by decide) hdata.bindingsFlat hst₁]
    have hload₁ : loadArray st₃ slots ARR_BINDINGS_OFFSETS = .ok data.bindingsOffsets := by
      rw [loadArray_storeArray_of_ne h (by decide) hdata.outputChallenges hst₃ (by decide)
        (by decide), loadArray_storeArray h (by decide) hdata.bindingsOffsets hst₂]
    have hload₂ : loadArray st₃ slots ARR_OUTPUT_CHALLENGES = .ok data.outputChallenges :=
      loadArray_storeArray h (by decide) hdata.outputChallenges hst₃
    rw [loadCrossBatchData, hload₀, ok_bind, hload₁, ok_bind, hload₂, ok_bind]
    rfl
  · intro area hapart
    exact ((agreeOn_storeArray h (by decide) hdata.bindingsFlat hst₁ (hapart _ (by decide))).trans
      (agreeOn_storeArray h (by decide) hdata.bindingsOffsets hst₂ (hapart _ (by decide)))).trans
      (agreeOn_storeArray h (by decide) hdata.outputChallenges hst₃ (hapart _ (by decide)))

theorem loadCrossBatchData_storeSession (h : SlotsApart slots) (session : DAGBatchSession) :
    loadCrossBatchData (storeSession st slots session) slots =
      loadCrossBatchData st slots := by
  have hload : ∀ arrayId < 3, loadArray (storeSession st slots session) slots arrayId =
      loadArray st slots arrayId := fun arrayId hid =>
    loadArray_congr h hid fun a ha =>
      agreeOn_storeSession h.session_fits session (h.session arrayId hid a ha)
  rw [loadCrossBatchData, loadCrossBatchData, hload _ (by decide), hload _ (by decide),
    hload _ (by decide)]

end CrossBatch

section Cleanup

variable {st st' : Storage} {slots : Slots}

/-- The places that are zero stay zero. -/
def ZerosKept (st st' : Storage) : Prop := ∀ slot, st slot = 0 → st' slot = 0

theorem zerosKept_update (st : Storage) (slot : ℕ) : ZerosKept st (Function.update st slot 0) := by
  intro other hother
  by_cases heq : other = slot
  · rw [heq, Function.update_self]
  · rw [Function.update_of_ne heq, hother]

private theorem zerosKept_foldlM {base : ℕ} {is : List ℕ}
    (h : is.foldlM (fun (st : Storage) i => do
      let slot ← checkedAdd base i
      pure (Function.update st slot 0)) st = .ok st') : ZerosKept st st' := by
  induction is generalizing st with
  | nil =>
    rw [List.foldlM_nil, pure_eq_ok] at h
    exact h ▸ fun _ hslot => hslot
  | cons i is ih =>
    simp only [List.foldlM_cons, bind_eq_ok, pure_eq_ok] at h
    obtain ⟨_, ⟨slot, -, rfl⟩, hrest⟩ := h
    exact fun other hother => ih hrest other (zerosKept_update st slot other hother)

/-- Clearing an array zeroes its length, and writes nothing but zeros. -/
theorem clearArray_eq_ok {arrayId : ℕ} (h : clearArray st slots arrayId = .ok st') :
    st' (slots.crossBatch arrayId) = 0 ∧ ZerosKept st st' := by
  simp only [clearArray, bind_eq_ok, pure_eq_ok] at h
  obtain ⟨st₁, hloop, rfl⟩ := h
  exact ⟨Function.update_self .., fun slot hslot =>
    zerosKept_update st₁ _ slot (zerosKept_foldlM hloop slot hslot)⟩

private theorem foldl_zero {base : ℕ} (is : List ℕ) (st : Storage) :
    ZerosKept st (is.foldl (fun st i => Function.update st ((base + i) % WORD) 0) st) ∧
      ∀ i ∈ is, is.foldl (fun st i => Function.update st ((base + i) % WORD) 0) st
        ((base + i) % WORD) = 0 := by
  induction is generalizing st with
  | nil => exact ⟨fun _ hslot => hslot, fun i hi => absurd hi List.not_mem_nil⟩
  | cons j is ih =>
    obtain ⟨hkept, hzero⟩ := ih (Function.update st ((base + j) % WORD) 0)
    refine ⟨fun slot hslot => hkept slot (zerosKept_update st _ slot hslot), ?_⟩
    rintro i (_ | ⟨_, hi⟩)
    · exact hkept _ (Function.update_self ..)
    · exact hzero i hi

/-- After `cleanupSession` nothing of the session is loaded, whatever it held. -/
theorem cleanupSession_eq_ok (h : cleanupSession st slots = .ok st') :
    loadSession st' slots = DAGBatchSession.empty ∧
      loadCrossBatchData st' slots = .ok ⟨[], [], []⟩ := by
  simp only [cleanupSession, bind_eq_ok] at h
  obtain ⟨st₁, h₁, st₂, h₂, h₃⟩ := h
  obtain ⟨hflat, hkept₁⟩ := clearArray_eq_ok h₁
  obtain ⟨hoffsets, hkept₂⟩ := clearArray_eq_ok h₂
  obtain ⟨hchallenges, hkept₃⟩ := clearArray_eq_ok h₃
  constructor
  · have hword : ∀ i < 14, st' ((slots.session + i) % WORD) = 0 := fun i hi =>
      hkept₃ _ (hkept₂ _ (hkept₁ _ ((foldl_zero (List.range 14) st).2 i (List.mem_range.mpr hi))))
    exact loadSession_eq_sessionOfWords hword
  · have hload : ∀ arrayId, st' (slots.crossBatch arrayId) = 0 →
        loadArray st' slots arrayId = .ok [] := by
      intro arrayId hzero
      rw [loadArray, hzero]
      rfl
    rw [loadCrossBatchData, hload _ (hkept₃ _ (hkept₂ _ hflat)), ok_bind,
      hload _ (hkept₃ _ hoffsets), ok_bind, hload _ hchallenges, ok_bind]
    rfl

end Cleanup

section Flattening

variable {allBindings : List (List ℕ)}

private theorem foldlM_range_succ {σ : Type} {f : σ → ℕ → Except Panic σ} {n : ℕ} {s s' s'' : σ}
    (hrun : (List.range n).foldlM f s = .ok s') (hturn : f s' n = .ok s'') :
    (List.range (n + 1)).foldlM f s = .ok s'' := by
  rw [List.range_succ, foldlM_append, hrun, ok_bind, List.foldlM_cons, hturn]
  rfl

theorem length_flatten_take_succ {n : ℕ} {bindings : List ℕ}
    (hn : allBindings[n]? = some bindings) :
    (allBindings.take (n + 1)).flatten = (allBindings.take n).flatten ++ bindings := by
  rw [List.take_add_one, hn, Option.toList_some, List.flatten_append, List.flatten_singleton]

theorem flattenValues_ok {lo bindings : List ℕ} {n rest : ℕ} (hn : n ≤ bindings.length)
    (hfits : lo.length + n < WORD) :
    (List.range n).foldlM (flattenValue bindings) (lo ++ List.replicate (n + rest) 0, lo.length) =
      .ok (lo ++ bindings.take n ++ List.replicate rest 0, lo.length + n) := by
  induction n generalizing rest with
  | zero => simp only [List.range_zero, List.foldlM_nil, List.take_zero, List.append_nil,
      Nat.zero_add, Nat.add_zero, pure_eq_ok]
  | succ n ih =>
    have hget : getOr Panic.indexOutOfBounds bindings n = .ok bindings[n] := getOr_of_lt hn
    have hat : lo.length + n = (lo ++ bindings.take n).length := by
      rw [List.length_append, List.length_take_of_le (by omega)]
    have hset := @setOr_append Panic .indexOutOfBounds (lo ++ bindings.take n)
      (List.replicate rest 0) 0 bindings[n] _ hat
    have hrun := @ih (rest + 1) (by omega) (by omega)
    have hsize : n + 1 + rest = n + (rest + 1) := by omega
    rw [hsize]
    refine foldlM_range_succ hrun ?_
    rw [flattenValue, hget, ok_bind, checkedAdd_of_lt (by omega), ok_bind, List.replicate_succ,
      hset, ok_bind, List.take_add_one, List.getElem?_eq_getElem hn]
    simp only [Option.toList_some, List.append_assoc, List.singleton_append, Nat.add_assoc]
    rfl

/-- The places at which the first `n` layers start. -/
def layerStarts (allBindings : List (List ℕ)) (n : ℕ) : List ℕ :=
  (List.range n).map fun i => (allBindings.take i).flatten.length

theorem layerStarts_succ (n : ℕ) :
    layerStarts allBindings (n + 1) =
      layerStarts allBindings n ++ [(allBindings.take n).flatten.length] := by
  rw [layerStarts, List.range_succ, List.map_append, List.map_singleton, layerStarts]

@[simp] theorem length_layerStarts (n : ℕ) : (layerStarts allBindings n).length = n := by
  rw [layerStarts, List.length_map, List.length_range]

theorem layerStarts_eq_offsetsFrom {n : ℕ} (hn : n ≤ allBindings.length) :
    layerStarts allBindings (n + 1) = offsetsFrom 0 ((allBindings.take n).map List.length) := by
  refine List.ext_getElem? fun i => ?_
  have hlen : ((allBindings.take n).map List.length).length = n := by
    rw [List.length_map, List.length_take_of_le hn]
  by_cases hi : i ≤ n
  · rw [getElem?_offsetsFrom 0 (hlen.symm ▸ hi), layerStarts, List.getElem?_map,
      List.getElem?_range (by omega), Option.map_some, List.length_flatten, ← List.map_take,
      List.take_take, Nat.min_eq_left hi, Nat.zero_add]
  · rw [List.getElem?_eq_none (by rw [length_layerStarts]; omega),
      List.getElem?_eq_none (by rw [length_offsetsFrom, hlen]; omega)]

/-- After `n` layers the arrays hold their values and their starts, and zeros behind them. -/
theorem flattenLayers_ok {n k rest : ℕ} (hn : n ≤ allBindings.length)
    (hfits : (allBindings.take n).flatten.length < WORD) :
    (List.range n).foldlM (flattenLayer allBindings)
        (List.replicate ((allBindings.take n).flatten.length + rest) 0, List.replicate (n + k) 0,
          0) =
      .ok ((allBindings.take n).flatten ++ List.replicate rest 0,
        layerStarts allBindings n ++ List.replicate k 0, (allBindings.take n).flatten.length) := by
  induction n generalizing k rest with
  | zero =>
    simp only [List.range_zero, List.foldlM_nil, List.take_zero, List.flatten_nil, List.length_nil,
      List.nil_append, layerStarts, List.map_nil, Nat.zero_add, pure_eq_ok]
  | succ n ih =>
    have hflat := length_flatten_take_succ (List.getElem?_eq_getElem hn)
    have hlen : (allBindings.take (n + 1)).flatten.length =
        (allBindings.take n).flatten.length + allBindings[n].length := by
      rw [hflat, List.length_append]
    have hget : getOr Panic.indexOutOfBounds allBindings n = .ok allBindings[n] := by
      rw [getOr_eq_ok, List.getElem?_eq_getElem hn]
    have hset := @setOr_append Panic .indexOutOfBounds (layerStarts allBindings n)
      (List.replicate k 0) 0 (allBindings.take n).flatten.length n (length_layerStarts n).symm
    have hvalues := @flattenValues_ok (allBindings.take n).flatten allBindings[n]
      allBindings[n].length rest le_rfl (hlen ▸ hfits)
    have hrun := @ih (k + 1) (allBindings[n].length + rest) (by omega) (by omega)
    rw [List.take_length] at hvalues
    have hsize : n + 1 + k = n + (k + 1) := by omega
    rw [hlen, Nat.add_assoc, hsize]
    refine foldlM_range_succ hrun ?_
    simp only [flattenLayer, List.replicate_succ, hset, hget, hvalues, ok_bind, hflat,
      layerStarts_succ, List.append_assoc, List.singleton_append]
    rfl

theorem totalLength_ok {n : ℕ} (hn : n ≤ allBindings.length)
    (hfits : (allBindings.take n).flatten.length < WORD) :
    totalLength allBindings n = .ok (allBindings.take n).flatten.length := by
  induction n with
  | zero => rfl
  | succ n ih =>
    have hflat := length_flatten_take_succ (List.getElem?_eq_getElem hn)
    rw [hflat, List.length_append] at hfits ⊢
    have hrun := ih (by omega) (by omega)
    have hget : getOr Panic.indexOutOfBounds allBindings n = .ok allBindings[n] := by
      rw [getOr_eq_ok, List.getElem?_eq_getElem hn]
    unfold totalLength at hrun ⊢
    refine foldlM_range_succ hrun ?_
    rw [hget, ok_bind, checkedAdd_of_lt hfits]

theorem totalLength_eq_ok {n total : ℕ} (hn : n ≤ allBindings.length)
    (h : totalLength allBindings n = .ok total) : total = (allBindings.take n).flatten.length := by
  induction n generalizing total with
  | zero =>
    rw [totalLength, List.range_zero, List.foldlM_nil, pure_eq_ok] at h
    exact h.symm
  | succ n ih =>
    rw [totalLength, List.range_succ, foldlM_append, bind_eq_ok] at h
    obtain ⟨sum, hsum, hlast⟩ := h
    simp only [List.foldlM_cons, List.foldlM_nil, bind_eq_ok, getOr_eq_ok, checkedAdd,
      require_eq_ok, pure_eq_ok] at hlast
    obtain ⟨_, ⟨bindings, hbindings, _, -, rfl⟩, rfl⟩ := hlast
    rw [ih (by omega) hsum, length_flatten_take_succ hbindings, List.length_append]

/-- The loops store the layers before `endLayer` with their offsets, where the language can hold
the arrays. -/
theorem flattenBindings_eq_ok {data out : CrossBatchData} {endLayer : ℕ}
    (hend : endLayer ≤ allBindings.length) :
    flattenBindings data allBindings endLayer = .ok out ↔
      (allBindings.take endLayer).flatten.length < 2 ^ 64 ∧ endLayer + 1 < 2 ^ 64 ∧
        out = updateBindings data allBindings endLayer := by
  have hword : 2 ^ 64 < WORD := by decide
  have hrun : ∀ (hflat : (allBindings.take endLayer).flatten.length < 2 ^ 64)
      (hoffsets : endLayer + 1 < 2 ^ 64), flattenBindings data allBindings endLayer =
        .ok (updateBindings data allBindings endLayer) := by
    intro hflat hoffsets
    have hlayers := @flattenLayers_ok allBindings endLayer 1 0 hend (by omega)
    have hset := @setOr_append Panic .indexOutOfBounds (layerStarts allBindings endLayer) [] 0
      (allBindings.take endLayer).flatten.length endLayer (length_layerStarts _).symm
    rw [← layerStarts_succ, layerStarts_eq_offsetsFrom hend] at hset
    rw [Nat.add_zero] at hlayers
    rw [flattenBindings, totalLength_ok hend (by omega), ok_bind, newArray_of_lt hflat, ok_bind,
      checkedAdd_of_lt (by omega), ok_bind, newArray_of_lt hoffsets, ok_bind, hlayers, ok_bind]
    simp only [List.replicate_one, hset, ok_bind, List.replicate_zero, List.append_nil]
    rfl
  constructor
  · intro h
    have hparts := h
    simp only [flattenBindings, bind_eq_ok, newArray_eq_ok, checkedAdd, require_eq_ok, pure_eq_ok,
      decide_eq_true_eq] at hparts
    obtain ⟨total, htotal, _, ⟨hflat, -⟩, size, ⟨_, -, rfl⟩, _, ⟨hoffsets, -⟩, -⟩ := hparts
    rw [totalLength_eq_ok hend htotal] at hflat
    exact ⟨hflat, hoffsets, Except.ok.inj (h.symm.trans (hrun hflat hoffsets))⟩
  · rintro ⟨hflat, hoffsets, rfl⟩
    exact hrun hflat hoffsets

end Flattening

end WorldZk.BatchStorage
