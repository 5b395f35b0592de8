import WorldZk.InputDecomposition

/-!
# The recursive wrapper

The guest program that verifies the proofs of the parts of a decomposed input inside the zkVM, and
the host that runs it. The merged journal comes from the host. The guest commits it as it is, beside
a hash of the journals that it has verified.
-/

namespace WorldZk.RecursiveWrapper

open CheckedRuns InputDecomposition LittleEndianWords

structure WrapperInput where
  innerImageId : List UInt8
  subProofCount : UInt32
  subJournals : List (List UInt8)
  mergedJournal : List UInt8
deriving DecidableEq

structure WrapperOutput where
  innerImageId : List UInt8
  subProofCount : UInt32
  journalsHash : List UInt8
  mergedJournal : List UInt8
deriving DecidableEq

/-! ## The guest -/

inductive WrapperPanic
  | lengthMismatch
  | subProofFailed (i : ℕ)
deriving DecidableEq, Repr

/-- What the guest hashes: the count, and each journal behind its length. -/
def hashedJournals (input : WrapperInput) : List UInt8 :=
  u32ToLeBytes input.subProofCount ++
    input.subJournals.flatMap fun journal =>
      u32ToLeBytes (UInt32.ofNat journal.length) ++ journal

/-- The guest program. `verify` is `env::verify`, which finds a receipt for an image and a journal
among the assumptions that the host has added. -/
def guestMain (verify : List UInt8 → List UInt8 → Bool) (input : WrapperInput) :
    Except WrapperPanic WrapperOutput := do
  require (input.subJournals.length == input.subProofCount.toNat) .lengthMismatch
  input.subJournals.zipIdx.forM fun (journal, i) =>
    require (verify input.innerImageId journal) (.subProofFailed i)
  pure
    { innerImageId := input.innerImageId
      subProofCount := input.subProofCount
      journalsHash := Sha256.sha256 (hashedJournals input)
      mergedJournal := input.mergedJournal }

/-! ## The host -/

/-- What the host does with receipts. -/
structure Receipts (ρ : Type) where
  journal : ρ → List UInt8
  extractSeal : ρ → Option (List UInt8)

inductive WrapError
  | wrapperNotAvailable
  | noSubReceipts
  | tooManySubProofs (count : ℕ)
  | sealExtraction
  | merge (e : DecompError)
  | proving
deriving DecidableEq, Repr

def MAX_SUB_PROOFS : ℕ := 16

/-- `RecursiveWrapResult`. -/
structure RecursiveWrapResult where
  wrapperSeal : List UInt8
  wrapperJournal : List UInt8
  mergedJournal : List UInt8
  firstSubSeal : List UInt8
  firstSubJournal : List UInt8

/-- The input that `wrap` writes for the guest. -/
def wrapperInput (innerImageId : List UInt8) (subJournals : List (List UInt8))
    (strategy : DecompositionStrategy) : Except WrapError WrapperInput := do
  let mergedJournal ← (strategy.mergeJournals subJournals).mapError .merge
  pure
    { innerImageId := innerImageId
      subProofCount := UInt32.ofNat subJournals.length
      subJournals := subJournals
      mergedJournal := mergedJournal }

/-- `wrap`, with the prover of the wrapper guest. -/
def wrap {ρ : Type} (receipts : Receipts ρ) (prove : WrapperInput → List ρ → Option ρ)
    (innerImageId : List UInt8) (subReceipts : List ρ) (strategy : DecompositionStrategy) :
    Except WrapError RecursiveWrapResult :=
  match subReceipts with
  | [] => .error .noSubReceipts
  | first :: _ => do
    require (decide (subReceipts.length ≤ MAX_SUB_PROOFS)) (.tooManySubProofs subReceipts.length)
    let firstSubSeal ← okOr .sealExtraction (receipts.extractSeal first)
    let input ← wrapperInput innerImageId (subReceipts.map receipts.journal) strategy
    let receipt ← okOr .proving (prove input subReceipts)
    let wrapperSeal ← okOr .sealExtraction (receipts.extractSeal receipt)
    pure
      { wrapperSeal := wrapperSeal
        wrapperJournal := receipts.journal receipt
        mergedJournal := input.mergedJournal
        firstSubSeal := firstSubSeal
        firstSubJournal := receipts.journal first }

/-! ## What the guest proves -/

section Guest

variable {verify : List UInt8 → List UInt8 → Bool} {input : WrapperInput} {output : WrapperOutput}

/-- The guest commits an output for the inputs whose count is right and whose parts verify. It
checks nothing else. -/
theorem guestMain_eq_ok : guestMain verify input = .ok output ↔
    input.subJournals.length = input.subProofCount.toNat ∧
      (∀ journal ∈ input.subJournals, verify input.innerImageId journal = true) ∧
      output =
        { innerImageId := input.innerImageId
          subProofCount := input.subProofCount
          journalsHash := Sha256.sha256 (hashedJournals input)
          mergedJournal := input.mergedJournal } := by
  have hverified : (∀ x ∈ input.subJournals.zipIdx, verify input.innerImageId x.1 = true) ↔
      ∀ journal ∈ input.subJournals, verify input.innerImageId journal = true := by
    constructor
    · intro h journal hjournal
      obtain ⟨i, hi⟩ := List.getElem?_of_mem hjournal
      exact h (journal, i) (List.mk_mem_zipIdx_iff_getElem?.mpr hi)
    · exact fun h x hx => h x.1 (List.fst_mem_of_mem_zipIdx hx)
  simp only [guestMain, bind_eq_ok, require_eq_ok, beq_iff_eq, pure_eq_ok, forM_eq_ok, hverified]
  constructor
  · rintro ⟨_, hlength, _, hall, rfl⟩
    exact ⟨hlength, hall, rfl⟩
  · rintro ⟨hlength, hall, rfl⟩
    exact ⟨(), hlength, (), hall, rfl⟩

/-- What the guest commits is the merge of verified parts exactly when it commits nothing, because
the count is wrong or a part does not verify, or the host has computed the merge. -/
theorem merge_proved_iff {Proved : List UInt8 → List UInt8 → Prop}
    (hsound : ∀ imageId journal, verify imageId journal = true → Proved imageId journal)
    (strategy : DecompositionStrategy) (input : WrapperInput) :
    (∀ output, guestMain verify input = .ok output →
      output.innerImageId = input.innerImageId ∧
        (∀ journal ∈ input.subJournals, Proved input.innerImageId journal) ∧
        strategy.mergeJournals input.subJournals = .ok output.mergedJournal) ↔
      input.subJournals.length ≠ input.subProofCount.toNat ∨
        (∃ journal ∈ input.subJournals, verify input.innerImageId journal = false) ∨
        strategy.mergeJournals input.subJournals = .ok input.mergedJournal := by
  constructor
  · intro h
    by_contra hnone
    simp only [not_or, not_exists, not_and, not_not, Bool.not_eq_false] at hnone
    obtain ⟨hlength, hall, hmerge⟩ := hnone
    exact hmerge (h _ (guestMain_eq_ok.mpr ⟨hlength, hall, rfl⟩)).2.2
  · rintro hcases output houtput
    obtain ⟨hlength, hall, rfl⟩ := guestMain_eq_ok.mp houtput
    refine ⟨rfl, fun journal hjournal => hsound _ _ (hall journal hjournal), ?_⟩
    rcases hcases with hne | ⟨journal, hjournal, hfalse⟩ | hmerge
    · exact absurd hlength hne
    · rw [hall journal hjournal] at hfalse
      cases hfalse
    · exact hmerge

end Guest

/-! ## Two parts and a journal that is not their merge -/

/-- The journal of one sample without a flag. -/
def sampleJournal (id : UInt8) : List UInt8 :=
  outputFormat.serialize ⟨1, [⟨.replicate 32 id, 0, 0⟩], 0, [], .replicate 32 7⟩

def sampleInput (mergedJournal : List UInt8) : WrapperInput :=
  ⟨[1], 2, [sampleJournal 1, sampleJournal 2], mergedJournal⟩

/-- The assumptions that the host has added: the receipts of the two parts. -/
def sampleVerify (imageId journal : List UInt8) : Bool :=
  imageId == [1] && (journal == sampleJournal 1 || journal == sampleJournal 2)

theorem sampleVerify_all (mergedJournal : List UInt8) :
    ∀ journal ∈ (sampleInput mergedJournal).subJournals,
      sampleVerify (sampleInput mergedJournal).innerImageId journal = true := by
  simp [sampleInput, sampleVerify]

theorem length_mergeJournals {journals : List (List UInt8)} {merged : List UInt8}
    (h : mergeJournals journals = .ok merged) : merged.length % 4 = 0 := by
  simp only [mergeJournals, bind_eq_ok, pure_eq_ok] at h
  obtain ⟨s, -, rfl⟩ := h
  rw [WordSerde.Format.length_serialize, Nat.mul_mod_right]

/-- The guest commits a merged journal of the host's choice, which is no merge at all. -/
theorem forged_merge_committed :
    ∃ output, guestMain sampleVerify (sampleInput [1]) = .ok output ∧
      output.mergedJournal = [1] ∧
      xgboostStrategy.mergeJournals (sampleInput [1]).subJournals ≠ .ok output.mergedJournal := by
  refine ⟨_, guestMain_eq_ok.mpr ⟨rfl, sampleVerify_all _, rfl⟩, rfl, fun h => ?_⟩
  have hlength := length_mergeJournals h
  cases hlength

def sampleMerged : List UInt8 :=
  outputFormat.serialize
    ⟨2, [⟨.replicate 32 1, 0, 0⟩, ⟨.replicate 32 2, 0, 0⟩], 0, [], .replicate 32 7⟩

theorem sampleMerged_eq :
    mergeJournals [sampleJournal 1, sampleJournal 2] = .ok sampleMerged := by
  decide +kernel

/-- With the merge that the host computes, the committed journal is the merge of the two parts. -/
theorem honest_merge_committed :
    ∃ output, guestMain sampleVerify (sampleInput sampleMerged) = .ok output ∧
      xgboostStrategy.mergeJournals (sampleInput sampleMerged).subJournals =
        .ok output.mergedJournal := by
  have houtput := guestMain_eq_ok.mpr ⟨rfl, sampleVerify_all sampleMerged, rfl⟩
  refine ⟨_, houtput, ?_⟩
  exact ((merge_proved_iff (fun imageId journal (h : sampleVerify imageId journal = true) => h)
    xgboostStrategy (sampleInput sampleMerged)).mpr
      (.inr (.inr sampleMerged_eq)) _ houtput).2.2

end WorldZk.RecursiveWrapper
