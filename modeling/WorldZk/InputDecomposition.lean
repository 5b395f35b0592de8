import WorldZk.CheckedRuns
import WorldZk.WordSerde
import WorldZk.XGBoostGuest

/-!
# Input decomposition

The prover splits a large input into parts that the guest program can take on their own, and merges
the journals of the parts. A strategy says how for one program; the one there is splits the samples
of XGBoost inference.
-/

namespace WorldZk.InputDecomposition

open CheckedRuns WordSerde XGBoostGuest

inductive DecompError
  | riscZeroDeserialize
  | noSamples
  | notSuitable
  | oneSubJob
  | subProof
deriving DecidableEq, Repr

/-- `DecompositionStrategy`. -/
structure DecompositionStrategy where
  canDecompose : List UInt8 → Bool
  itemCount : List UInt8 → Except DecompError ℕ
  split : List UInt8 → ℕ → Except DecompError (List (List UInt8))
  mergeJournals : List (List UInt8) → Except DecompError (List UInt8)
  estimateCycles : List UInt8 → Option ℕ

/-! ## XGBoost on the wire -/

def idFormat : Format (Vector UInt8 32) := Format.byte.vector 32

def nodeFormat : Format TreeNode :=
  (Format.word.pair (Format.word.pair (Format.double.pair (Format.word.pair
    (Format.word.pair Format.double))))).comap TreeNode.fields

def treeFormat : Format Tree := nodeFormat.list.comap Tree.fields

def sampleFormat : Format Sample :=
  (idFormat.pair Format.double.list).comap Sample.fields

def inputFormat : Format XGBoostInput :=
  ((Format.word.pair (Format.word.pair (Format.double.pair treeFormat.list))).pair
    (sampleFormat.list.pair Format.double)).comap XGBoostInput.fields

def predictionFormat : Format Prediction :=
  (idFormat.pair (Format.double.pair Format.word)).comap
    { toFun := fun prediction => (prediction.id, prediction.score, prediction.flagged)
      invFun := fun p => ⟨p.1, p.2.1, p.2.2⟩
      left_inv := fun _ => rfl
      right_inv := fun _ => rfl }

def outputFormat : Format XGBoostOutput :=
  (Format.word.pair (predictionFormat.list.pair (Format.word.pair
    (idFormat.list.pair idFormat)))).comap
    { toFun := fun output => (output.totalSamples, output.predictions, output.flaggedCount,
        output.flaggedIds, output.inputHash)
      invFun := fun p => ⟨p.1, p.2.1, p.2.2.1, p.2.2.2.1, p.2.2.2.2⟩
      left_inv := fun _ => rfl
      right_inv := fun _ => rfl }

/-! ## The strategy -/

/-- `try_parse`. -/
def tryParse (input : List UInt8) : Except DecompError XGBoostInput :=
  okOr .riscZeroDeserialize (inputFormat.deserialize input)

def canDecompose (input : List UInt8) : Bool :=
  okAnd (tryParse input) fun parsed => decide (1 < parsed.samples.length)

def itemCount (input : List UInt8) : Except DecompError ℕ := do
  let parsed ← tryParse input
  pure parsed.samples.length

/-- The sizes of the chunks: the first ones take one more while something is left over. -/
def chunkSizes (total chunkCount : ℕ) : List ℕ :=
  (List.range chunkCount).map fun i =>
    total / chunkCount + if i < total % chunkCount then 1 else 0

/-- The chunks, from the offset at which the loop stands. -/
def chunksFrom {α : Type} (items : List α) : ℕ → List ℕ → List (List α)
  | _, [] => []
  | offset, size :: sizes => (items.drop offset).take size :: chunksFrom items (offset + size) sizes

def split (input : List UInt8) (n : ℕ) : Except DecompError (List (List UInt8)) := do
  let parsed ← tryParse input
  let total := parsed.samples.length
  require (total != 0) .noSamples
  let chunkCount := min n total
  let chunks := chunksFrom parsed.samples 0 (chunkSizes total chunkCount)
  pure (chunks.map fun samples => inputFormat.serialize { parsed with samples := samples })

/-- The accumulators of `merge_journals`. -/
structure MergeState where
  predictions : List Prediction
  flaggedIds : List (Vector UInt8 32)
  totalSamples : UInt32
  inputHash : Vector UInt8 32

def MergeState.start : MergeState := ⟨[], [], 0, .replicate 32 0⟩

def mergeStep (s : MergeState) (journal : List UInt8) : Except DecompError MergeState := do
  let output ← okOr .riscZeroDeserialize (outputFormat.deserialize journal)
  pure
    { predictions := s.predictions ++ output.predictions
      flaggedIds := s.flaggedIds ++ output.flaggedIds
      totalSamples := s.totalSamples + output.totalSamples
      -- the hash of the first part, unless it is zero
      inputHash := if s.inputHash = .replicate 32 0 then output.inputHash else s.inputHash }

def mergeJournals (journals : List (List UInt8)) : Except DecompError (List UInt8) := do
  let s ← journals.foldlM mergeStep MergeState.start
  pure (outputFormat.serialize
    { totalSamples := s.totalSamples
      predictions := s.predictions
      flaggedCount := UInt32.ofNat s.flaggedIds.length
      flaggedIds := s.flaggedIds
      inputHash := s.inputHash })

def estimateCycles (input : List UInt8) : Option ℕ :=
  (inputFormat.deserialize input).map fun parsed =>
    parsed.samples.length * parsed.model.trees.length * 1000 + 5000000

/-- `XGBoostDecompStrategy`. -/
def xgboostStrategy : DecompositionStrategy where
  canDecompose := canDecompose
  itemCount := itemCount
  split := split
  mergeJournals := mergeJournals
  estimateCycles := estimateCycles

/-! ## The decomposer -/

/-- `DecomposerConfig`. -/
structure DecomposerConfig where
  minInputSize : ℕ
  maxSubJobs : ℕ
  targetCyclesPerJob : ℕ

def DecomposerConfig.default : DecomposerConfig := ⟨4096, 16, 20000000⟩

/-- `plan_split`. The square root of an item count is rounded up. -/
def planSplit (config : DecomposerConfig) (strategy : DecompositionStrategy) (input : List UInt8) :
    Except DecompError ℕ := do
  let items ← strategy.itemCount input
  let n :=
    match strategy.estimateCycles input with
    | some cycles => max (cycles / config.targetCyclesPerJob) 1
    | none =>
      let root := Nat.sqrt items
      max (if root * root = items then root else root + 1) 2
  pure (max (min (min n config.maxSubJobs) items) 1)

/-- A proof with the cycles that it took. -/
structure ProofResult where
  sealBytes : List UInt8
  journal : List UInt8
  cycles : ℕ
deriving DecidableEq

/-- `DecomposedReceiptResult`, with receipts of any kind. -/
structure DecomposedReceipts (ρ : Type) where
  receipts : List ρ
  seals : List (List UInt8)
  journals : List (List UInt8)
  mergedJournal : List UInt8
  totalCycles : ℕ
  subJobCount : ℕ

/-- `prove_decomposed_with_receipts`, with the prover of a part and its place. -/
def proveDecomposed {ρ : Type} (config : DecomposerConfig) (strategy : DecompositionStrategy)
    (prove : ℕ → List UInt8 → Except DecompError (ProofResult × ρ)) (input : List UInt8) :
    Except DecompError (DecomposedReceipts ρ) := do
  require (decide (config.minInputSize ≤ input.length) && strategy.canDecompose input) .notSuitable
  let n ← planSplit config strategy input
  require (decide (1 < n)) .oneSubJob
  let subInputs ← strategy.split input n
  let results ← subInputs.zipIdx.mapM fun (subInput, i) => prove i subInput
  let journals := results.map fun result => result.1.journal
  let mergedJournal ← strategy.mergeJournals journals
  pure
    { receipts := results.map Prod.snd
      seals := results.map fun result => result.1.sealBytes
      journals := journals
      mergedJournal := mergedJournal
      totalCycles := (results.map fun result => result.1.cycles).sum
      subJobCount := n }

end WorldZk.InputDecomposition
