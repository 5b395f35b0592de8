import WorldZk.Groth16Layout
import WorldZk.HybridReplay
import WorldZk.StylusVerifier

/-!
# The Stylus verifier with a Groth16 proof for the curve operations

The hybrid entry point of the `gkr-verifier` crate, which replays the transcript and computes the
scalars but no curve equation, and the two paths of `RemainderVerifier` that hand its digest to a
Groth16 verifier through the library `HybridStylusGroth16Verifier`.
-/

namespace WorldZk.StylusHybrid

open CheckedRuns Bn254Moduli FieldArithmetic PoseidonSponge ProofTypes VerifierBackend
open CommittedSumcheck DagLayers InputLayers ProofDecoding Transcript Keccak256 SolidityVerifier
open Groth16Layout HybridReplay StylusVerifier

/-! ## The entry point -/

/-- The words of `encode_hybrid_fr_outputs`. -/
def frOutputWords (outputs : FrOutputs) : List ℕ :=
  outputs.layers.length :: outputs.layers.map (·.rlcBeta) ++ outputs.layers.map (·.zDotJStar) ++
    [outputs.inputs.zDotRs.length, outputs.inputs.lTensorFlat.length] ++
    outputs.inputs.lTensorFlat ++ outputs.inputs.zDotRs ++ [outputs.inputs.mleEvals.length] ++
    outputs.inputs.mleEvals

/-- `encode_hybrid_fr_outputs`. -/
def encodeHybridFrOutputs (outputs : FrOutputs) : List UInt8 :=
  (frOutputWords outputs).flatMap wordToBeBytes

/-- What the hybrid entry point of a Stylus verifier returns. -/
structure HybridResult where
  success : Bool
  transcriptDigest : ℕ
  frOutputs : List UInt8
deriving DecidableEq, Repr

/-- `verify_dag_proof_hybrid`. -/
def verifyDagProofHybrid (proofData _publicInputs gensData circuitDescData : List UInt8) :
    Except Trap HybridResult := do
  require (decide (4 ≤ proofData.length)) .proofTooShort
  require (proofData.take 4 == SELECTOR) .invalidSelector
  let proofBytes := proofData.drop 4
  require (decide (32 ≤ proofBytes.length)) .bodyTooShort
  let circuitHash := proofBytes.take 32
  let proof ← trapDecode (decodeProofForDag (decoderReader proofBytes))
  let _ ← trapDecode (decodePedersenGens (decoderReader gensData))
  let (desc, _) ← trapDecode ((decodeCircuitDescription (decoderReader circuitDescData)
    (readUsizeFrom circuitDescData) (· % 2 ^ 64)).run 0)
  let (outputs, digest) ← trapVerifier
    (hybridPhases stylusBackend proof desc (ZkmlVerifier.proofTranscript circuitHash proof))
  pure ⟨true, digest, encodeHybridFrOutputs outputs⟩

theorem trapDecode_eq_ok {α : Type} {x : Except DecodeError α} {a : α} :
    trapDecode x = .ok a ↔ x = .ok a := by
  cases x <;> simp [trapDecode]

theorem trapVerifier_eq_ok {α : Type} {x : Checked α} {a : α} :
    trapVerifier x = .ok a ↔ x = .ok a := by
  cases x <;> simp [trapVerifier]

theorem verifyDagProofHybrid_eq_ok {body publicInputs gensData circuitDescData : List UInt8}
    {result : HybridResult} :
    verifyDagProofHybrid (SELECTOR ++ body) publicInputs gensData circuitDescData = .ok result ↔
      32 ≤ body.length ∧ ∃ proof gens desc outputs digest,
        decodeProofForDag (decoderReader body) = .ok proof ∧
        decodePedersenGens (decoderReader gensData) = .ok gens ∧
        (decodeCircuitDescription (decoderReader circuitDescData) (readUsizeFrom circuitDescData)
          (· % 2 ^ 64)).run 0 = .ok desc ∧
        hybridPhases stylusBackend proof desc.1 (ZkmlVerifier.proofTranscript (body.take 32) proof) =
          .ok (outputs, digest) ∧
        result = ⟨true, digest, encodeHybridFrOutputs outputs⟩ := by
  have hlen : 4 ≤ (SELECTOR ++ body).length := by simp [SELECTOR]
  have htake : (SELECTOR ++ body).take 4 = SELECTOR := rfl
  have hdrop : (SELECTOR ++ body).drop 4 = body := rfl
  simp only [verifyDagProofHybrid, htake, hdrop, hlen, decide_true, require_true, ok_bind,
    beq_self_eq_true, bind_eq_ok, require_eq_ok, decide_eq_true_eq, trapDecode_eq_ok,
    trapVerifier_eq_ok, pure_eq_ok]
  constructor
  · rintro ⟨-, hbody, proof, hproof, gens, hgens, desc, hdesc, ⟨outputs, digest⟩, hphases, rfl⟩
    exact ⟨hbody, proof, gens, desc, outputs, digest, hproof, hgens, hdesc, hphases, rfl⟩
  · rintro ⟨hbody, proof, gens, desc, outputs, digest, hproof, hgens, hdesc, hphases, rfl⟩
    exact ⟨(), hbody, proof, hproof, gens, hgens, desc, hdesc, (outputs, digest), hphases, rfl⟩

/-- A deployed Stylus verifier: the result of its `verifyDagProofHybrid`, or `none` when it
traps. -/
abbrev StylusHybridContract : Type :=
  List UInt8 → List UInt8 → List UInt8 → List UInt8 → Option HybridResult

/-- The `gkr-verifier` crate as a deployed contract. -/
def gkrVerifierHybrid : StylusHybridContract := fun proofData publicInputs gensData circuitDescData =>
  (verifyDagProofHybrid proofData publicInputs gensData circuitDescData).toOption

/-! ## The library -/

/-- The reverts of the two paths: those of `RemainderVerifier` and those of the library. -/
inductive HybridError
  | verifier (cause : ContractError)
  | stylusVerificationFailed
  | dagECGroth16VerifierNotSet
  | groth16VerificationFailed
  | invalidChunkCount
  | chunkVerificationFailed (chunkIndex : ℕ)
deriving DecidableEq, Repr

abbrev HybridCall (α : Type) : Type := Except HybridError α

def liftCall {α : Type} : Call α → HybridCall α
  | .ok a => .ok a
  | .error e => .error (.verifier e)

@[simp] theorem liftCall_eq_ok {α : Type} {x : Call α} {a : α} :
    liftCall x = .ok a ↔ x = .ok a := by
  cases x <;> simp [liftCall]

/-- `callStylusHybrid`. -/
def callStylusHybrid (stylusVerifier : StylusHybridContract)
    (proof publicInputs gensData circuitDescData : List UInt8) : HybridCall HybridResult :=
  match stylusVerifier proof publicInputs gensData circuitDescData with
  | some result => .ok result
  | none => .error .stylusVerificationFailed

/-- A deployed EC Groth16 verifier: whether a call with the selector for `n` public inputs, a
proof and the words of the inputs returns. -/
abbrev ECGroth16Verifier : Type := ℕ → List ℕ → List ℕ → Bool

/-- What `setDAGECGroth16Verifier` stores for a circuit. -/
structure ECVerifierConfig where
  verifier : ECGroth16Verifier
  inputCount : ℕ

/-- `buildGroth16Inputs`: the digest, the two halves of the hash and the words of the outputs,
padded or cut to the expected number. -/
def buildGroth16Inputs (transcriptDigest circuitHash : ℕ) (frOutputs : List UInt8)
    (expectedCount : ℕ) : Call (List ℕ) := do
  let numFrOutputs := frOutputs.length / 32
  let totalInputs :=
    if 0 < expectedCount ∧ expectedCount ≠ 3 + numFrOutputs then expectedCount
    else 3 + numFrOutputs
  require (decide (3 ≤ totalInputs)) .panicIndexOutOfBounds
  let (lo, hi) := hashToFqPair (wordToBeBytes circuitHash)
  let copyCount := if totalInputs < 3 + numFrOutputs then totalInputs - 3 else numFrOutputs
  pure ([transcriptDigest % FR_MOD, lo, hi] ++
    (List.range copyCount).map (fun i => beValue ((frOutputs.drop (32 * i)).take 32)) ++
    List.replicate (totalInputs - 3 - copyCount) 0)

/-- The two calls of a Groth16 verifier, from calldata and from memory: a revert of the callee is
passed on, and what it returns is not read. -/
def callGroth16Verifier (ec : ECVerifierConfig) (proof inputs : List ℕ) : HybridCall Unit :=
  require (ec.verifier ec.inputCount proof inputs) .groth16VerificationFailed

/-- One round of the loop of `verifyAllChunks`, with the words that the chunk's proof is verified
against. -/
def verifyChunk (ec : ECVerifierConfig) (st : ChunkStatement) (chunkProof : List ℕ) :
    HybridCall (List ℕ) := do
  require (chunkProof.length == 8) (.chunkVerificationFailed st.chunkIndex)
  let inputs ← liftCall (buildChunkedGroth16Inputs st ec.inputCount)
  callGroth16Verifier ec chunkProof inputs
  pure inputs

/-- `verifyAllChunks`. The source returns nothing; the words of the chunks are kept here. -/
def verifyAllChunks (ec : ECVerifierConfig) (transcriptDigest circuitHash : ℕ)
    (chunkProofs : List (List ℕ)) (totalChunks opsDigest : ℕ) : HybridCall (List (List ℕ)) := do
  require (totalChunks != 0) .invalidChunkCount
  require (chunkProofs.length == totalChunks) .invalidChunkCount
  chunkProofs.zipIdx.mapM fun pi =>
    verifyChunk ec ⟨transcriptDigest, circuitHash, pi.2, totalChunks, opsDigest⟩ pi.1

/-- The digest of the operations that `verifyHybridChunked` computes. -/
def opsDigestOf (frOutputs : List UInt8) : ℕ := keccak256 frOutputs % FR_MOD

/-- `verifyHybridChunked`, which no function of `RemainderVerifier` calls. -/
def verifyHybridChunked (stylusVerifier : StylusHybridContract) (ec : ECVerifierConfig)
    (proof : List UInt8) (circuitHash : ℕ) (publicInputs gensData circuitDescData : List UInt8)
    (ecGroth16Proofs : List (List ℕ)) : HybridCall Bool := do
  let result ← callStylusHybrid stylusVerifier proof publicInputs gensData circuitDescData
  if result.success then
    let _ ← verifyAllChunks ec result.transcriptDigest circuitHash ecGroth16Proofs
      ecGroth16Proofs.length (opsDigestOf result.frOutputs)
    pure true
  else pure false

/-! ## The contract -/

/-- The contracts that `RemainderVerifier` stores for the circuits of these paths. -/
structure HybridContracts where
  stylusVerifiers : ℕ → Option StylusHybridContract
  ecVerifiers : ℕ → Option ECVerifierConfig

/-- The arguments of a call that both paths share. -/
structure HybridArgs where
  proof : List UInt8
  circuitHash : ℕ
  publicInputs : List UInt8
  gensData : List UInt8
deriving DecidableEq, Repr

/-- The checks of both paths before the Stylus call. -/
def checkHybridCall (c : Contract) (args : HybridArgs) : Call DAGCircuitConfig := do
  require (!c.paused) .enforcedPause
  let config ← activeCircuit c args.circuitHash
  checkProofFormat args.proof
  checkGenerators config args.gensData
  pure config

/-- `_hybridStylusStep`. -/
def hybridStylusStep (contracts : HybridContracts) (config : DAGCircuitConfig)
    (args : HybridArgs) : HybridCall HybridResult :=
  match contracts.stylusVerifiers args.circuitHash with
  | none => .error (.verifier .stylusVerifierNotConfigured)
  | some stylusVerifier => callStylusHybrid stylusVerifier args.proof args.publicInputs
      args.gensData (encodeFlatCircuitDesc config.description)

/-- The EC verifier of a circuit. -/
def ecVerifierOf (contracts : HybridContracts) (circuitHash : ℕ) : HybridCall ECVerifierConfig :=
  match contracts.ecVerifiers circuitHash with
  | none => .error .dagECGroth16VerifierNotSet
  | some ec => .ok ec

/-- What an accepted call of `verifyDAGProofStylusGroth16` computed: the result of the Stylus call
and the words of the Groth16 call. -/
structure HybridRun where
  stylus : HybridResult
  inputs : List ℕ
deriving DecidableEq, Repr

/-- `verifyDAGProofStylusGroth16`: `none` where it returns false, and otherwise the run. -/
def verifyDAGProofStylusGroth16 (c : Contract) (contracts : HybridContracts) (args : HybridArgs)
    (ecGroth16Proof : List ℕ) : HybridCall (Option HybridRun) := do
  let config ← liftCall (checkHybridCall c args)
  let result ← hybridStylusStep contracts config args
  if result.success then
    let ec ← ecVerifierOf contracts args.circuitHash
    let inputs ← liftCall (buildGroth16Inputs result.transcriptDigest args.circuitHash
      result.frOutputs ec.inputCount)
    callGroth16Verifier ec ecGroth16Proof inputs
    pure (some ⟨result, inputs⟩)
  else pure none

/-- The same for the chunked path, with the words of each chunk. -/
structure ChunkedRun where
  stylus : HybridResult
  chunkInputs : List (List ℕ)
deriving DecidableEq, Repr

/-- `verifyDAGProofStylusGroth16Chunked`. The outputs of the Stylus call are dropped, and the
digest of the operations is an argument of the call. -/
def verifyDAGProofStylusGroth16Chunked (c : Contract) (contracts : HybridContracts)
    (args : HybridArgs) (ecGroth16Proofs : List (List ℕ)) (totalChunks opsDigest : ℕ) :
    HybridCall (Option ChunkedRun) := do
  let config ← liftCall (checkHybridCall c args)
  let result ← hybridStylusStep contracts config args
  if result.success then
    let ec ← ecVerifierOf contracts args.circuitHash
    let chunkInputs ← verifyAllChunks ec result.transcriptDigest args.circuitHash ecGroth16Proofs
      totalChunks opsDigest
    pure (some ⟨result, chunkInputs⟩)
  else pure none

/-! ## Accepted calls -/

section Accepted

variable {c : Contract} {contracts : HybridContracts} {args : HybridArgs}

theorem ecVerifierOf_eq_ok {circuitHash : ℕ} {ec : ECVerifierConfig} :
    ecVerifierOf contracts circuitHash = .ok ec ↔ contracts.ecVerifiers circuitHash = some ec := by
  unfold ecVerifierOf
  split <;> simp_all

theorem hybrid_eq_ok_some {ecGroth16Proof : List ℕ} {run : HybridRun} :
    verifyDAGProofStylusGroth16 c contracts args ecGroth16Proof = .ok (some run) ↔
      ∃ config ec, checkHybridCall c args = .ok config ∧
        hybridStylusStep contracts config args = .ok run.stylus ∧ run.stylus.success = true ∧
        contracts.ecVerifiers args.circuitHash = some ec ∧
        buildGroth16Inputs run.stylus.transcriptDigest args.circuitHash run.stylus.frOutputs
          ec.inputCount = .ok run.inputs ∧
        ec.verifier ec.inputCount ecGroth16Proof run.inputs = true := by
  simp only [verifyDAGProofStylusGroth16, bind_eq_ok, liftCall_eq_ok]
  constructor
  · rintro ⟨config, hconfig, result, hstylus, hrest⟩
    split at hrest
    · rename_i hsuccess
      simp only [callGroth16Verifier, bind_eq_ok, pure_eq_ok, require_eq_ok, Option.some.injEq,
        ecVerifierOf_eq_ok, liftCall_eq_ok] at hrest
      obtain ⟨ec, hec, inputs, hinputs, -, hverify, rfl⟩ := hrest
      exact ⟨config, ec, hconfig, hstylus, hsuccess, hec, hinputs, hverify⟩
    · cases hrest
  · rintro ⟨config, ec, hconfig, hstylus, hsuccess, hec, hinputs, hverify⟩
    refine ⟨config, hconfig, run.stylus, hstylus, ?_⟩
    rw [if_pos hsuccess]
    simp only [callGroth16Verifier, bind_eq_ok, pure_eq_ok, require_eq_ok, ecVerifierOf_eq_ok,
      liftCall_eq_ok]
    exact ⟨ec, hec, run.inputs, hinputs, (), hverify, rfl⟩

theorem chunked_eq_ok_some {ecGroth16Proofs : List (List ℕ)} {totalChunks opsDigest : ℕ}
    {run : ChunkedRun} :
    verifyDAGProofStylusGroth16Chunked c contracts args ecGroth16Proofs totalChunks opsDigest =
        .ok (some run) ↔
      ∃ config ec, checkHybridCall c args = .ok config ∧
        hybridStylusStep contracts config args = .ok run.stylus ∧ run.stylus.success = true ∧
        contracts.ecVerifiers args.circuitHash = some ec ∧
        verifyAllChunks ec run.stylus.transcriptDigest args.circuitHash ecGroth16Proofs totalChunks
          opsDigest = .ok run.chunkInputs := by
  simp only [verifyDAGProofStylusGroth16Chunked, bind_eq_ok, liftCall_eq_ok]
  constructor
  · rintro ⟨config, hconfig, result, hstylus, hrest⟩
    split at hrest
    · rename_i hsuccess
      simp only [bind_eq_ok, pure_eq_ok, Option.some.injEq, ecVerifierOf_eq_ok] at hrest
      obtain ⟨ec, hec, chunkInputs, hchunks, rfl⟩ := hrest
      exact ⟨config, ec, hconfig, hstylus, hsuccess, hec, hchunks⟩
    · cases hrest
  · rintro ⟨config, ec, hconfig, hstylus, hsuccess, hec, hchunks⟩
    refine ⟨config, hconfig, run.stylus, hstylus, ?_⟩
    rw [if_pos hsuccess]
    simp only [bind_eq_ok, pure_eq_ok, ecVerifierOf_eq_ok]
    exact ⟨ec, hec, run.chunkInputs, hchunks, rfl⟩

end Accepted

end WorldZk.StylusHybrid
