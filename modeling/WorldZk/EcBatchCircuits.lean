import WorldZk.ChunkBinding

/-!
# The circuits for the curve operations

`ECBatchCircuit` and `ChunkedECBatchCircuit` check a batch of scalar multiplications and additions
that the prover supplies as secret inputs. Their public inputs are the transcript digest and the
circuit hash, for a chunk also a digest and two counters; none of them is compared with the
operations. So a statement that is true for one list of operations is true for others, and what
the circuit proves says nothing about the proof under verification.
-/

namespace WorldZk.EcBatchCircuits

open CheckedRuns Bn254Moduli ProofTypes ProofDecoding Transcript FieldArithmetic NativeCurve
open PoseidonSponge SolidityVerifier StylusVerifier HybridSoundness StylusHybrid
open ChunkBinding
open LayeredBinding (noGens)

/-! ## The circuits -/

/-- A secret claim `result = scalar * base`. -/
structure MulOp where
  base : G1Point
  scalar : ℕ
  result : G1Point
deriving DecidableEq, Repr

/-- A secret claim `result = p1 + p2`. -/
structure AddOp where
  p1 : G1Point
  p2 : G1Point
  result : G1Point
deriving DecidableEq, Repr

/-- The secret inputs of both circuits. -/
structure ECOperations where
  muls : List MulOp
  adds : List AddOp
deriving DecidableEq, Repr

structure ECCircuitConfig where
  numMulOps : ℕ
  numAddOps : ℕ
deriving DecidableEq, Repr

/-- What the circuits take from gnark: the hash, and the gadgets of the emulated curve. -/
structure Gnark where
  mimc : List ℕ → ℕ
  multiScalarMul : List G1Point → List ℕ → G1Point
  addUnified : G1Point → G1Point → G1Point

/-- The gadgets compute in the group. -/
structure Gnark.Lawful (gnark : Gnark) : Prop where
  multiScalarMul : ∀ terms : List (G1 × ℕ),
    gnark.multiScalarMul (terms.map fun t => encode t.1) (terms.map Prod.snd) =
      encode (terms.map fun t => t.2 • t.1).sum
  addUnified : ∀ P Q, gnark.addUnified (encode P) (encode Q) = encode (P + Q)

/-- The four limbs of an emulated coordinate. -/
def fpToLimbs (v : ℕ) : List ℕ :=
  [v % 2 ^ 64, v / 2 ^ 64 % 2 ^ 64, v / 2 ^ 128 % 2 ^ 64, v / 2 ^ 192 % 2 ^ 64]

def pointLimbs (p : G1Point) : List ℕ := fpToLimbs p.x ++ fpToLimbs p.y

/-- The operations as both batch challenges hash them. -/
def ECOperations.hashed (ops : ECOperations) : List ℕ :=
  ops.muls.flatMap (fun m => pointLimbs m.base ++ [m.scalar] ++ pointLimbs m.result) ++
    ops.adds.flatMap fun a => pointLimbs a.p1 ++ pointLimbs a.p2 ++ pointLimbs a.result

/-- The powers of the batch challenge. -/
def rPowers (batchChallenge n : ℕ) : List ℕ :=
  (List.range n).map fun i => batchChallenge ^ i % FR_MOD

/-- The constraints that both circuits put on the operations: a challenge hashed from `domain` and
from the operations, and one equation for each kind. -/
structure BatchHolds (gnark : Gnark) (config : ECCircuitConfig) (domain : List ℕ)
    (ops : ECOperations) : Prop where
  numMuls : ops.muls.length = config.numMulOps
  numAdds : ops.adds.length = config.numAddOps
  muls : 0 < config.numMulOps →
    let powers := (rPowers (gnark.mimc (domain ++ ops.hashed))
      (config.numMulOps + config.numAddOps)).take config.numMulOps
    gnark.multiScalarMul (ops.muls.map (·.result)) powers =
      gnark.multiScalarMul (ops.muls.map (·.base))
        (powers.zipWith (fun r s => r * s % FR_MOD) (ops.muls.map (·.scalar)))
  adds : 0 < config.numAddOps →
    let powers := (rPowers (gnark.mimc (domain ++ ops.hashed))
      (config.numMulOps + config.numAddOps)).drop config.numMulOps
    gnark.multiScalarMul (ops.adds.map (·.result)) powers =
      gnark.addUnified (gnark.multiScalarMul (ops.adds.map (·.p1)) powers)
        (gnark.multiScalarMul (ops.adds.map (·.p2)) powers)

/-- A compiled circuit, as the relation between the words of its public inputs and its secret
ones. -/
abbrev ECCircuit : Type := List ℕ → ECOperations → Prop

/-- `ECBatchCircuit`. The hash of the circuit is in no constraint. -/
def ecBatchCircuit (gnark : Gnark) (config : ECCircuitConfig) : ECCircuit := fun words ops =>
  ∃ transcriptDigest circuitHashLo circuitHashHi,
    words = [transcriptDigest, circuitHashLo, circuitHashHi] ∧
    BatchHolds gnark config [transcriptDigest] ops

/-- `ChunkedECBatchCircuit`. A chunk without operations has no constraint. -/
def chunkedECBatchCircuit (gnark : Gnark) (config : ECCircuitConfig) : ECCircuit := fun words ops =>
  ∃ transcriptDigest circuitHashLo circuitHashHi opsDigest chunkIndex totalChunks,
    words = [transcriptDigest, circuitHashLo, circuitHashHi, opsDigest, chunkIndex, totalChunks] ∧
    (config.numMulOps + config.numAddOps ≠ 0 →
      ((totalChunks : ZMod FR_MOD) - chunkIndex - 1).val < 2 ^ 32) ∧
    BatchHolds gnark config [opsDigest, chunkIndex] ops

/-- Whoever makes the verifier accept knows secret inputs for the words. -/
def KnowledgeSound (circuit : ECCircuit) (verifier : ECGroth16Verifier) : Prop :=
  ∀ n proof words, verifier n proof words = true → ∃ ops, circuit words ops

/-! ## Honest operations -/

/-- Operations on multiples of the generator, with right results. -/
def honestOps (config : ECCircuitConfig) (scalar : ℕ) : ECOperations where
  muls := List.replicate config.numMulOps
    ⟨encode generator, scalar, encode (scalar • generator)⟩
  adds := List.replicate config.numAddOps
    ⟨encode generator, encode (scalar • generator), encode ((1 + scalar) • generator)⟩

section Honest

variable {gnark : Gnark} {config : ECCircuitConfig}

private theorem multiScalarMul_replicate (hgnark : gnark.Lawful) (P : G1) {n : ℕ}
    {scalars : List ℕ} (hlen : scalars.length = n) :
    gnark.multiScalarMul (List.replicate n (encode P)) scalars = encode (scalars.sum • P) := by
  have hterms := hgnark.multiScalarMul (scalars.map fun s => (P, s))
  rw [List.map_map, List.map_map, List.map_map] at hterms
  have hpoints : scalars.map ((fun t : G1 × ℕ => encode t.1) ∘ fun s => (P, s)) =
      List.replicate n (encode P) := by
    rw [← hlen]
    change scalars.map (fun _ => encode P) = _
    exact List.map_const'
  have hscalars : scalars.map (Prod.snd ∘ fun s => (P, s)) = scalars := List.map_id _
  have hsum : (scalars.map ((fun t : G1 × ℕ => t.2 • t.1) ∘ fun s => (P, s))).sum =
      scalars.sum • P := by
    clear hterms hpoints hscalars hlen
    induction scalars with
    | nil => simp
    | cons s scalars ih =>
      rw [List.map_cons, List.sum_cons, ih, List.sum_cons, add_nsmul]
      rfl
  rwa [hpoints, hscalars, hsum] at hterms

private theorem sum_zipWith_replicate (powers : List ℕ) (scalar : ℕ) (P : G1) :
    ((powers.zipWith (fun r s => r * s % FR_MOD)
        (List.replicate powers.length scalar)).sum) • P =
      powers.sum • (scalar • P) := by
  induction powers with
  | nil => simp
  | cons r powers ih =>
    rw [List.length_cons, List.replicate_succ, List.zipWith_cons_cons, List.sum_cons, add_nsmul, ih,
      nsmul_mod, mul_nsmul', List.sum_cons, add_nsmul]

theorem batchHolds_honestOps (hgnark : gnark.Lawful) (domain : List ℕ) (scalar : ℕ) :
    BatchHolds gnark config domain (honestOps config scalar) where
  numMuls := List.length_replicate
  numAdds := List.length_replicate
  muls := by
    intro _ powers
    have hlen : powers.length = config.numMulOps := by simp [powers, rPowers]
    simp only [honestOps, List.map_replicate]
    rw [multiScalarMul_replicate hgnark _ hlen, multiScalarMul_replicate hgnark _ (by simp [hlen]),
      ← hlen, sum_zipWith_replicate]
  adds := by
    intro _ powers
    have hlen : powers.length = config.numAddOps := by simp [powers, rPowers]
    simp only [honestOps, List.map_replicate]
    rw [multiScalarMul_replicate hgnark _ hlen, multiScalarMul_replicate hgnark _ hlen,
      multiScalarMul_replicate hgnark _ hlen, hgnark.addUnified, add_nsmul, one_nsmul, nsmul_add]

/-- A statement of the circuit that is true for some operations is true for the honest ones. -/
theorem ecBatchCircuit_honestOps (hgnark : gnark.Lawful) {words : List ℕ} {ops : ECOperations}
    (h : ecBatchCircuit gnark config words ops) (scalar : ℕ) :
    ecBatchCircuit gnark config words (honestOps config scalar) := by
  obtain ⟨digest, lo, hi, rfl, -⟩ := h
  exact ⟨digest, lo, hi, rfl, batchHolds_honestOps hgnark _ scalar⟩

theorem chunkedECBatchCircuit_honestOps (hgnark : gnark.Lawful) {words : List ℕ}
    {ops : ECOperations} (h : chunkedECBatchCircuit gnark config words ops) (scalar : ℕ) :
    chunkedECBatchCircuit gnark config words (honestOps config scalar) := by
  obtain ⟨digest, lo, hi, opsDigest, chunkIndex, totalChunks, rfl, hrange, -⟩ := h
  exact ⟨digest, lo, hi, opsDigest, chunkIndex, totalChunks, rfl, hrange,
    batchHolds_honestOps hgnark _ scalar⟩

end Honest

/-! ## What an accepted call says -/

/-- The call is sound: the proof passes the full verification, and the operations of any secret
input for the words of the Groth16 calls are those that the checks of this proof perform. The
checks multiply the output claim by its coefficient, so there is a multiplication among them. -/
structure SoundCall (c : Contract) (args : HybridArgs) (circuit : ECCircuit)
    (statements : List (List ℕ)) : Prop where
  verified : verifyDAGProof c args.proof args.circuitHash args.publicInputs args.gensData = .ok true
  operations : ∃ performed : List ECOperations,
    List.Forall₂ (fun words ops => ∀ ops', circuit words ops' → ops' = ops) statements performed ∧
      ∃ ops ∈ performed, ops.muls ≠ []

/-- Where the operations can be exchanged in every statement, no call is sound. -/
private theorem not_soundCall {c : Contract} {args : HybridArgs} {circuit : ECCircuit}
    {config : ECCircuitConfig} {statements : List (List ℕ)}
    (hknown : ∀ words ∈ statements, ∃ ops, circuit words ops)
    (hhonest : ∀ words ops, circuit words ops → ∀ scalar, circuit words (honestOps config scalar)) :
    ¬SoundCall c args circuit statements := by
  rintro ⟨-, performed, hfixed, ops, hops, hmuls⟩
  obtain ⟨i, hi⟩ := List.getElem?_of_mem hops
  obtain ⟨hlt, rfl⟩ := List.getElem?_eq_some_iff.mp hi
  obtain ⟨hlen, hget⟩ := List.forall₂_iff_get.mp hfixed
  have hstatement := hget i (hlen ▸ hlt) hlt
  obtain ⟨known, hcircuit⟩ := hknown _ (List.getElem_mem (hlen ▸ hlt))
  have htwo := hstatement _ (hhonest _ _ hcircuit 2)
  have hthree := hstatement _ (hhonest _ _ hcircuit 3)
  have hsame : (honestOps config 2).muls = (honestOps config 3).muls := by rw [htwo, hthree]
  have hpos : config.numMulOps ≠ 0 := by
    intro hzero
    apply hmuls
    change (performed.get ⟨i, hlt⟩).muls = []
    rw [← htwo, honestOps, hzero, List.replicate_zero]
  have hop := List.eq_of_mem_replicate (hsame ▸ List.mem_replicate.mpr ⟨hpos, rfl⟩ :
    (⟨encode generator, 2, encode (2 • generator)⟩ : MulOp) ∈ (honestOps config 3).muls)
  have hscalar : 2 = 3 := congrArg MulOp.scalar hop
  omega

/-- No accepted call is sound, with either circuit: whatever the proof, the words of its Groth16
calls leave the operations open. -/
theorem accepted_not_soundCall {gnark : Gnark} (hgnark : gnark.Lawful) (config : ECCircuitConfig)
    (c : Contract) (contracts : HybridContracts) (args : HybridArgs) {ec : ECVerifierConfig}
    (hec : contracts.ecVerifiers args.circuitHash = some ec) :
    (KnowledgeSound (ecBatchCircuit gnark config) ec.verifier → ∀ ecGroth16Proof run,
      verifyDAGProofStylusGroth16 c contracts args ecGroth16Proof = .ok (some run) →
        ¬SoundCall c args (ecBatchCircuit gnark config) [run.inputs]) ∧
    (KnowledgeSound (chunkedECBatchCircuit gnark config) ec.verifier →
      ∀ ecGroth16Proofs totalChunks opsDigest run,
        verifyDAGProofStylusGroth16Chunked c contracts args ecGroth16Proofs totalChunks opsDigest =
          .ok (some run) →
        ¬SoundCall c args (chunkedECBatchCircuit gnark config) run.chunkInputs) := by
  constructor
  · intro hsound ecGroth16Proof run hrun
    obtain ⟨_, ec', -, -, -, hec', -, hverify⟩ := hybrid_eq_ok_some.mp hrun
    obtain rfl := Option.some.inj (hec.symm.trans hec')
    refine not_soundCall ?_ fun words ops => ecBatchCircuit_honestOps hgnark
    intro words hwords
    obtain rfl := List.mem_singleton.mp hwords
    exact hsound _ _ _ hverify
  · intro hsound ecGroth16Proofs totalChunks opsDigest run hrun
    obtain ⟨_, ec', -, -, -, hec', hchunks⟩ := chunked_eq_ok_some.mp hrun
    obtain rfl := Option.some.inj (hec.symm.trans hec')
    refine not_soundCall ?_ fun words ops => chunkedECBatchCircuit_honestOps hgnark
    intro words hwords
    obtain ⟨i, hi⟩ := List.getElem?_of_mem hwords
    obtain ⟨hlt, rfl⟩ := List.getElem?_eq_some_iff.mp hi
    obtain ⟨hlen, hget⟩ :=
      List.forall₂_iff_get.mp (chunksVerified_of_verifyAllChunks hchunks).verified
    exact hsound _ _ _ (hget i (hlen ▸ hlt) hlt).1

/-! ## A proof that fails its dot-product check -/

/-- The gadgets by the arithmetic of the curve. -/
def curveGnark (mimc : List ℕ → ℕ) : Gnark where
  mimc := mimc
  multiScalarMul := fun points scalars => (points.zip scalars).foldl
    (fun acc ps => ecAdd acc (ecMul ps.1 (ps.2 % FR_MOD))) G1Point.INFINITY
  addUnified := ecAdd

theorem curveGnark_lawful (mimc : List ℕ → ℕ) : (curveGnark mimc).Lawful where
  multiScalarMul := by
    intro terms
    have hfold : ∀ (terms : List (G1 × ℕ)) (P : G1),
        ((terms.map fun t => encode t.1).zip (terms.map Prod.snd)).foldl
          (fun acc ps => ecAdd acc (ecMul ps.1 (ps.2 % FR_MOD))) (encode P) =
        encode (P + (terms.map fun t => t.2 • t.1).sum) := by
      intro terms
      induction terms with
      | nil => simp
      | cons t terms ih =>
        intro P
        have hlt : t.2 % FR_MOD < WORD :=
          (Nat.mod_lt _ FR_MOD_prime.pos).trans FR_MOD_lt_word
        rw [List.map_cons, List.map_cons, List.zip_cons_cons, List.foldl_cons, ecMul_encode _ hlt,
          nsmul_mod, ecAdd_encode, ih, List.map_cons, List.sum_cons, add_assoc]
    have h := hfold terms 0
    rwa [zero_add] at h
  addUnified := ecAdd_encode

/-- The verifier of the circuit for one multiplication, whose statements of three words are all
true. -/
def oneMulVerifier : ECVerifierConfig where
  verifier := fun n proof inputs => n == 3 && proof.length == 8 && inputs.length == 3
  inputCount := 3

theorem oneMulVerifier_sound (mimc : List ℕ → ℕ) :
    KnowledgeSound (ecBatchCircuit (curveGnark mimc) ⟨1, 0⟩) oneMulVerifier.verifier := by
  intro n proof words h
  simp only [oneMulVerifier, Bool.and_eq_true, beq_iff_eq] at h
  obtain ⟨digest, lo, hi, rfl⟩ := List.length_eq_three.mp h.2
  exact ⟨honestOps ⟨1, 0⟩ 2, digest, lo, hi, rfl,
    batchHolds_honestOps (curveGnark_lawful mimc) [digest] 2⟩

theorem noOpsVerifier_sound (mimc : List ℕ → ℕ) :
    KnowledgeSound (chunkedECBatchCircuit (curveGnark mimc) ⟨0, 0⟩) noOpsVerifier.verifier := by
  intro n proof words h
  simp only [noOpsVerifier, Bool.and_eq_true, beq_iff_eq] at h
  match words, h.2 with
  | [digest, lo, hi, opsDigest, chunkIndex, totalChunks], _ =>
    exact ⟨honestOps ⟨0, 0⟩ 2, digest, lo, hi, opsDigest, chunkIndex, totalChunks, rfl,
      fun hne => absurd rfl hne,
      batchHolds_honestOps (curveGnark_lawful mimc) [opsDigest, chunkIndex] 2⟩

private theorem oneMul_accepted :
    ∃ run, verifyDAGProofStylusGroth16 (Contract.single zeroRoundConfig)
      (stylusContracts oneMulVerifier) stylusArgs (List.replicate 8 0) = .ok (some run) := by
  obtain ⟨result, hstylus, hsuccess⟩ := hybridStylusStep_stylusArgs oneMulVerifier
  have hinputs : buildGroth16Inputs result.transcriptDigest 1 result.frOutputs 3 =
      .ok [result.transcriptDigest % FR_MOD, (hashToFqPair (wordToBeBytes 1)).1,
        (hashToFqPair (wordToBeBytes 1)).2] := by
    have htotal : (if 0 < 3 ∧ 3 ≠ 3 + result.frOutputs.length / 32 then 3
        else 3 + result.frOutputs.length / 32) = 3 := by
      split <;> omega
    simp only [buildGroth16Inputs, htotal]
    by_cases hnone : result.frOutputs.length / 32 = 0
    · rw [hnone]
      rfl
    · rw [if_pos (by omega)]
      rfl
  exact ⟨⟨result, _⟩, hybrid_eq_ok_some.mpr ⟨zeroRoundConfig, oneMulVerifier,
    checkHybridCall_stylusArgs, hstylus, hsuccess, rfl, hinputs, rfl⟩⟩

/-- The calls with the circuit for one multiplication and with a chunk without operations. -/
theorem sample_not_soundCall :
    (∃ run, verifyDAGProofStylusGroth16 (Contract.single zeroRoundConfig)
        (stylusContracts oneMulVerifier) stylusArgs (List.replicate 8 0) = .ok (some run) ∧
      ∀ mimc, ¬SoundCall (Contract.single zeroRoundConfig) stylusArgs
        (ecBatchCircuit (curveGnark mimc) ⟨1, 0⟩) [run.inputs]) ∧
    ∃ run, verifyDAGProofStylusGroth16Chunked (Contract.single zeroRoundConfig)
        (stylusContracts noOpsVerifier) stylusArgs [List.replicate 8 0] 1 0 = .ok (some run) ∧
      ∀ mimc, ¬SoundCall (Contract.single zeroRoundConfig) stylusArgs
        (chunkedECBatchCircuit (curveGnark mimc) ⟨0, 0⟩) run.chunkInputs := by
  obtain ⟨run, hrun⟩ := oneMul_accepted
  obtain ⟨_, chunked, -, hchunked⟩ := chunked_stylusArgs fun _ => 0
  refine ⟨⟨run, hrun, fun mimc => ?_⟩, chunked, hchunked, fun mimc => ?_⟩
  · exact (accepted_not_soundCall (curveGnark_lawful mimc) ⟨1, 0⟩ _ _ stylusArgs rfl).1
      (oneMulVerifier_sound mimc) _ run hrun
  · exact (accepted_not_soundCall (curveGnark_lawful mimc) ⟨0, 0⟩ _ _ stylusArgs rfl).2
      (noOpsVerifier_sound mimc) _ _ _ chunked hchunked

/-- The call is accepted, with a verifier that is sound for its circuit, and the full verification
rejects the same proof. -/
theorem oneMul_accepted_not_verified :
    (∃ run, verifyDAGProofStylusGroth16 (Contract.single zeroRoundConfig)
        (stylusContracts oneMulVerifier) stylusArgs (List.replicate 8 0) = .ok (some run)) ∧
      (∀ mimc, (curveGnark mimc).Lawful ∧
        KnowledgeSound (ecBatchCircuit (curveGnark mimc) ⟨1, 0⟩) oneMulVerifier.verifier) ∧
      verifyDAGProof (Contract.single zeroRoundConfig) stylusArgs.proof stylusArgs.circuitHash
        stylusArgs.publicInputs stylusArgs.gensData ≠ .ok true := by
  have hdecoded : decodeProofForDag (calldataReader (stylusArgs.proof.drop 4)) =
      .ok (zeroRoundProof ⟨1, 2⟩) := by
    have hdrop : stylusArgs.proof.drop 4 = stylusBody.flatMap wordToBeBytes := rfl
    rw [hdrop, calldataReader_flatMap_wordToBeBytes (by decide)]
    decide
  exact ⟨oneMul_accepted, fun mimc => ⟨curveGnark_lawful mimc, oneMulVerifier_sound mimc⟩,
    verifyDAGProof_zeroRound_generator hdecoded⟩

end WorldZk.EcBatchCircuits
