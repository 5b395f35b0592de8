import WorldZk.FlatDescription
import WorldZk.HybridSoundness
import WorldZk.StylusHybrid

/-!
# What the chunk proofs are verified against

`verifyHybridChunked` computes the digest of the operations from the outputs of the Stylus call.
`RemainderVerifier.verifyDAGProofStylusGroth16Chunked` takes it from its caller, so the chunk
proofs are those of this proof's operations exactly where the caller passes the right digest and
the words have a place for it.
-/

namespace WorldZk.ChunkBinding

open CheckedRuns Bn254Moduli ProofTypes ProofDecoding Transcript PoseidonSponge FieldArithmetic
open SolidityVerifier StylusVerifier FlatDescription DescriptionShape Groth16Layout HybridSoundness
open HybridReplay StylusHybrid

variable {c : Contract} {contracts : HybridContracts} {args : HybridArgs}
variable {ec : ECVerifierConfig} {ecGroth16Proofs : List (List ℕ)} {totalChunks opsDigest : ℕ}
variable {run : ChunkedRun}

/-- The place of the digest in the words of a chunk. -/
def OPS_DIGEST_INDEX : ℕ := 5

/-- The proof is accepted only for words that hold the digest `d`. -/
def MadeFor (ec : ECVerifierConfig) (d : ℕ) (chunkProof : List ℕ) : Prop :=
  ∀ words, ec.verifier ec.inputCount chunkProof words = true → words[OPS_DIGEST_INDEX]? = some d

/-- Every chunk proof is verified against the digest of the outputs that the Stylus verifier
returned, so that proofs made for another digest are not accepted. -/
structure ChunksBound (ec : ECVerifierConfig) (ecGroth16Proofs : List (List ℕ))
    (run : ChunkedRun) : Prop where
  digest : ∀ words ∈ run.chunkInputs,
    words[OPS_DIGEST_INDEX]? = some (opsDigestOf run.stylus.frOutputs)
  own : ∀ d, (∀ chunkProof ∈ ecGroth16Proofs, MadeFor ec d chunkProof) →
    d = opsDigestOf run.stylus.frOutputs

/-! ## One chunk -/

theorem verifyChunk_eq_ok {st : ChunkStatement} {chunkProof words : List ℕ} :
    verifyChunk ec st chunkProof = .ok words ↔ chunkProof.length = 8 ∧
      buildChunkedGroth16Inputs st ec.inputCount = .ok words ∧
      ec.verifier ec.inputCount chunkProof words = true := by
  simp only [verifyChunk, callGroth16Verifier, bind_eq_ok, require_eq_ok, liftCall_eq_ok,
    pure_eq_ok, beq_iff_eq]
  constructor
  · rintro ⟨-, hlen, inputs, hinputs, -, hverify, rfl⟩
    exact ⟨hlen, hinputs, hverify⟩
  · rintro ⟨hlen, hinputs, hverify⟩
    exact ⟨(), hlen, words, hinputs, (), hverify, rfl⟩

/-- The digest stands at its place unless the verifier takes five words. -/
theorem opsDigest_of_buildChunkedGroth16Inputs {st : ChunkStatement} {expectedCount : ℕ}
    {words : List ℕ} (h : buildChunkedGroth16Inputs st expectedCount = .ok words) :
    words[OPS_DIGEST_INDEX]? = if expectedCount = 5 then none else some st.opsDigest := by
  simp only [buildChunkedGroth16Inputs, bind_eq_ok, pure_eq_ok, require_eq_ok,
    decide_eq_true_eq] at h
  obtain ⟨-, hfive, rfl⟩ := h
  by_cases hcount : expectedCount = 5
  · subst hcount
    rfl
  · have hsix : 5 < if 0 < expectedCount ∧ expectedCount ≠ 6 then expectedCount else 6 := by
      split at hfive
      · rename_i h
        rw [if_pos h]
        omega
      · rename_i h
        rw [if_neg h]
        decide
    rw [if_neg hcount, if_pos hsix]
    rfl

/-! ## All chunks -/

/-- The chunks of an accepted call: there is at least one, and each proof was verified against
words that hold the caller's digest. -/
structure ChunksVerified (ec : ECVerifierConfig) (ecGroth16Proofs : List (List ℕ))
    (opsDigest : ℕ) (chunkInputs : List (List ℕ)) : Prop where
  verified : List.Forall₂ (fun chunkProof words =>
    ec.verifier ec.inputCount chunkProof words = true ∧ words[OPS_DIGEST_INDEX]? =
      if ec.inputCount = 5 then none else some opsDigest) ecGroth16Proofs chunkInputs
  nonempty : ecGroth16Proofs ≠ []

theorem chunksVerified_of_verifyAllChunks {transcriptDigest circuitHash : ℕ}
    {chunkInputs : List (List ℕ)}
    (h : verifyAllChunks ec transcriptDigest circuitHash ecGroth16Proofs totalChunks opsDigest =
      .ok chunkInputs) : ChunksVerified ec ecGroth16Proofs opsDigest chunkInputs := by
  simp only [verifyAllChunks, bind_eq_ok, require_eq_ok, bne_iff_ne, beq_iff_eq, mapM_eq_ok] at h
  obtain ⟨-, hpos, -, hlen, hall⟩ := h
  constructor
  · have hchunks := hall.imp fun pi words hwords => by
      obtain ⟨-, hinputs, hverify⟩ := verifyChunk_eq_ok.mp hwords
      exact (⟨hverify, opsDigest_of_buildChunkedGroth16Inputs hinputs⟩ :
        ec.verifier ec.inputCount pi.1 words = true ∧ words[OPS_DIGEST_INDEX]? =
          if ec.inputCount = 5 then none else some opsDigest)
    have hmap : ecGroth16Proofs = ecGroth16Proofs.zipIdx.map Prod.fst := by
      rw [List.zipIdx_map_fst]
    rw [hmap, List.forall₂_map_left_iff]
    exact hchunks
  · rintro rfl
    exact hpos hlen.symm

theorem ChunksVerified.bound_iff (h : ChunksVerified ec ecGroth16Proofs opsDigest run.chunkInputs) :
    ChunksBound ec ecGroth16Proofs run ↔
      ec.inputCount ≠ 5 ∧ opsDigest = opsDigestOf run.stylus.frOutputs := by
  obtain ⟨hall, hne⟩ := h
  obtain ⟨first, rest, rfl⟩ := List.exists_cons_of_ne_nil hne
  obtain ⟨words, others, ⟨hverify, hword⟩, hrest, hinputs⟩ := List.forall₂_cons_left_iff.mp hall
  constructor
  · intro hbound
    have hdigest := hbound.digest words (hinputs ▸ List.mem_cons_self)
    rw [hword] at hdigest
    by_cases hfive : ec.inputCount = 5
    · rw [if_pos hfive] at hdigest
      cases hdigest
    · rw [if_neg hfive] at hdigest
      exact ⟨hfive, Option.some.inj hdigest⟩
  · rintro ⟨hfive, rfl⟩
    constructor
    · intro words' hwords'
      obtain ⟨i, hi⟩ := List.getElem?_of_mem hwords'
      obtain ⟨hlen, hget⟩ := List.forall₂_iff_get.mp hall
      obtain ⟨hlt, rfl⟩ := List.getElem?_eq_some_iff.mp hi
      have := (hget i (hlen ▸ hlt) hlt).2
      rwa [if_neg hfive] at this
    · intro d hmade
      have hd := hmade first List.mem_cons_self words hverify
      rw [hword, if_neg hfive] at hd
      exact (Option.some.inj hd).symm

/-! ## The call -/

/-- The chunk proofs of an accepted call are bound to the outputs of its Stylus call exactly when
the caller passes the digest of these outputs and the EC verifier does not take five words. -/
theorem chunksBound_iff
    (h : verifyDAGProofStylusGroth16Chunked c contracts args ecGroth16Proofs totalChunks opsDigest =
      .ok (some run)) :
    (∀ ec, contracts.ecVerifiers args.circuitHash = some ec → ChunksBound ec ecGroth16Proofs run) ↔
      ∃ config ec result, c.dagCircuits args.circuitHash = some config ∧
        contracts.ecVerifiers args.circuitHash = some ec ∧
        hybridStylusStep contracts config args = .ok result ∧ ec.inputCount ≠ 5 ∧
        opsDigest = opsDigestOf result.frOutputs := by
  obtain ⟨config, ec, hcheck, hstylus, -, hec, hchunks⟩ := chunked_eq_ok_some.mp h
  have hbound := (chunksVerified_of_verifyAllChunks hchunks).bound_iff
  simp only [checkHybridCall, bind_eq_ok, pure_eq_ok] at hcheck
  obtain ⟨-, -, _, hactive, -, -, -, -, rfl⟩ := hcheck
  obtain ⟨hconfig, -⟩ := activeCircuit_eq_ok.mp hactive
  constructor
  · intro hall
    obtain ⟨hfive, hdigest⟩ := hbound.mp (hall ec hec)
    exact ⟨_, ec, run.stylus, hconfig, hec, hstylus, hfive, hdigest⟩
  · rintro ⟨config', ec', result, hconfig', hec', hstylus', hfive, hdigest⟩ ec'' hec''
    obtain rfl := Option.some.inj (hconfig.symm.trans hconfig')
    obtain rfl := Option.some.inj (hec.symm.trans hec')
    obtain rfl := Option.some.inj (hec.symm.trans hec'')
    obtain rfl := Except.ok.inj (hstylus.symm.trans hstylus')
    exact hbound.mpr ⟨hfive, hdigest⟩

/-! ## A call for a layer without rounds -/

/-- The proof of `zeroRoundBytes` with a generator as the mask, and the registered hash in
front. -/
def stylusBody : List ℕ := 1 :: (zeroRoundWords ⟨1, 2⟩).tail

def stylusArgs : HybridArgs where
  proof := SELECTOR ++ stylusBody.flatMap wordToBeBytes
  circuitHash := 1
  publicInputs := []
  gensData := []

/-- The verifier of a chunk circuit without operations, whose statements are all true. -/
def noOpsVerifier : ECVerifierConfig where
  verifier := fun n proof inputs => n == 6 && proof.length == 8 && inputs.length == 6
  inputCount := 6

/-- The Stylus verifier of the repository, with an EC verifier. -/
def stylusContracts (ec : ECVerifierConfig) : HybridContracts where
  stylusVerifiers := fun _ => some gkrVerifierHybrid
  ecVerifiers := fun _ => some ec

theorem checkHybridCall_stylusArgs :
    checkHybridCall (Contract.single zeroRoundConfig) stylusArgs = .ok zeroRoundConfig := by
  have hactive : activeCircuit (Contract.single zeroRoundConfig) 1 = .ok zeroRoundConfig :=
    activeCircuit_single rfl
  simp only [checkHybridCall, bind_eq_ok, require_eq_ok, pure_eq_ok]
  exact ⟨(), rfl, zeroRoundConfig, hactive, (), checkProofFormat_selector _, (), rfl, rfl⟩

private theorem decode_zeroRoundDesc :
    (decodeCircuitDescription (decoderReader (encodeFlatCircuitDesc zeroRoundConfig.description))
        (readUsizeFrom (encodeFlatCircuitDesc zeroRoundConfig.description)) (· % 2 ^ 64)).run 0 =
      .ok (zeroRoundConfig.description,
        (encodeFlatCircuitDesc zeroRoundConfig.description).length) := by
  refine (decode_decoderReader_iff
    (lengthsChecked_of_checkDescription zeroRoundConfig.checked) zeroRoundConfig.abi).mpr ?_
  exact ⟨by decide, by decide, by decide, by decide⟩

private theorem decode_stylusBody :
    decodeProofForDag (decoderReader (stylusBody.flatMap wordToBeBytes)) =
      .ok (zeroRoundProof ⟨1, 2⟩) := by
  rw [decoderReader_flatMap_wordToBeBytes (by decide)]
  decide

private theorem hybridPhases_stylusBody :
    okAnd (hybridPhases stylusBackend (zeroRoundProof ⟨1, 2⟩) zeroRoundConfig.description
      (ZkmlVerifier.proofTranscript (wordToBeBytes 1) (zeroRoundProof ⟨1, 2⟩)))
        (fun _ => true) = true := by
  have hsetup : ZkmlVerifier.proofTranscript (wordToBeBytes 1) (zeroRoundProof ⟨1, 2⟩) =
      absorbPair rustOps (absorbPair rustOps (absorbPair rustOps init
        (hashToFqPair (wordToBeBytes 1))) (sha256HashChain [])) (sha256HashChain []) :=
    setupTranscript_nil rustOps (wordToBeBytes 1)
  rw [hsetup, sha256HashChain_nil]
  decide +kernel

theorem hybridStylusStep_stylusArgs (ec : ECVerifierConfig) :
    ∃ result, hybridStylusStep (stylusContracts ec) zeroRoundConfig stylusArgs = .ok result ∧
      result.success = true := by
  obtain ⟨⟨outputs, digest⟩, hphases, -⟩ := okAnd_eq_true.mp hybridPhases_stylusBody
  have hrun : verifyDagProofHybrid stylusArgs.proof [] []
      (encodeFlatCircuitDesc zeroRoundConfig.description) =
        .ok ⟨true, digest, encodeHybridFrOutputs outputs⟩ := by
    refine verifyDagProofHybrid_eq_ok.mpr ⟨?_, zeroRoundProof ⟨1, 2⟩, _, _, outputs, digest,
      decode_stylusBody, rfl, decode_zeroRoundDesc, hphases, rfl⟩
    rw [length_flatMap_wordToBeBytes]
    exact Nat.le_mul_of_pos_right 32 (by simp [stylusBody])
  refine ⟨⟨true, digest, encodeHybridFrOutputs outputs⟩, ?_, rfl⟩
  simp only [hybridStylusStep, stylusContracts, callStylusHybrid, gkrVerifierHybrid]
  rw [show verifyDagProofHybrid stylusArgs.proof stylusArgs.publicInputs stylusArgs.gensData
    (encodeFlatCircuitDesc zeroRoundConfig.description) = _ from hrun]
  rfl

/-- One chunk proof, with any digest. -/
theorem chunked_stylusArgs (digest : HybridResult → ℕ) :
    ∃ result run, hybridStylusStep (stylusContracts noOpsVerifier) zeroRoundConfig stylusArgs =
        .ok result ∧
      verifyDAGProofStylusGroth16Chunked (Contract.single zeroRoundConfig)
        (stylusContracts noOpsVerifier) stylusArgs [List.replicate 8 0] 1 (digest result) =
          .ok (some run) := by
  obtain ⟨result, hstylus, hsuccess⟩ := hybridStylusStep_stylusArgs noOpsVerifier
  have hchunks : verifyAllChunks noOpsVerifier result.transcriptDigest 1 [List.replicate 8 0] 1
      (digest result) = .ok [[result.transcriptDigest % FR_MOD,
        (hashToFqPair (wordToBeBytes 1)).1, (hashToFqPair (wordToBeBytes 1)).2, 0, 1,
        digest result]] := rfl
  exact ⟨result, ⟨result, _⟩, hstylus, chunked_eq_ok_some.mpr ⟨zeroRoundConfig, noOpsVerifier,
    checkHybridCall_stylusArgs, hstylus, hsuccess, rfl, hchunks⟩⟩

/-- A caller that passes the digest of the outputs. -/
theorem chunks_bound_by_right_digest :
    ∃ opsDigest run, verifyDAGProofStylusGroth16Chunked (Contract.single zeroRoundConfig)
        (stylusContracts noOpsVerifier) stylusArgs [List.replicate 8 0] 1 opsDigest =
          .ok (some run) ∧
      ChunksBound noOpsVerifier [List.replicate 8 0] run := by
  obtain ⟨result, run, hstylus, hrun⟩ := chunked_stylusArgs fun result =>
    opsDigestOf result.frOutputs
  refine ⟨_, run, hrun, (chunksBound_iff hrun).mpr ?_ noOpsVerifier rfl⟩
  exact ⟨zeroRoundConfig, noOpsVerifier, result, rfl, rfl, hstylus, by decide, rfl⟩

/-- A caller that passes another digest is accepted as well. -/
theorem chunks_unbound_by_wrong_digest :
    ∃ result run, hybridStylusStep (stylusContracts noOpsVerifier) zeroRoundConfig stylusArgs =
        .ok result ∧
      verifyDAGProofStylusGroth16Chunked (Contract.single zeroRoundConfig)
        (stylusContracts noOpsVerifier) stylusArgs [List.replicate 8 0] 1
          (opsDigestOf result.frOutputs + 1) = .ok (some run) ∧
      ¬ChunksBound noOpsVerifier [List.replicate 8 0] run := by
  obtain ⟨result, run, hstylus, hrun⟩ := chunked_stylusArgs fun result =>
    opsDigestOf result.frOutputs + 1
  refine ⟨result, run, hstylus, hrun, fun hbound => ?_⟩
  obtain ⟨config, ec, hcheck, hstylus', -, hec, hchunks⟩ := chunked_eq_ok_some.mp hrun
  obtain rfl : noOpsVerifier = ec := Option.some.inj hec
  obtain ⟨-, hdigest⟩ := (chunksVerified_of_verifyAllChunks hchunks).bound_iff.mp hbound
  obtain rfl : zeroRoundConfig = config :=
    Except.ok.inj ((checkHybridCall_stylusArgs).symm.trans hcheck)
  obtain rfl : result = run.stylus := Except.ok.inj (hstylus.symm.trans hstylus')
  omega

end WorldZk.ChunkBinding
