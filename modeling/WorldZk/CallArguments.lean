import WorldZk.BatchSoundness
import WorldZk.HybridVerifier
import WorldZk.StylusVerifier

/-!
# What the arguments of a call are bound to

The verifier calls take generators and public inputs beside the proof. This module settles to what
an accepted call binds them.
-/

namespace WorldZk.CallArguments

open CheckedRuns PoseidonSponge ProofTypes VerifierBackend DagLayers InputLayers ProofDecoding
open Transcript Keccak256 SolidityVerifier HybridVerifier StylusVerifier BatchSessions BatchSoundness

/-! ## Generators -/

/-- A call that is accepted for a circuit with a generator hash used generators of that hash,
unless it passed none. -/
theorem generators_pinned_iff {c : Contract} {proof publicInputs gensData : List UInt8}
    {circuitHash : ℕ} {config : DAGCircuitConfig}
    (hconfig : c.dagCircuits circuitHash = some config) (hhash : config.gensHash ≠ 0)
    (h : verifyDAGProof c proof circuitHash publicInputs gensData = .ok true) :
    keccak256 gensData = config.gensHash ↔ gensData ≠ [] ∨ keccak256 [] = config.gensHash := by
  obtain ⟨-, -, config', _, _, _, hactive, -, hgenerators, -⟩ := verifyDAGProof_eq_ok.mp h
  obtain rfl : config = config' :=
    Option.some.inj (hconfig.symm.trans (activeCircuit_eq_ok.mp hactive).1)
  simp only [checkGenerators, require_eq_ok, Bool.or_eq_true, beq_iff_eq,
    List.isEmpty_iff] at hgenerators
  constructor
  · intro hkeccak
    by_cases hempty : gensData = []
    · exact .inr (hempty ▸ hkeccak)
    · exact .inl hempty
  · rintro (hne | hkeccak)
    · rcases hgenerators with (hzero | hempty) | hkeccak
      · exact absurd hzero hhash
      · exact absurd hempty hne
      · exact hkeccak
    · rcases hgenerators with (hzero | hempty) | hkeccak'
      · exact absurd hzero hhash
      · rw [hempty, hkeccak]
      · exact hkeccak'

private theorem decodePedersenGens_plain :
    decodePedersenGens (calldataReader plainGensData) =
      .ok ⟨[], G1Point.INFINITY, G1Point.INFINITY⟩ := by
  rw [plainGensData, calldataReader_flatMap_wordToBeBytes (by decide)]
  decide

/-- A call with the registered generators. -/
theorem plain_generators_pinned :
    verifyDAGProof (Contract.single plainConfig) (plainPayload plainGensData).proof 1 []
      plainGensData = .ok true ∧ keccak256 plainGensData = plainConfig.gensHash := by
  have hverify := @verifyDAGProof_plain plainGensData (by simp [checkGenerators, plainConfig])
    decodePedersenGens_plain
  refine ⟨hverify, ?_⟩
  have hconfig : (Contract.single plainConfig).dagCircuits 1 = some plainConfig := rfl
  exact (generators_pinned_iff hconfig plain_gensHash.1 hverify).mpr (.inl (by decide))

/-- A call without generators is accepted for a circuit that has a generator hash. -/
theorem plain_generators_free :
    plainConfig.gensHash ≠ 0 ∧
      verifyDAGProof (Contract.single plainConfig) (plainPayload []).proof 1 [] [] = .ok true ∧
      keccak256 [] ≠ plainConfig.gensHash :=
  ⟨plain_gensHash.1, verifyDAGProof_plain (by simp [checkGenerators]) (by decide),
    plain_gensHash.2⟩

/-! ## Public inputs -/

/-- `_decodePublicInputs`: the whole words of the argument. Every entry point decodes its argument
so and drops the result. -/
def decodePublicInputs (publicInputBytes : List UInt8) : List ℕ :=
  (List.range (publicInputBytes.length / 32)).map fun i =>
    beValue ((publicInputBytes.drop (i * 32)).take 32)

/-- Every claim on a public input that the scan over the layers finds has a public value claim,
whose value is the evaluation of `values` at the point of the claim. -/
def EvaluatedOn (b : Backend) (values : List ℕ) (desc : DAGCircuitDescription)
    (allBindings : List (List ℕ)) (claims : List PublicValueClaim) : Prop :=
  ∀ i < desc.numInputLayers, desc.inputIsCommitted[i]? = some false →
    ∃ atoms claimPoints start, routedAtoms desc (desc.numComputeLayers + i) desc.numComputeLayers =
        .ok atoms ∧
      collectClaimPoints b desc allBindings (desc.numComputeLayers + i) = .ok claimPoints ∧
      ∀ k < atoms.length, ∃ point claim, claimPoints[k]? = some point ∧
        claims[start + k]? = some claim ∧ evaluateMleFromData b values point = .ok claim.value

private theorem evaluatedOn_of_verifyInputLayers {b : Backend} {proof : GKRProof}
    {desc : DAGCircuitDescription} {gens : PedersenGens} {allBindings : List (List ℕ)}
    {input : InputData} {s : Sponge} {st : InputState}
    (h : verifyInputLayers b proof desc gens allBindings input s = .ok st) :
    EvaluatedOn b input.publicInputs desc allBindings input.publicValueClaims := by
  intro i hi hpublic
  obtain ⟨st₁, st₂, hstep⟩ := foldlM_steps h i (List.mem_range.mpr hi)
  obtain ⟨claimPoints, hpoints, ⟨hcommitted, -⟩ | ⟨-, next, hclaims, -⟩⟩ :=
    (verifyInputLayer_eq_ok b).mp hstep
  · rw [hpublic] at hcommitted
    cases hcommitted
  simp only [verifyPublicInputClaims, bind_eq_ok] at hclaims
  obtain ⟨atoms, hatoms, _, hall, -⟩ := hclaims
  refine ⟨atoms, claimPoints, st₁.pubClaimIdx, hatoms, hpoints, ?_⟩
  intro k hk
  have hmem : (atoms[k], k) ∈ atoms.zipIdx := by
    rw [List.mem_iff_getElem]
    exact ⟨k, by simpa using hk, by simp⟩
  have hclaim := forM_eq_ok.mp hall _ hmem
  simp only [verifyOnePublicClaim, bind_eq_ok, getIdx_eq_ok, require_eq_ok, beq_iff_eq] at hclaim
  obtain ⟨point, hpoint, _, -, _, -, claim, hget, _, -, _, -, _, -, _, -, _, -, value, hvalue,
    heq⟩ := hclaim
  exact ⟨point, claim, hpoint, hget, heq ▸ hvalue⟩

/-- The same call with the public inputs that `f` gives it. -/
def withPublicInputs (f : BatchCall → List UInt8) : BatchCall → BatchCall
  | .startCall sender blockNum circuitHash p =>
    .startCall sender blockNum circuitHash
      { p with publicInputs := f (.startCall sender blockNum circuitHash p) }
  | .continueCall sender sessionId p =>
    .continueCall sender sessionId
      { p with publicInputs := f (.continueCall sender sessionId p) }
  | .finalizeCall sender sessionId p =>
    .finalizeCall sender sessionId
      { p with publicInputs := f (.finalizeCall sender sessionId p) }

private theorem step_withPublicInputs (f : BatchCall → List UInt8) {w w' : World}
    (h : w.contract = w'.contract) (call : BatchCall) :
    (w.step (withPublicInputs f call)).contract = (w'.step call).contract := by
  cases call with
  | startCall sender blockNum circuitHash p =>
    have hcall : startDAGBatchVerify w.contract sender blockNum p.proof circuitHash
        (f (.startCall sender blockNum circuitHash p)) p.gensData =
        startDAGBatchVerify w'.contract sender blockNum p.proof circuitHash p.publicInputs
          p.gensData := by
      rw [h]
      rfl
    simp only [withPublicInputs, World.step, hcall]
    split
    · rfl
    · exact h
  | continueCall sender sessionId p =>
    have hcall : continueDAGBatchVerify w.contract sender sessionId p.proof
        (f (.continueCall sender sessionId p)) p.gensData =
        continueDAGBatchVerify w'.contract sender sessionId p.proof p.publicInputs p.gensData := by
      rw [h]
      rfl
    simp only [withPublicInputs, World.step, hcall]
    split
    · rfl
    · exact h
  | finalizeCall sender sessionId p =>
    have hcall : finalizeDAGBatchVerify w.contract sender sessionId p.proof
        (f (.finalizeCall sender sessionId p)) p.gensData =
        finalizeDAGBatchVerify w'.contract sender sessionId p.proof p.publicInputs p.gensData := by
      rw [h]
      rfl
    simp only [withPublicInputs, World.step, hcall]
    split
    · rfl
    · exact h

theorem run_withPublicInputs (f : BatchCall → List UInt8) {w w' : World}
    (h : w.contract = w'.contract) (calls : List BatchCall) :
    (w.run (calls.map (withPublicInputs f))).contract = (w'.run calls).contract := by
  induction calls generalizing w w' with
  | nil => exact h
  | cons call calls ih => exact ih (step_withPublicInputs f h call)

/-- The circuits in `configured` have the `gkr-verifier` as their Stylus verifier. -/
def gkrVerifiers (configured : ℕ → Bool) (circuitHash : ℕ) : Option StylusContract :=
  if configured circuitHash then some gkrVerifier else none

/-- The public inputs of a call decide nothing: every entry point gives the same result with any
others, and so does every run of a session. What an accepted proof was checked on, in its
transcript and at the claims on its public inputs, are the values embedded in it. -/
theorem publicInputs_of_proof (c : Contract) (groth16Verifiers : ℕ → Option Groth16Verifier)
    (configured : ℕ → Bool) (proof gensData : List UInt8) (circuitHash : ℕ)
    (groth16Proof groth16Outputs : List ℕ) (P₁ P₂ : List UInt8) :
    verifyDAGProof c proof circuitHash P₁ gensData =
      verifyDAGProof c proof circuitHash P₂ gensData ∧
    verifyDAGWithGroth16 c groth16Verifiers proof circuitHash P₁ gensData groth16Proof
        groth16Outputs =
      verifyDAGWithGroth16 c groth16Verifiers proof circuitHash P₂ gensData groth16Proof
        groth16Outputs ∧
    verifyDAGProofStylus c (gkrVerifiers configured) proof circuitHash P₁ gensData =
      verifyDAGProofStylus c (gkrVerifiers configured) proof circuitHash P₂ gensData ∧
    (∀ f calls, ((World.init c).run (calls.map (withPublicInputs f))).contract =
      ((World.init c).run calls).contract) ∧
    (verifyDAGProof c proof circuitHash P₁ gensData = .ok true →
      ∃ config decoded gens layers ctx st, activeCircuit c circuitHash = .ok config ∧
        decodeProofForDag (calldataReader (proof.drop 4)) = .ok decoded ∧
        SolidityVerifier.verifyPhases decoded config.description gens
          (setupTranscript solOps (wordToBeBytes circuitHash) decoded.embeddedPubInputs
            (inputCommitCoords decoded.dagInputProofs)) = .ok (layers, ctx, st) ∧
        EvaluatedOn solBackend decoded.embeddedPubInputs config.description ctx.allBindings
          decoded.publicValueClaims) := by
  refine ⟨rfl, rfl, ?_, fun f calls => run_withPublicInputs f rfl calls, ?_⟩
  · unfold verifyDAGProofStylus gkrVerifiers
    cases configured circuitHash with
    | false => rfl
    | true => rfl
  · intro h
    obtain ⟨-, -, config, decoded, gens, ⟨layers, ctx, st⟩, hconfig, -, -, hdecoded, -, hrun⟩ :=
      verifyDAGProof_eq_ok.mp h
    refine ⟨config, decoded, gens, layers, ctx, st, hconfig, hdecoded, hrun, ?_⟩
    simp only [SolidityVerifier.verifyPhases, bind_eq_ok, pure_eq_ok, Prod.mk.injEq] at hrun
    obtain ⟨⟨_, _, s⟩, -, _, hinputs, rfl, rfl, rfl⟩ := hrun
    exact evaluatedOn_of_verifyInputLayers hinputs

/-- One proof is accepted with no public inputs and with a public input of one. -/
theorem plain_publicInputs_free :
    verifyDAGProof (Contract.single plainConfig) (plainPayload []).proof 1 [] [] = .ok true ∧
      verifyDAGProof (Contract.single plainConfig) (plainPayload []).proof 1 (wordToBeBytes 1) [] =
        .ok true ∧
      decodePublicInputs [] ≠ decodePublicInputs (wordToBeBytes 1) := by
  have hverify := @verifyDAGProof_plain [] (by simp [checkGenerators]) (by decide)
  exact ⟨hverify, hverify, by decide⟩

end WorldZk.CallArguments
