import WorldZk.ClaimBinding

/-!
# The number of rounds of a layer

A layer runs one round for each message of its proof. The description's `num_sumcheck_rounds` is
decoded and never read. What the checks do fix is the number of responses in the layer's
dot-product proof, which is `degree + 1` for each round.
-/

namespace WorldZk.RoundCounts

open CheckedRuns PoseidonSponge ProofTypes VerifierBackend CommittedSumcheck DagLayers
open ProofDecoding Transcript ZkmlVerifier ClaimBinding

section Responses

variable {b : Backend}

private theorem length_jStarRow {gammaInv rho rhoNext binding k d bindingPower : ℕ}
    {row : List ℕ} (h : jStarRow b gammaInv rho rhoNext binding k d bindingPower = .ok row) :
    row.length = k := by
  induction k generalizing d bindingPower row with
  | zero =>
    rw [jStarRow, pure_eq_ok] at h
    rw [← h, List.length_nil]
  | succ k ih =>
    simp only [jStarRow, bind_eq_ok, pure_eq_ok] at h
    obtain ⟨_, -, rest, hrest, rfl⟩ := h
    rw [List.length_cons, ih hrest]

theorem length_computeJStar {rhos gammas bindings jStar : List ℕ} {degree n : ℕ}
    (h : computeJStar b rhos gammas bindings degree n = .ok jStar) :
    jStar.length = n * (degree + 1) := by
  simp only [computeJStar, bind_eq_ok, pure_eq_ok] at h
  obtain ⟨rows, hrows, rfl⟩ := h
  have hlen : rows.length = n := by
    rw [← (mapM_eq_ok.mp hrows).length_eq, List.length_range]
  have hrow : ∀ row ∈ rows, row.length = degree + 1 := by
    refine mapM_forall hrows ?_
    intro i row _ hi
    simp only [bind_eq_ok] at hi
    obtain ⟨_, -, _, -, _, -, _, -, _, -, hi⟩ := hi
    exact length_jStarRow hi
  rw [List.length_flatten, List.map_congr_left hrow, List.map_const', List.sum_replicate, hlen,
    smul_eq_mul]

theorem length_zVector_of_sumcheckHolds {sum oracleEval : G1Point}
    {proof : CommittedSumcheckProof} {degree : ℕ} {ch : LayerChallenges} {gens : PedersenGens}
    (h : sumcheckHolds b sum proof oracleEval degree ch gens = .ok true) :
    proof.podp.zVector.length = proof.messages.length * (degree + 1) := by
  simp only [sumcheckHolds, bind_eq_ok] at h
  obtain ⟨_, -, jStar, hjStar, _, -, _, -, _, -, hpodp⟩ := h
  obtain ⟨_, hrhs, -⟩ := (verifyPodp_true b).mp hpodp
  simp only [podpRhs, bind_eq_ok, require_eq_ok, beq_iff_eq] at hrhs
  obtain ⟨_, hlen, -⟩ := hrhs
  rw [hlen, length_computeJStar hjStar]

/-- In every accepted layer the responses are as many as its rounds ask for. -/
theorem processLayers_responses {proof : GKRProof} {desc : DAGCircuitDescription}
    {gens : PedersenGens} {is : List ℕ} {ctx : VerifyContext} {s : Sponge}
    {out : List LayerRun × VerifyContext × Sponge}
    (h : processLayers b proof desc gens is ctx s = .ok out) :
    ∀ i ∈ is, ∃ lp layerType, proof.layerProofs[i]? = some lp ∧
      desc.layerTypes[i]? = some layerType ∧
      lp.sumcheckProof.podp.zVector.length =
        lp.sumcheckProof.messages.length * (layerDegree layerType + 1) := by
  induction is generalizing ctx s out with
  | nil => simp
  | cons j is ih =>
    obtain ⟨run, s₁, runs, hrun, hruns, -⟩ := (processLayers_cons b).mp h
    intro i hi
    rcases List.mem_cons.mp hi with rfl | hi
    · obtain ⟨lp, hlp, haccepted, -⟩ := (processOneLayer_eq_ok b).mp hrun
      obtain ⟨layerType, htype, hsum⟩ := haccepted.sumcheck
      exact ⟨lp, layerType, hlp, htype, length_zVector_of_sumcheckHolds hsum⟩
    · exact ih hruns i hi

end Responses

/-- Every compute layer of the proof has as many messages as the description has rounds. -/
def RoundsConform (proof : GKRProof) (desc : DAGCircuitDescription) : Prop :=
  ∀ i < desc.numComputeLayers, ∃ lp, proof.layerProofs[i]? = some lp ∧
    desc.numSumcheckRounds[i]? = some lp.sumcheckProof.messages.length

/-- Every compute layer of the proof has as many responses as the description's rounds ask for. -/
def ResponsesConform (proof : GKRProof) (desc : DAGCircuitDescription) : Prop :=
  ∀ i < desc.numComputeLayers, ∃ lp layerType rounds, proof.layerProofs[i]? = some lp ∧
    desc.layerTypes[i]? = some layerType ∧ desc.numSumcheckRounds[i]? = some rounds ∧
    lp.sumcheckProof.podp.zVector.length = rounds * (layerDegree layerType + 1)

/-- An accepted proof has the rounds of the description exactly when the numbers of its responses
fit them. -/
theorem roundsConform_iff_responsesConform {proof : DecodedProof} {gens : PedersenGens}
    {desc : DAGCircuitDescription} {sponge : Sponge} {run : ZkmlRun}
    (h : runPhases proof gens desc sponge = .ok run) :
    RoundsConform proof.gkrProof desc ↔ ResponsesConform proof.gkrProof desc := by
  obtain ⟨-, -, -, -, hcompute, -⟩ := runPhases_eq_ok.mp h
  simp only [verifyComputeLayers, bind_eq_ok] at hcompute
  obtain ⟨_, -, hlayers⟩ := hcompute
  have hresponses := processLayers_responses hlayers
  constructor
  · intro hrounds i hi
    obtain ⟨lp, hlp, hround⟩ := hrounds i hi
    obtain ⟨lp', layerType, hlp', htype, hlen⟩ := hresponses i (List.mem_range.mpr hi)
    obtain rfl : lp = lp' := Option.some.inj (hlp.symm.trans hlp')
    exact ⟨lp, layerType, _, hlp, htype, hround, hlen⟩
  · intro hconform i hi
    obtain ⟨lp, layerType, rounds, hlp, htype, hround, hlen⟩ := hconform i hi
    obtain ⟨lp', layerType', hlp', htype', hlen'⟩ := hresponses i (List.mem_range.mpr hi)
    obtain rfl : lp = lp' := Option.some.inj (hlp.symm.trans hlp')
    obtain rfl : layerType = layerType' := Option.some.inj (htype.symm.trans htype')
    have hmessages : rounds = lp.sumcheckProof.messages.length :=
      Nat.eq_of_mul_eq_mul_right (Nat.succ_pos _) (hlen.symm.trans hlen')
    exact ⟨lp, hlp, hmessages ▸ hround⟩

/-- The proof without rounds has the rounds of its description. -/
theorem noRound_roundsConform :
    RoundsConform (noRoundProof G1Point.INFINITY).gkrProof noRoundDesc := by
  have haccept : okAnd (runPhases (noRoundProof G1Point.INFINITY) noGens noRoundDesc noRoundSponge)
      (fun _ => true) = true := by decide
  obtain ⟨run, hrun, -⟩ := okAnd_eq_true.mp haccept
  refine (roundsConform_iff_responsesConform hrun).mpr ?_
  intro i hi
  obtain rfl : i = 0 := by simpa [noRoundDesc] using hi
  exact ⟨_, _, _, rfl, rfl, rfl, rfl⟩

/-- The description of a layer of one round. -/
def oneRoundDesc : DAGCircuitDescription := { noRoundDesc with numSumcheckRounds := [1] }

def oneRoundDescData : List UInt8 :=
  [1, 1, 1, 0, 1, 1, 2, 0, 0, 0, 0, 1, 0, 0, 1, 0, 2, 0, 0, 0, 0].flatMap wordToBeBytes

/-- The crate accepts a proof without rounds for a description that asks for one. -/
theorem oneRound_not_conform :
    ∃ run, tryVerifyRun (noRoundProofData G1Point.INFINITY) [] oneRoundDescData = .ok run ∧
      ¬RoundsConform run.proof.gkrProof run.desc := by
  have hdesc : (decodeCircuitDescription (tryReader oneRoundDescData)
      (tryReadUsizeFrom oneRoundDescData) (· % 2 ^ 64)).run 0 = .ok (oneRoundDesc, 672) := by
    decide +kernel
  have haccept : okAnd (runPhases (noRoundProof G1Point.INFINITY) noGens oneRoundDesc noRoundSponge)
      (fun _ => true) = true := by decide
  obtain ⟨run, hrun, -⟩ := okAnd_eq_true.mp haccept
  obtain ⟨hproof, -, hdesc', -⟩ := runPhases_eq_ok.mp hrun
  refine ⟨run, by rw [tryVerifyRun_noRound G1Point.INFINITY (by decide +kernel) hdesc, hrun]; rfl, ?_⟩
  rw [hproof, hdesc']
  intro hconform
  obtain ⟨lp, hlp, hrounds⟩ := hconform 0 (by decide)
  cases hlp
  exact absurd hrounds (by decide)

end WorldZk.RoundCounts
