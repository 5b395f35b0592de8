import WorldZk.ClaimBinding
import WorldZk.FlatLayouts
import WorldZk.HybridReplay

/-!
# The hybrid verifier follows the full one

Where the full verifier accepts, the hybrid functions return, draw the same challenges, leave the
sponge in the same state and hand out the scalars of the full verifier's equations.
-/

namespace WorldZk.HybridReplay

open CheckedRuns PoseidonSponge ProofTypes VerifierBackend CommittedSumcheck DagLayers InputLayers
open ClaimBinding ZkmlVerifier

variable (b : Backend)

/-! ## The scalars that the full verifier checks against -/

/-- The equation of a dot-product proof in which its inner product stands. -/
def DotProductChecked (podp : PODPProof) (c : ℕ) (comY : G1Point) (gens : PedersenGens)
    (zDotA : ℕ) : Prop :=
  ∃ rhs, (do b.ecAdd (← b.ecMul gens.scalarGen zDotA) (← b.ecMul gens.blindingGen podp.zBeta) :
    Checked G1Point) = .ok rhs ∧ podpLhs b comY c podp.commitDDotA = .ok rhs

theorem dotProductChecked_of_verifyPodp {podp : PODPProof} {c : ℕ} {comX comY : G1Point}
    {aVector : List ℕ} {gens : PedersenGens}
    (h : verifyPodp b podp c comX comY aVector gens = .ok true) :
    ∃ zDotA, innerProduct b podp.zVector aVector = .ok zDotA ∧
      DotProductChecked b podp c comY gens zDotA := by
  obtain ⟨rhs, hrhs, -, hlhs⟩ := (verifyPodp_true b).mp h
  simp only [podpRhs, bind_eq_ok, pure_eq_ok] at hrhs
  obtain ⟨_, -, _, -, zDotA, hz, _, -, _, -, _, -, zg, hzg, zb, hzb, comZDotA, hdot, rfl⟩ := hrhs
  refine ⟨zDotA, hz, comZDotA, ?_, hlhs⟩
  simp only [bind_eq_ok]
  exact ⟨zg, hzg, zb, hzb, hdot⟩

/-- A hybrid layer against the full verifier's run of the same layer: the same bindings and the
same weight, and the inner product of the equation that its sumcheck satisfies. -/
structure LayerReplayed (proof : GKRProof) (desc : DAGCircuitDescription) (gens : PedersenGens)
    (layerIdx : ℕ) (ch : LayerChallenges) (run : LayerRun) (layer : HybridLayer) : Prop where
  bindings_eq : layer.bindings = run.bindings
  rlcBeta_eq : layer.rlcBeta = run.rlcBeta
  sumcheck : ∃ lp layerType jStar rho0 rhoN dotProduct,
    proof.layerProofs[layerIdx]? = some lp ∧ desc.layerTypes[layerIdx]? = some layerType ∧
    computeJStar b ch.rhos ch.gammas ch.bindings (layerDegree layerType)
      lp.sumcheckProof.messages.length = .ok jStar ∧
    innerProduct b lp.sumcheckProof.podp.zVector jStar = .ok layer.zDotJStar ∧
    ch.rhos[0]? = some rho0 ∧ ch.rhos[lp.sumcheckProof.messages.length]? = some rhoN ∧
    computeDotProduct b lp.sumcheckProof.sum run.oracleEval rho0 rhoN = .ok dotProduct ∧
    DotProductChecked b lp.sumcheckProof.podp ch.podpChallenge dotProduct gens layer.zDotJStar

/-- The hybrid output for an eval group against the full verifier's run of the group. -/
structure GroupReplayed (gens : PedersenGens) (podp : PODPProof) (run : GroupRun) (zDotR : ℕ) :
    Prop where
  zDotR_eq : innerProduct b podp.zVector run.rCoeffs = .ok zDotR
  opening : DotProductChecked b podp run.podpChallenge run.comEval gens zDotR

/-! ## Compute layers -/

private theorem rlcBetaStart_of_rlcStart {layerIdx : ℕ} {ctx : VerifyContext}
    {bindings rlcCoeffs : List ℕ} {st : RlcState}
    (h : rlcStart b layerIdx ctx bindings rlcCoeffs = .ok st) :
    rlcBetaStart b layerIdx ctx bindings rlcCoeffs = .ok (st.rlcBeta, st.coeffIdx) := by
  unfold rlcStart at h
  unfold rlcBetaStart
  split at h
  · next h0 =>
    simp only [bind_eq_ok, pure_eq_ok] at h
    obtain ⟨coeff, hcoeff, _, -, beta, hbeta, rfl⟩ := h
    rw [if_pos h0, hbeta, ok_bind, hcoeff]
    rfl
  · next h0 =>
    rw [pure_eq_ok] at h
    rw [if_neg h0, ← h]
    rfl

private theorem rlcBetaStep_of_rlcStep {proof : GKRProof} {desc : DAGCircuitDescription}
    {ctx : VerifyContext} {bindings rlcCoeffs : List ℕ} {st st' : RlcState} {atom : ℕ × ℕ}
    (h : rlcStep b proof desc ctx bindings rlcCoeffs st atom = .ok st') :
    rlcBetaStep b desc ctx bindings rlcCoeffs (st.rlcBeta, st.coeffIdx) atom =
      .ok (st'.rlcBeta, st'.coeffIdx) := by
  simp only [rlcStep, bind_eq_ok, pure_eq_ok] at h
  obtain ⟨_, -, _, -, _, -, source, hsource, atomPoint, hpoint, beta, hbeta, coeff, hcoeff, _, -,
    _, -, rfl⟩ := h
  rw [rlcBetaStep, hsource, ok_bind, hpoint, ok_bind, hbeta, ok_bind, hcoeff]
  rfl

theorem computeRlcBetaOnly_of_computeRlcEvalAndBeta {layerIdx : ℕ} {proof : GKRProof}
    {desc : DAGCircuitDescription} {ctx : VerifyContext} {bindings rlcCoeffs : List ℕ}
    {result : G1Point × ℕ}
    (h : computeRlcEvalAndBeta b layerIdx proof desc ctx bindings rlcCoeffs = .ok result) :
    computeRlcBetaOnly b layerIdx desc ctx bindings rlcCoeffs = .ok result.2 := by
  simp only [computeRlcEvalAndBeta, bind_eq_ok, pure_eq_ok] at h
  obtain ⟨start, hstart, atoms, hatoms, last, hlast, rfl⟩ := h
  obtain ⟨_, hfold, rfl⟩ := foldlM_simulation
    (R := fun (st : RlcState) (t : ℕ × ℕ) => t = (st.rlcBeta, st.coeffIdx))
    (g := rlcBetaStep b desc ctx bindings rlcCoeffs)
    (fun st st' _ atom ht hstep => ⟨_, ht ▸ rlcBetaStep_of_rlcStep b hstep, rfl⟩) rfl hlast
  rw [computeRlcBetaOnly, rlcBetaStart_of_rlcStart b hstart, ok_bind, hatoms, ok_bind, hfold]
  rfl

private theorem verifyProductsHybrid_eq (pops : List ProofOfProduct) (s : Sponge) :
    verifyProductsHybrid b pops s = (popTranscript b pops s).2 := by
  induction pops generalizing s with
  | nil => rfl
  | cons pop pops ih =>
    rw [verifyProductsHybrid, List.foldl_cons, popTranscript]
    exact ih _

private theorem verifyHybrid_eq_ok {ch : LayerChallenges} {numClaims : ℕ}
    {lp : CommittedLayerProof} {s : Sponge} (hch : ch = layerChallenges b numClaims lp s)
    {degree zDotJStar : ℕ} {jStar : List ℕ}
    (hj : computeJStar b ch.rhos ch.gammas ch.bindings degree lp.sumcheckProof.messages.length =
      .ok jStar)
    (hz : innerProduct b lp.sumcheckProof.podp.zVector jStar = .ok zDotJStar) {s₁ s₂ : Sponge}
    (hs₁ : s₁ = absorbPoints b (absorbMessagesAndDeriveBindings b lp.sumcheckProof.messages
      (challenges b numClaims s).2).2 lp.commitments)
    (hs₂ : s₂ = (absorbPodp b lp.sumcheckProof.podp (challenges b lp.sumcheckProof.messages.length
      (challenges b (lp.sumcheckProof.messages.length + 1) s₁).2).2).2) :
    verifyHybrid b lp.sumcheckProof degree ch.bindings s₁ = .ok (zDotJStar, s₂) := by
  subst hch hs₁ hs₂
  have hlen := length_bindings b lp.sumcheckProof.messages (challenges b numClaims s).2
  simp only [verifyHybrid, bind_eq_ok, require_eq_ok, beq_iff_eq, pure_eq_ok]
  exact ⟨(), hlen, jStar, hj, zDotJStar, hz, rfl⟩

/-- One layer: the hybrid run ends with the full run's sponge. -/
theorem processOneLayerHybrid_of_processOneLayer {layerIdx : ℕ} {proof : GKRProof}
    {desc : DAGCircuitDescription} {gens : PedersenGens} {ctx : VerifyContext} {s s' : Sponge}
    {run : LayerRun} (h : processOneLayer b layerIdx proof desc gens ctx s = .ok (run, s')) :
    ∃ lp layer, proof.layerProofs[layerIdx]? = some lp ∧
      s' = (layerChallenges b (numLayerClaims desc layerIdx) lp s).sponge ∧
      processOneLayerHybrid b layerIdx proof desc ctx s = .ok (layer, s') ∧
      LayerReplayed b proof desc gens layerIdx
        (layerChallenges b (numLayerClaims desc layerIdx) lp s) run layer := by
  obtain ⟨lp, hlp, haccepted, hs'⟩ := (processOneLayer_eq_ok b).mp h
  obtain ⟨-, hbindings, hrlc, -, ⟨layerType, htype, hsum⟩, -⟩ := haccepted
  simp only [sumcheckHolds, bind_eq_ok, getIdx_eq_ok] at hsum
  obtain ⟨alpha, -, jStar, hj, rho0, h0, rhoN, hN, dotProduct, hdot, hpodp⟩ := hsum
  obtain ⟨zDotJStar, hz, hchecked⟩ := dotProductChecked_of_verifyPodp b hpodp
  refine ⟨lp, ⟨run.bindings, run.rlcBeta, zDotJStar⟩, hlp, hs', ?_, rfl, rfl, lp, layerType, jStar,
    rho0, rhoN, dotProduct, hlp, htype, hj, hz, h0, hN, hdot, hchecked⟩
  have hbeta := computeRlcBetaOnly_of_computeRlcEvalAndBeta b hrlc
  simp only [processOneLayerHybrid, bind_eq_ok, getIdx_eq_ok, pure_eq_ok]
  refine ⟨lp, hlp, run.rlcBeta, hbeta, layerType, htype, (zDotJStar, _),
    verifyHybrid_eq_ok b rfl hj hz rfl rfl, ?_⟩
  rw [hs', hbindings, verifyProductsHybrid_eq]
  rfl

theorem processLayersHybrid_of_processLayers {proof : GKRProof} {desc : DAGCircuitDescription}
    {gens : PedersenGens} {is : List ℕ} {ctx : VerifyContext} {s : Sponge}
    {out : List LayerRun × VerifyContext × Sponge}
    (h : processLayers b proof desc gens is ctx s = .ok out) :
    ∃ layers, processLayersHybrid b proof desc is ctx s = .ok (layers, out.2) ∧
      (layerTranscripts b proof desc is s).length = is.length ∧
      List.Forall₂ (fun x layer => LayerReplayed b proof desc gens x.1 x.2.1 x.2.2 layer)
        (is.zip ((layerTranscripts b proof desc is s).zip out.1)) layers := by
  induction is generalizing ctx s out with
  | nil =>
    rw [(processLayers_nil b).mp h]
    exact ⟨[], rfl, rfl, .nil⟩
  | cons i is ih =>
    obtain ⟨run, s₁, runs, hrun, hruns, hout⟩ := (processLayers_cons b).mp h
    obtain ⟨lp, layer, hlp, hs₁, hlayer, hreplayed⟩ :=
      processOneLayerHybrid_of_processOneLayer b hrun
    obtain ⟨layers, hlayers, hlength, hall⟩ := ih hruns
    rw [hs₁] at hlength hall
    refine ⟨layer :: layers, ?_, ?_, ?_⟩
    · simp only [processLayersHybrid, hlayer, ok_bind, hreplayed.bindings_eq, hlayers]
      rfl
    · rw [layerTranscripts, hlp, List.length_cons]
      exact congrArg Nat.succ hlength
    · rw [hout, layerTranscripts, hlp]
      exact .cons hreplayed hall

/-- The compute layers: the same context and the same sponge. -/
theorem verifyComputeLayersHybrid_of_verifyComputeLayers {proof : GKRProof}
    {desc : DAGCircuitDescription} {gens : PedersenGens} {s : Sponge}
    {out : List LayerRun × VerifyContext × Sponge}
    (h : verifyComputeLayers b proof desc gens s = .ok out) :
    ∃ layers start, outputPhase b proof s = .ok start ∧
      verifyComputeLayersHybrid b proof desc s = .ok (layers, out.2) ∧
      (layerTranscripts b proof desc (List.range desc.numComputeLayers) start.2).length =
        desc.numComputeLayers ∧ out.1.length = desc.numComputeLayers ∧
      List.Forall₂ (fun x layer => LayerReplayed b proof desc gens x.1 x.2.1 x.2.2 layer)
        ((List.range desc.numComputeLayers).zip ((layerTranscripts b proof desc
          (List.range desc.numComputeLayers) start.2).zip out.1)) layers := by
  simp only [verifyComputeLayers, bind_eq_ok] at h
  obtain ⟨start, hstart, hlayers⟩ := h
  obtain ⟨layers, hhybrid, hlength, hall⟩ := processLayersHybrid_of_processLayers b hlayers
  have hruns := length_processLayers b hlayers
  rw [List.length_range] at hlength hruns
  refine ⟨layers, start, hstart, ?_, hlength, hruns, hall⟩
  simp only [verifyComputeLayersHybrid, hstart, ok_bind]
  exact hhybrid

/-! ## Input layers -/

/-- The hybrid outputs after some input layers, against the full verifier's state after the same
layers: the groups opened so far stand for the dot-product proofs of the input proofs used so far,
and the evaluations are the values of the public claims used so far. -/
structure InputsReplayed (gens : PedersenGens) (input : InputData) (st : InputState)
    (outputs : InputFrOutputs) : Prop where
  proofs_le : st.dagInputIdx ≤ input.dagInputProofs.length
  lTensorFlat_eq : outputs.lTensorFlat = st.groupRuns.flatten.flatMap (·.lCoeffs)
  podps_length : ((input.dagInputProofs.take st.dagInputIdx).flatMap (·.podps)).length =
    st.groupRuns.flatten.length
  zDotRs : List.Forall₂ (fun x zDotR => GroupReplayed b gens x.1 x.2 zDotR)
    (((input.dagInputProofs.take st.dagInputIdx).flatMap (·.podps)).zip st.groupRuns.flatten)
    outputs.zDotRs
  claims_le : st.pubClaimIdx ≤ input.publicValueClaims.length
  mleEvals_eq : outputs.mleEvals = (input.publicValueClaims.take st.pubClaimIdx).map (·.value)

private theorem verifyOneEvalGroupHybrid_of_verifyOneEvalGroup {dagProof : DAGInputLayerProof}
    {claimPoints : List (List ℕ)} {plan : EvalPlan} {gens : PedersenGens} {g : ℕ} {group : List ℕ}
    {s s' : Sponge} {run : GroupRun}
    (h : verifyOneEvalGroup b dagProof claimPoints plan.lHalfLen plan.logNCols gens g group s =
      .ok (run, s')) :
    ∃ podp zDotR, dagProof.podps[g]? = some podp ∧ GroupReplayed b gens podp run zDotR ∧
      ∀ outputs, verifyOneEvalGroupHybrid b dagProof claimPoints plan g group outputs s =
        .ok ({ outputs with lTensorFlat := outputs.lTensorFlat ++ run.lCoeffs
                            zDotRs := outputs.zDotRs ++ [zDotR] }, s') := by
  obtain ⟨comEval, podp, hcom, hpodp, hcomEval, hopened, rfl⟩ :=
    (verifyOneEvalGroup_eq_ok b).mp h
  obtain ⟨-, -, hchallenge, htensors, hopening⟩ := hopened
  simp only [openingHolds, bind_eq_ok] at hopening
  obtain ⟨_, -, comX, -, hverify⟩ := hopening
  obtain ⟨zDotR, hz, hchecked⟩ := dotProductChecked_of_verifyPodp b hverify
  simp only [groupTensors, bind_eq_ok, getIdx_eq_ok, pure_eq_ok, Prod.mk.injEq] at htensors
  obtain ⟨points, hpoints, lCoeffs, hl, first, hfirst, rVars, hvars, rCoeffs, hr, rfl, rfl⟩ :=
    htensors
  refine ⟨podp, zDotR, hpodp, ⟨hz, ?_⟩, fun outputs => ?_⟩
  · rw [hchallenge, hcomEval]
    exact hchecked
  · simp only [verifyOneEvalGroupHybrid, bind_eq_ok, getIdx_eq_ok, pure_eq_ok]
    exact ⟨points, hpoints, _, hl, first, hfirst, rVars, hvars, _, hr, comEval, hcom, podp, hpodp,
      zDotR, hz, rfl⟩

private theorem verifyGroupsHybrid_of_verifyGroups {dagProof : DAGInputLayerProof}
    {claimPoints : List (List ℕ)} {plan : EvalPlan} {gens : PedersenGens}
    {groups : List (List ℕ × ℕ)} {s : Sponge} {out : List GroupRun × Sponge}
    (h : verifyGroups b dagProof claimPoints plan gens groups s = .ok out) :
    ∃ (podps : List PODPProof) (zDotRs : List ℕ),
      groups.map (fun x => dagProof.podps[x.2]?) = podps.map some ∧
      podps.length = out.1.length ∧
      List.Forall₂ (fun x zDotR => GroupReplayed b gens x.1 x.2 zDotR) (podps.zip out.1) zDotRs ∧
      ∀ outputs, verifyGroupsHybrid b dagProof claimPoints plan groups outputs s =
        .ok ({ outputs with lTensorFlat := outputs.lTensorFlat ++ out.1.flatMap (·.lCoeffs)
                            zDotRs := outputs.zDotRs ++ zDotRs }, out.2) := by
  induction groups generalizing s out with
  | nil =>
    rw [(verifyGroups_nil b).mp h]
    refine ⟨[], [], rfl, rfl, .nil, fun outputs => ?_⟩
    simp only [verifyGroupsHybrid, List.flatMap_nil, List.append_nil]
    rfl
  | cons group rest ih =>
    obtain ⟨run, s₁, runs, hrun, hruns, hout⟩ := (verifyGroups_cons b).mp h
    obtain ⟨podp, zDotR, hpodp, hreplayed, hhybrid⟩ :=
      verifyOneEvalGroupHybrid_of_verifyOneEvalGroup b hrun
    obtain ⟨podps, zDotRs, hpodps, hlength, hall, hrest⟩ := ih hruns
    rw [hout]
    refine ⟨podp :: podps, zDotR :: zDotRs, ?_, ?_, .cons hreplayed hall, fun outputs => ?_⟩
    · rw [List.map_cons, List.map_cons, hpodps, hpodp]
    · rw [List.length_cons, List.length_cons, hlength]
    · simp only [verifyGroupsHybrid, hhybrid, ok_bind, hrest, List.flatMap_cons, List.append_assoc,
        List.cons_append, List.nil_append]

private theorem podps_of_zipIdx {dagProof : DAGInputLayerProof} {groups : List (List ℕ)}
    {podps : List PODPProof} (hlength : groups.length = dagProof.podps.length)
    (h : groups.zipIdx.map (fun x => dagProof.podps[x.2]?) = podps.map some) :
    podps = dagProof.podps := by
  have hplaces : groups.zipIdx.map (fun x => dagProof.podps[x.2]?) =
      (List.range groups.length).map (dagProof.podps[·]?) := by
    rw [List.range_eq_range', ← List.zipIdx_map_snd 0 groups, List.map_map]
    rfl
  rw [hplaces, hlength] at h
  have hsome := FlatLayouts.readPlaces_length dagProof.podps
  rw [FlatLayouts.readPlaces, h] at hsome
  exact (List.map_injective_iff.mpr (Option.some_injective _)) hsome

private theorem verifyPublicInputClaimsHybrid_of_verifyPublicInputClaims {proof : GKRProof}
    {desc : DAGCircuitDescription} {gens : PedersenGens} {claimPoints : List (List ℕ)}
    {targetLayer start next : ℕ} {publicInputs : List ℕ} {claims : List PublicValueClaim}
    (hstart : start ≤ claims.length)
    (h : verifyPublicInputClaims b proof desc gens claimPoints targetLayer start publicInputs
      claims = .ok next) :
    start ≤ next ∧ next ≤ claims.length ∧
      verifyPublicInputClaimsHybrid b desc claimPoints targetLayer publicInputs =
        .ok (((claims.drop start).take (next - start)).map (·.value)) := by
  simp only [verifyPublicInputClaims, bind_eq_ok, pure_eq_ok] at h
  obtain ⟨atoms, hatoms, _, hforM, rfl⟩ := h
  have hclaim : ∀ i < atoms.length, ∃ point claim, claimPoints[i]? = some point ∧
      claims[start + i]? = some claim ∧
      evaluateMleFromData b publicInputs point = .ok claim.value := by
    intro i hi
    have hone := forM_eq_ok.mp hforM (atoms[i], i) (List.mk_mem_zipIdx_iff_getElem?.mpr
      (List.getElem?_eq_getElem hi))
    simp only [verifyOnePublicClaim, bind_eq_ok, getIdx_eq_ok, require_eq_ok, beq_iff_eq] at hone
    obtain ⟨point, hpoint, _, -, _, -, claim, hget, _, -, _, -, _, -, _, -, _, -, mle, hmle,
      hvalue⟩ := hone
    exact ⟨point, claim, hpoint, hget, hvalue ▸ hmle⟩
  have hle : start + atoms.length ≤ claims.length := by
    rcases Nat.eq_zero_or_pos atoms.length with hzero | hpos
    · omega
    · obtain ⟨_, _, -, hget, -⟩ := hclaim (atoms.length - 1) (by omega)
      have hlt := (List.getElem?_eq_some_iff.mp hget).1
      omega
  refine ⟨Nat.le_add_right _ _, hle, ?_⟩
  rw [verifyPublicInputClaimsHybrid, hatoms, ok_bind, Nat.add_sub_cancel_left]
  rw [mapM_of_ok (g := fun i => ((claims[start + i]?).map (·.value)).getD 0)]
  · congr 1
    refine List.ext_getElem (by simp; omega) fun i hi hi' => ?_
    have hlt : start + i < claims.length := by
      rw [List.length_map, List.length_range] at hi
      omega
    simp [List.getElem?_eq_getElem hlt]
  · intro i hi
    obtain ⟨point, claim, hpoint, hget, hmle⟩ := hclaim i (List.mem_range.mp hi)
    rw [getIdx_eq_ok.mpr hpoint, ok_bind, hmle, hget]
    rfl

section Steps

variable {b} {gens : PedersenGens} {input : InputData} {st : InputState} {outputs : InputFrOutputs}

/-- A committed input adds its groups. -/
private theorem InputsReplayed.committed (h : InputsReplayed b gens input st outputs)
    {dagProof : DAGInputLayerProof} (hproof : input.dagInputProofs[st.dagInputIdx]? = some dagProof)
    {runs : List GroupRun} (hlength : dagProof.podps.length = runs.length) {zDotRs : List ℕ}
    (hall : List.Forall₂ (fun x zDotR => GroupReplayed b gens x.1 x.2 zDotR)
      (dagProof.podps.zip runs) zDotRs) (s : Sponge) :
    InputsReplayed b gens input
      ⟨st.dagInputIdx + 1, st.pubClaimIdx, st.groupRuns ++ [runs], s⟩
      { outputs with lTensorFlat := outputs.lTensorFlat ++ runs.flatMap (·.lCoeffs)
                     zDotRs := outputs.zDotRs ++ zDotRs } := by
  have htake : (input.dagInputProofs.take (st.dagInputIdx + 1)).flatMap (·.podps) =
      (input.dagInputProofs.take st.dagInputIdx).flatMap (·.podps) ++ dagProof.podps := by
    rw [List.take_add_one, hproof, List.flatMap_append]
    simp
  have hflat : (st.groupRuns ++ [runs]).flatten = st.groupRuns.flatten ++ runs := by simp
  refine ⟨(List.getElem?_eq_some_iff.mp hproof).1, ?_, ?_, ?_, h.claims_le, h.mleEvals_eq⟩
  · rw [hflat, List.flatMap_append, h.lTensorFlat_eq]
  · rw [htake, hflat, List.length_append, List.length_append, h.podps_length, hlength]
  · rw [htake, hflat, List.zip_append h.podps_length]
    exact List.rel_append h.zDotRs hall

/-- A public input adds the values of its claims. -/
private theorem InputsReplayed.publicClaims (h : InputsReplayed b gens input st outputs) {next : ℕ}
    (hle : st.pubClaimIdx ≤ next) (hnext : next ≤ input.publicValueClaims.length) :
    InputsReplayed b gens input ⟨st.dagInputIdx, next, st.groupRuns ++ [[]], st.sponge⟩
      ⟨outputs.lTensorFlat, outputs.zDotRs, outputs.mleEvals ++
        ((input.publicValueClaims.drop st.pubClaimIdx).take (next - st.pubClaimIdx)).map
          (·.value)⟩ := by
  have hflat : (st.groupRuns ++ [[]]).flatten = st.groupRuns.flatten := by simp
  have htake : input.publicValueClaims.take next = input.publicValueClaims.take st.pubClaimIdx ++
      (input.publicValueClaims.drop st.pubClaimIdx).take (next - st.pubClaimIdx) := by
    rw [← List.take_add, Nat.add_sub_cancel' hle]
  refine ⟨h.proofs_le, ?_, ?_, ?_, hnext, ?_⟩
  · rw [hflat, h.lTensorFlat_eq]
  · rw [hflat, h.podps_length]
  · rw [hflat]
    exact h.zDotRs
  · rw [htake, List.map_append, h.mleEvals_eq]

end Steps

/-- The input loop: from replayed outputs to replayed outputs, with the same sponge. -/
theorem verifyInputLayersHybrid_of_foldlM {proof : GKRProof} {desc : DAGCircuitDescription}
    {gens : PedersenGens} {allBindings : List (List ℕ)} {input : InputData} {is : List ℕ}
    {st st' : InputState} {outputs : InputFrOutputs} (hst : InputsReplayed b gens input st outputs)
    (h : is.foldlM (verifyInputLayer b proof desc gens allBindings input) st = .ok st') :
    ∃ outputs', verifyInputLayersHybrid b desc allBindings input.publicInputs input.dagInputProofs
        is st.dagInputIdx outputs st.sponge = .ok (outputs', st'.sponge) ∧
      InputsReplayed b gens input st' outputs' := by
  induction is generalizing st outputs with
  | nil =>
    rw [List.foldlM_nil, pure_eq_ok] at h
    exact ⟨outputs, h ▸ rfl, h ▸ hst⟩
  | cons i is ih =>
    rw [List.foldlM_cons, bind_eq_ok] at h
    obtain ⟨st₁, hlayer, hrest⟩ := h
    obtain ⟨claimPoints, hpoints, ⟨hcommitted, dagProof, plan, runs, s₁, hproof, hplan, hgroups,
      rfl⟩ | ⟨hpublic, next, hnext, rfl⟩⟩ := (verifyInputLayer_eq_ok b).mp hlayer
    · obtain ⟨hsorted, hcount⟩ := evalPlan_eq_ok.mp hplan
      obtain ⟨podps, zDotRs, hpodps, hlength, hall, hhybrid⟩ :=
        verifyGroupsHybrid_of_verifyGroups b hgroups
      obtain rfl := podps_of_zipIdx hcount hpodps
      obtain ⟨outputs', hrun, hreplayed⟩ := ih (hst.committed hproof hlength hall s₁) hrest
      refine ⟨outputs', ?_, hreplayed⟩
      simp only [verifyInputLayersHybrid, hpoints, getIdx_eq_ok.mpr hcommitted,
        getIdx_eq_ok.mpr hproof, hsorted, hhybrid, ok_bind, ↓reduceIte]
      exact hrun
    · obtain ⟨hle, hnextLe, hhybrid⟩ :=
        verifyPublicInputClaimsHybrid_of_verifyPublicInputClaims b hst.claims_le hnext
      obtain ⟨outputs', hrun, hreplayed⟩ := ih (hst.publicClaims hle hnextLe) hrest
      refine ⟨outputs', ?_, hreplayed⟩
      simp only [verifyInputLayersHybrid, hpoints, getIdx_eq_ok.mpr hpublic, hhybrid, ok_bind,
        Bool.false_eq_true, ↓reduceIte]
      exact hrun

/-- Where the full verifier of the crate accepts, its hybrid functions return with the same
context and the same sponge after each phase, and with the scalars of the full verifier's
equations. -/
theorem hybrid_of_full {proof : GKRProof} {desc : DAGCircuitDescription} {gens : PedersenGens}
    {input : InputData} {s s₁ : Sponge} {runs : List LayerRun} {ctx : VerifyContext}
    {st : InputState}
    (hcompute : verifyComputeLayers zkmlBackend proof desc gens s = .ok (runs, ctx, s₁))
    (hinputs : verifyInputLayers zkmlBackend proof desc gens ctx.allBindings input s₁ = .ok st) :
    ∃ layers outputs start, outputPhase zkmlBackend proof s = .ok start ∧
      verifyComputeLayersHybrid zkmlBackend proof desc s = .ok (layers, ctx, s₁) ∧
      (layerTranscripts zkmlBackend proof desc (List.range desc.numComputeLayers) start.2).length =
        desc.numComputeLayers ∧ runs.length = desc.numComputeLayers ∧
      List.Forall₂ (fun x layer => LayerReplayed zkmlBackend proof desc gens x.1 x.2.1 x.2.2 layer)
        ((List.range desc.numComputeLayers).zip ((layerTranscripts zkmlBackend proof desc
          (List.range desc.numComputeLayers) start.2).zip runs)) layers ∧
      verifyInputLayersHybrid zkmlBackend desc ctx.allBindings input.publicInputs
        input.dagInputProofs (List.range desc.numInputLayers) 0 ⟨[], [], []⟩ s₁ =
          .ok (outputs, st.sponge) ∧
      InputsReplayed zkmlBackend gens input st outputs := by
  obtain ⟨layers, start, hstart, hhybrid, htranscripts, hruns, hall⟩ :=
    verifyComputeLayersHybrid_of_verifyComputeLayers zkmlBackend hcompute
  have hempty : InputsReplayed zkmlBackend gens input ⟨0, 0, [], s₁⟩ ⟨[], [], []⟩ :=
    ⟨Nat.zero_le _, rfl, rfl, .nil, Nat.zero_le _, rfl⟩
  obtain ⟨outputs, hrun, hreplayed⟩ := verifyInputLayersHybrid_of_foldlM zkmlBackend hempty hinputs
  exact ⟨layers, outputs, start, hstart, hhybrid, htranscripts, hruns, hall, hrun, hreplayed⟩

/-- An accepted proof without rounds and its replay. -/
theorem hybrid_of_full_noRound :
    ∃ run, runPhases (noRoundProof G1Point.INFINITY) noGens noRoundDesc noRoundSponge = .ok run ∧
      ∃ layers outputs,
        verifyComputeLayersHybrid zkmlBackend (noRoundProof G1Point.INFINITY).gkrProof noRoundDesc
          noRoundSponge = .ok (layers, run.ctx, run.computeSponge) ∧
        verifyInputLayersHybrid zkmlBackend noRoundDesc run.ctx.allBindings [] []
          (List.range noRoundDesc.numInputLayers) 0 ⟨[], [], []⟩ run.computeSponge =
            .ok (outputs, run.inputs.sponge) := by
  have haccept : okAnd (runPhases (noRoundProof G1Point.INFINITY) noGens noRoundDesc noRoundSponge)
      (fun _ => true) = true := by decide
  obtain ⟨run, hrun, -⟩ := okAnd_eq_true.mp haccept
  obtain ⟨-, -, -, -, hcompute, hinputs⟩ := runPhases_eq_ok.mp hrun
  obtain ⟨layers, outputs, -, -, hlayers, -, -, -, houtputs, -⟩ := hybrid_of_full hcompute hinputs
  exact ⟨run, hrun, layers, outputs, hlayers, houtputs⟩

end WorldZk.HybridReplay
