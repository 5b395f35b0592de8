import WorldZk.ClaimBinding
import WorldZk.GroupChecks

/-!
# Are the openings of the committed inputs bound to the claims?

An eval group opens the commitment rows to `com_evals[g]`, a point of the proof that nothing
compares with the claims of the group. The claim-bound opening below puts the combination of the
claims' commitments in its place, at the same challenges.
-/

namespace WorldZk.OpeningBinding

open CheckedRuns Bn254Moduli FieldArithmetic PoseidonSponge ProofTypes VerifierBackend
open CommittedSumcheck DagLayers InputLayers NativeCurve ZkmlVerifier ClaimBinding

/-! ## The claims on an input layer -/

/-- The commitments of the claims on an input layer, in the order of their claim points. -/
def claimCommitments (proof : GKRProof) (desc : DAGCircuitDescription) (targetLayer : ℕ) :
    Checked (List G1Point) := do
  let atoms ← routedAtoms desc targetLayer desc.numComputeLayers
  atoms.mapM (atomCommitment proof desc)

/-- The combination of a group's commitments with its coefficients. -/
def groupClaim (commitments : List G1Point) (group rlcCoeffs : List ℕ) : Checked G1Point := do
  let points ← group.mapM (getIdx commitments)
  multiScalarMul zkmlBackend points rlcCoeffs

theorem multiScalarMul_onCurve {points : List G1Point} {scalars : List ℕ}
    (hpoints : ∀ p ∈ points, isOnCurve p = true) (hscalars : ∀ c ∈ scalars, c < FR_MOD)
    {result : G1Point} (h : multiScalarMul zkmlBackend points scalars = .ok result) :
    isOnCurve result = true := by
  simp only [multiScalarMul, bind_eq_ok] at h
  obtain ⟨_, -, h⟩ := h
  have hterm : ∀ ps ∈ points.zip scalars, isOnCurve (ecMul ps.1 ps.2) = true := by
    rintro ⟨p, c⟩ hmem
    obtain ⟨hp, hc⟩ := List.of_mem_zip hmem
    exact isOnCurve_ecMul (hpoints p hp) ((hscalars c hc).trans FR_MOD_lt_word)
  split at h
  · rw [pure_eq_ok] at h
    subst h
    exact isOnCurve_infinity
  · next p c rest hzip =>
    rw [hzip] at hterm
    simp only [bind_eq_ok] at h
    obtain ⟨first, hfirst, hfold⟩ := h
    cases hfirst
    refine foldlM_invariant (P := fun p => isOnCurve p = true) ?_
      (hterm (p, c) List.mem_cons_self) hfold
    intro acc ps acc' hps hacc hstep
    simp only [bind_eq_ok] at hstep
    obtain ⟨scaled, hscaled, hadd⟩ := hstep
    cases hscaled
    cases hadd
    exact isOnCurve_ecAdd hacc (hterm ps (List.mem_cons_of_mem _ hps))

/-- The points of a proof that enter the second equation of an opening lie on the curve. -/
structure PointsOnCurve (proof : GKRProof) (dagInputProofs : List DAGInputLayerProof) : Prop where
  commitments : ∀ lp ∈ proof.layerProofs, ∀ p ∈ lp.commitments, isOnCurve p = true
  comEvals : ∀ ip ∈ dagInputProofs, ∀ p ∈ ip.comEvals, isOnCurve p = true
  commitDDotA : ∀ ip ∈ dagInputProofs, ∀ podp ∈ ip.podps, isOnCurve podp.commitDDotA = true

theorem groupClaim_onCurve {proof : GKRProof}
    (hcommit : ∀ lp ∈ proof.layerProofs, ∀ p ∈ lp.commitments, isOnCurve p = true)
    {desc : DAGCircuitDescription} {targetLayer : ℕ} {commitments : List G1Point}
    (h : claimCommitments proof desc targetLayer = .ok commitments) {group rlcCoeffs : List ℕ}
    (hcoeffs : ∀ c ∈ rlcCoeffs, c < FR_MOD) {claim : G1Point}
    (hclaim : groupClaim commitments group rlcCoeffs = .ok claim) : isOnCurve claim = true := by
  simp only [claimCommitments, groupClaim, bind_eq_ok] at h hclaim
  obtain ⟨atoms, -, hatoms⟩ := h
  obtain ⟨points, hpoints, hmsm⟩ := hclaim
  have hall : ∀ p ∈ commitments, isOnCurve p = true := by
    refine mapM_forall hatoms ?_
    intro atom p _ hp
    simp only [atomCommitment, bind_eq_ok, getIdx_eq_ok] at hp
    obtain ⟨source, hsource, _, -, hget⟩ := hp
    exact hcommit source (List.mem_of_getElem? hsource) p (List.mem_of_getElem? hget)
  refine multiScalarMul_onCurve (mapM_forall hpoints ?_) hcoeffs hmsm
  intro i p _ hp
  exact hall p (List.mem_of_getElem? (getIdx_eq_ok.mp hp))

/-! ## The claim-bound opening -/

/-- An eval group that is opened to the combination of its claims. -/
def claimBoundGroup (proof : GKRProof) (desc : DAGCircuitDescription) (targetLayer : ℕ)
    (dagProof : DAGInputLayerProof) (claimPoints : List (List ℕ)) (plan : EvalPlan)
    (gens : PedersenGens) (g : ℕ) (group : List ℕ) (s : Sponge) : Checked (GroupRun × Sponge) := do
  let comEval ← getIdx dagProof.comEvals g
  let podp ← getIdx dagProof.podps g
  let ch := groupChallenges zkmlBackend group.length comEval podp s
  let (lCoeffs, rCoeffs) ←
    groupTensors zkmlBackend claimPoints plan.lHalfLen plan.logNCols group ch.rlcCoeffs
  let claim ← groupClaim (← claimCommitments proof desc targetLayer) group ch.rlcCoeffs
  require (← openingHolds zkmlBackend dagProof.commitmentRows podp claim lCoeffs rCoeffs
    ch.podpChallenge gens) .committedInputEvalFailed
  pure (⟨group, comEval, ch.rlcCoeffs, lCoeffs, rCoeffs, ch.podpChallenge⟩, ch.sponge)

def claimBoundGroups (proof : GKRProof) (desc : DAGCircuitDescription) (targetLayer : ℕ)
    (dagProof : DAGInputLayerProof) (claimPoints : List (List ℕ)) (plan : EvalPlan)
    (gens : PedersenGens) : List (List ℕ × ℕ) → Sponge → Checked (List GroupRun × Sponge)
  | [], s => pure ([], s)
  | (group, g) :: rest, s => do
    let (run, s) ← claimBoundGroup proof desc targetLayer dagProof claimPoints plan gens g group s
    let (runs, s) ← claimBoundGroups proof desc targetLayer dagProof claimPoints plan gens rest s
    pure (run :: runs, s)

/-- An input layer with claim-bound openings. -/
def claimBoundInputLayer (proof : GKRProof) (desc : DAGCircuitDescription) (gens : PedersenGens)
    (allBindings : List (List ℕ)) (input : InputData) (st : InputState) (inputIdx : ℕ) :
    Checked InputState := do
  let targetLayer := desc.numComputeLayers + inputIdx
  if ← getIdx desc.inputIsCommitted inputIdx then
    let claimPoints ← collectClaimPoints zkmlBackend desc allBindings targetLayer
    let dagProof ← getIdx input.dagInputProofs st.dagInputIdx
    let plan ← evalPlan dagProof claimPoints
    let (runs, s) ← claimBoundGroups proof desc targetLayer dagProof claimPoints plan gens
      plan.groups.zipIdx st.sponge
    pure { st with dagInputIdx := st.dagInputIdx + 1, groupRuns := st.groupRuns ++ [runs],
                   sponge := s }
  else verifyInputLayer zkmlBackend proof desc gens allBindings input st inputIdx

/-- The group's evaluation commitment is the combination of the claims on it. -/
def ClaimsOpened (proof : GKRProof) (desc : DAGCircuitDescription) (targetLayer : ℕ)
    (run : GroupRun) : Prop :=
  ∃ commitments, claimCommitments proof desc targetLayer = .ok commitments ∧
    groupClaim commitments run.claims run.rlcCoeffs = .ok run.comEval

/-- On a group that the crate accepts, claim-bound acceptance is the opening to the combined
claims, and it comes out with the same values. -/
private theorem claimBoundGroup_of_opened {proof : GKRProof} {desc : DAGCircuitDescription}
    {targetLayer : ℕ} {dagProof : DAGInputLayerProof} {claimPoints : List (List ℕ)}
    {plan : EvalPlan} {gens : PedersenGens} {g : ℕ} {group : List ℕ} {s s' : Sponge}
    {run : GroupRun} {podp : PODPProof} (hcom : dagProof.comEvals[g]? = some run.comEval)
    (hpodp : dagProof.podps[g]? = some podp)
    (h : GroupOpened zkmlBackend dagProof claimPoints plan.lHalfLen plan.logNCols gens group podp
      run.comEval (groupChallenges zkmlBackend group.length run.comEval podp s) run)
    (hs' : s' = (groupChallenges zkmlBackend group.length run.comEval podp s).sponge)
    {out : GroupRun × Sponge} :
    claimBoundGroup proof desc targetLayer dagProof claimPoints plan gens g group s = .ok out ↔
      (∃ commitments claim, claimCommitments proof desc targetLayer = .ok commitments ∧
        groupClaim commitments run.claims run.rlcCoeffs = .ok claim ∧
        openingHolds zkmlBackend dagProof.commitmentRows podp claim run.lCoeffs run.rCoeffs
          run.podpChallenge gens = .ok true) ∧ out = (run, s') := by
  obtain ⟨claims, comEval, rlcCoeffs, lCoeffs, rCoeffs, podpChallenge⟩ := run
  obtain ⟨hclaims, hcoeffs, hch, htensors, -⟩ := h
  simp only at hclaims hcoeffs hch htensors hcom hs'
  have hgetCom : getIdx dagProof.comEvals g = .ok comEval := getIdx_eq_ok.mpr hcom
  have hgetPodp : getIdx dagProof.podps g = .ok podp := getIdx_eq_ok.mpr hpodp
  simp only [claimBoundGroup, hgetCom, hgetPodp, ok_bind, htensors, bind_eq_ok, require_eq_ok,
    pure_eq_ok, hclaims, hcoeffs, hch, hs']
  constructor
  · rintro ⟨commitments, hcommitments, claim, hclaim, valid, hvalid, _, rfl, rfl⟩
    exact ⟨⟨commitments, claim, hcommitments, hclaim, hvalid⟩, rfl⟩
  · rintro ⟨⟨commitments, claim, hcommitments, hclaim, hvalid⟩, rfl⟩
    exact ⟨commitments, hcommitments, claim, hclaim, true, hvalid, (), rfl, rfl⟩

/-- With a nonzero challenge, the rows open to one commitment only. -/
theorem openingHolds_unique {rows : List G1Point} {podp : PODPProof} {comY comY' : G1Point}
    (hY : isOnCurve comY = true) (hY' : isOnCurve comY' = true)
    (hdot : isOnCurve podp.commitDDotA = true) {lCoeffs rCoeffs : List ℕ} {c : ℕ}
    (hc : c < FR_MOD) (hc0 : c ≠ 0) {gens : PedersenGens}
    (h : openingHolds zkmlBackend rows podp comY lCoeffs rCoeffs c gens = .ok true)
    (h' : openingHolds zkmlBackend rows podp comY' lCoeffs rCoeffs c gens = .ok true) :
    comY = comY' := by
  simp only [openingHolds, bind_eq_ok] at h h'
  obtain ⟨_, -, comX, -, hv⟩ := h
  obtain ⟨_, -, comX', -, hv'⟩ := h'
  obtain ⟨rhs, hrhs, -, hlhs⟩ := (verifyPodp_true _).mp hv
  obtain ⟨rhs', hrhs', -, hlhs'⟩ := (verifyPodp_true _).mp hv'
  obtain rfl : rhs = rhs' := Except.ok.inj (hrhs.symm.trans hrhs')
  exact podpLhs_injective hY hY' hdot hc hc0 hlhs hlhs'

/-! ## The group loop -/

/-- The loop: groups whose claims are opened are accepted by the claim-bound groups, with the same
outcome. -/
theorem claimBoundGroups_of_claimsOpened {proof : GKRProof} {desc : DAGCircuitDescription}
    {targetLayer : ℕ} {dagProof : DAGInputLayerProof} {claimPoints : List (List ℕ)}
    {plan : EvalPlan} {gens : PedersenGens} {groups : List (List ℕ × ℕ)} {s : Sponge}
    {out : List GroupRun × Sponge}
    (h : verifyGroups zkmlBackend dagProof claimPoints plan gens groups s = .ok out)
    (hopened : ∀ run ∈ out.1, ClaimsOpened proof desc targetLayer run) :
    claimBoundGroups proof desc targetLayer dagProof claimPoints plan gens groups s = .ok out := by
  induction groups generalizing s out with
  | nil =>
    rw [(verifyGroups_nil zkmlBackend).mp h]
    rfl
  | cons group rest ih =>
    obtain ⟨run, s₁, runs, hrun, hruns, hout⟩ := (verifyGroups_cons zkmlBackend).mp h
    rw [hout] at hopened
    obtain ⟨comEval, podp, hcom, hpodp, rfl, hgroup, hs₁⟩ :=
      (verifyOneEvalGroup_eq_ok zkmlBackend).mp hrun
    obtain ⟨commitments, hcommitments, hclaim⟩ := hopened run List.mem_cons_self
    have hopen : openingHolds zkmlBackend dagProof.commitmentRows podp run.comEval run.lCoeffs
        run.rCoeffs run.podpChallenge gens = .ok true := by
      rw [hgroup.podpChallenge_eq]
      exact hgroup.opening
    have hbound : claimBoundGroup proof desc targetLayer dagProof claimPoints plan gens group.2
        group.1 s = .ok (run, s₁) := (claimBoundGroup_of_opened hcom hpodp hgroup hs₁).mpr
      ⟨⟨commitments, run.comEval, hcommitments, hclaim, hopen⟩, rfl⟩
    have hrest := ih hruns fun run hmem => hopened run (List.mem_cons_of_mem _ hmem)
    simp only [claimBoundGroups, hbound, ok_bind, hrest]
    rw [pure_eq_ok, ← hout]

/-- The loop: claim-bound groups with nonzero challenges are groups whose claims are opened, with
the same outcome. -/
theorem claimsOpened_of_claimBoundGroups {proof : GKRProof} {desc : DAGCircuitDescription}
    {targetLayer : ℕ} {dagProof : DAGInputLayerProof} {dagInputProofs : List DAGInputLayerProof}
    (hmem : dagProof ∈ dagInputProofs) (hpoints : PointsOnCurve proof dagInputProofs)
    {claimPoints : List (List ℕ)} {plan : EvalPlan} {gens : PedersenGens}
    {groups : List (List ℕ × ℕ)} {s : Sponge} {out out' : List GroupRun × Sponge}
    (h : verifyGroups zkmlBackend dagProof claimPoints plan gens groups s = .ok out)
    (hne : ∀ ch ∈ (groupTranscripts zkmlBackend dagProof groups s).1, ch.podpChallenge ≠ 0)
    (hbound : claimBoundGroups proof desc targetLayer dagProof claimPoints plan gens groups s =
      .ok out') :
    (∀ run ∈ out.1, ClaimsOpened proof desc targetLayer run) ∧ out = out' := by
  induction groups generalizing s out out' with
  | nil =>
    obtain rfl := (verifyGroups_nil zkmlBackend).mp h
    rw [claimBoundGroups, pure_eq_ok] at hbound
    exact ⟨by simp, hbound⟩
  | cons group rest ih =>
    obtain ⟨run, s₁, runs, hrun, hruns, hout⟩ := (verifyGroups_cons zkmlBackend).mp h
    obtain ⟨comEval, podp, hcom, hpodp, rfl, hgroup, hs₁⟩ :=
      (verifyOneEvalGroup_eq_ok zkmlBackend).mp hrun
    simp only [groupTranscripts, hcom, hpodp, List.mem_cons, forall_eq_or_imp] at hne
    simp only [claimBoundGroups, bind_eq_ok, pure_eq_ok] at hbound
    obtain ⟨⟨run', s₁'⟩, hgroup', ⟨runs', s''⟩, hruns', rfl⟩ := hbound
    obtain ⟨⟨commitments, claim, hcommitments, hclaim, hopen⟩, hsame⟩ :=
      (claimBoundGroup_of_opened hcom hpodp hgroup hs₁).mp hgroup'
    obtain ⟨rfl, rfl⟩ := Prod.mk.inj hsame
    obtain ⟨hrest, heq⟩ := ih hruns (fun ch hch => hne.2 ch (hs₁ ▸ hch)) hruns'
    have hcoeffs : ∀ c ∈ run'.rlcCoeffs, c < FR_MOD := by
      rw [hgroup.rlcCoeffs_eq]
      exact fun c hc => mem_challenges_lt hc
    have hopen₀ := hgroup.opening
    rw [← hgroup.podpChallenge_eq] at hopen₀ hne
    have hlt : run'.podpChallenge < FR_MOD := by
      rw [hgroup.podpChallenge_eq, groupChallenges_podpChallenge]
      exact challenge_lt _
    obtain rfl : run'.comEval = claim := openingHolds_unique
      (hpoints.comEvals dagProof hmem _ (List.mem_of_getElem? hcom))
      (groupClaim_onCurve hpoints.commitments hcommitments hcoeffs hclaim)
      (hpoints.commitDDotA dagProof hmem podp (List.mem_of_getElem? hpodp)) hlt hne.1 hopen₀ hopen
    refine ⟨?_, Prod.ext ?_ ?_⟩
    · rw [hout]
      intro r hr
      rcases List.mem_cons.mp hr with rfl | hr
      · exact ⟨commitments, hcommitments, hclaim⟩
      · exact hrest r hr
    · rw [hout]
      exact congrArg (run' :: ·) (congrArg Prod.fst heq)
    · have hsnd := congrArg Prod.snd heq
      exact hsnd

/-! ## The input loop -/

/-- All groups of an input layer have their claims opened. -/
def LayerOpened (proof : GKRProof) (desc : DAGCircuitDescription) (inputIdx : ℕ)
    (runs : List GroupRun) : Prop :=
  ∀ run ∈ runs, ClaimsOpened proof desc (desc.numComputeLayers + inputIdx) run

/-- The loop: it appends the group runs of one layer after the other; if their claims are opened
then the claim-bound loop comes out with the same state. -/
theorem claimBoundInputs_of_opened {proof : GKRProof} {desc : DAGCircuitDescription}
    {gens : PedersenGens} {allBindings : List (List ℕ)} {input : InputData} {is : List ℕ}
    {st st' : InputState}
    (h : is.foldlM (verifyInputLayer zkmlBackend proof desc gens allBindings input) st =
      .ok st') :
    ∃ runs, st'.groupRuns = st.groupRuns ++ runs ∧ runs.length = is.length ∧
      (List.Forall₂ (LayerOpened proof desc) is runs →
        is.foldlM (claimBoundInputLayer proof desc gens allBindings input) st = .ok st') := by
  induction is generalizing st with
  | nil =>
    rw [List.foldlM_nil, pure_eq_ok] at h
    subst h
    exact ⟨[], by simp, rfl, fun _ => rfl⟩
  | cons i is ih =>
    rw [List.foldlM_cons, bind_eq_ok] at h
    obtain ⟨st₁, hstep, hrest⟩ := h
    obtain ⟨runs, hruns, hlen, hbound⟩ := ih hrest
    obtain ⟨claimPoints, hclaims, ⟨hcommitted, dagProof, plan, groupRuns, s, hproof, hplan, hgroups,
      rfl⟩ | ⟨hcommitted, next, hnext, rfl⟩⟩ := (verifyInputLayer_eq_ok zkmlBackend).mp hstep
    · refine ⟨groupRuns :: runs, by rw [hruns, List.append_assoc]; rfl, by simp [hlen], ?_⟩
      intro hopened
      obtain ⟨hfirst, hothers⟩ := List.forall₂_cons.mp hopened
      have hlayer : claimBoundInputLayer proof desc gens allBindings input st i =
          .ok ⟨st.dagInputIdx + 1, st.pubClaimIdx, st.groupRuns ++ [groupRuns], s⟩ := by
        simp only [claimBoundInputLayer, getIdx_eq_ok.mpr hcommitted, getIdx_eq_ok.mpr hproof,
          ok_bind, ↓reduceIte, hclaims, hplan, claimBoundGroups_of_claimsOpened hgroups hfirst]
        rfl
      rw [List.foldlM_cons, hlayer]
      exact hbound hothers
    · refine ⟨[] :: runs, by rw [hruns, List.append_assoc]; rfl, by simp [hlen], ?_⟩
      intro hopened
      have hlayer : claimBoundInputLayer proof desc gens allBindings input st i =
          .ok ⟨st.dagInputIdx, next, st.groupRuns ++ [[]], st.sponge⟩ := by
        simp only [claimBoundInputLayer, getIdx_eq_ok.mpr hcommitted, ok_bind, Bool.false_eq_true,
          ↓reduceIte, hstep]
      rw [List.foldlM_cons, hlayer]
      exact hbound (List.forall₂_cons.mp hopened).2

/-- The loop: claim-bound input layers with nonzero challenges have their claims opened. -/
theorem opened_of_claimBoundInputs {proof : GKRProof} {desc : DAGCircuitDescription}
    {gens : PedersenGens} {allBindings : List (List ℕ)} {input : InputData}
    (hpoints : PointsOnCurve proof input.dagInputProofs) {is : List ℕ} {st st' st'' : InputState}
    (h : is.foldlM (verifyInputLayer zkmlBackend proof desc gens allBindings input) st =
      .ok st')
    (hne : ∀ ch ∈ inputTranscripts zkmlBackend desc allBindings input.dagInputProofs is
      st.dagInputIdx st.sponge, ch.podpChallenge ≠ 0)
    (hbound : is.foldlM (claimBoundInputLayer proof desc gens allBindings input) st = .ok st'') :
    ∃ runs, st'.groupRuns = st.groupRuns ++ runs ∧
      List.Forall₂ (LayerOpened proof desc) is runs := by
  induction is generalizing st with
  | nil =>
    rw [List.foldlM_nil, pure_eq_ok] at h
    subst h
    exact ⟨[], by simp, List.Forall₂.nil⟩
  | cons i is ih =>
    rw [List.foldlM_cons, bind_eq_ok] at h hbound
    obtain ⟨st₁, hstep, hrest⟩ := h
    obtain ⟨st₂, hlayer, hbound⟩ := hbound
    obtain ⟨claimPoints, hclaims, ⟨hcommitted, dagProof, plan, groupRuns, s, hproof, hplan, hgroups,
      rfl⟩ | ⟨hcommitted, next, hnext, rfl⟩⟩ := (verifyInputLayer_eq_ok zkmlBackend).mp hstep
    · simp only [claimBoundInputLayer, getIdx_eq_ok.mpr hcommitted, getIdx_eq_ok.mpr hproof,
        ok_bind, ↓reduceIte, hclaims, hplan, bind_eq_ok, pure_eq_ok] at hlayer
      obtain ⟨⟨groupRuns', s'⟩, hgroups', rfl⟩ := hlayer
      simp only [inputTranscripts, hcommitted, ↓reduceIte, hclaims, hproof, hplan,
        List.mem_append] at hne
      obtain ⟨hopened, heq⟩ := claimsOpened_of_claimBoundGroups (List.mem_of_getElem? hproof)
        hpoints hgroups (fun ch hch => hne ch (.inl hch)) hgroups'
      obtain ⟨rfl, rfl⟩ := Prod.mk.inj heq
      have hsponge := verifyGroups_sponge zkmlBackend hgroups
      obtain ⟨runs, hruns, hrunsOpened⟩ :=
        ih hrest (fun ch hch => hne ch (.inr (hsponge ▸ hch))) hbound
      refine ⟨groupRuns :: runs, ?_, List.Forall₂.cons hopened hrunsOpened⟩
      rw [hruns, List.append_assoc]
      rfl
    · simp only [claimBoundInputLayer, getIdx_eq_ok.mpr hcommitted, ok_bind, Bool.false_eq_true,
        ↓reduceIte, hstep, Except.ok.injEq] at hlayer
      subst hlayer
      simp only [inputTranscripts, hcommitted, Option.some.injEq, Bool.false_eq_true,
        ↓reduceIte] at hne
      obtain ⟨runs, hruns, hrunsOpened⟩ := ih hrest hne hbound
      refine ⟨[] :: runs, ?_, List.Forall₂.cons (fun _ h => absurd h List.not_mem_nil) hrunsOpened⟩
      rw [hruns, List.append_assoc]
      rfl

/-- Every eval group of every input layer opens the combination of the claims on it. -/
def OpeningsBound (proof : GKRProof) (desc : DAGCircuitDescription) (st : InputState) : Prop :=
  ∀ inputIdx < desc.numInputLayers, ∃ runs, st.groupRuns[inputIdx]? = some runs ∧
    LayerOpened proof desc inputIdx runs

/-- The input phase with claim-bound openings. -/
def claimBoundInputs (proof : GKRProof) (desc : DAGCircuitDescription) (gens : PedersenGens)
    (allBindings : List (List ℕ)) (input : InputData) (s : Sponge) : Checked InputState :=
  (List.range desc.numInputLayers).foldlM
    (claimBoundInputLayer proof desc gens allBindings input) ⟨0, 0, [], s⟩

private theorem forall₂_range_iff {proof : GKRProof} {desc : DAGCircuitDescription}
    {runs : List (List GroupRun)} {n : ℕ} (hlen : runs.length = n) :
    List.Forall₂ (LayerOpened proof desc) (List.range n) runs ↔
      ∀ i < n, ∃ layer, runs[i]? = some layer ∧ LayerOpened proof desc i layer := by
  rw [List.forall₂_iff_get]
  constructor
  · rintro ⟨-, h⟩ i hi
    have hi' : i < runs.length := hlen ▸ hi
    refine ⟨runs[i], List.getElem?_eq_getElem hi', ?_⟩
    simpa using h i (by simpa using hi) hi'
  · intro h
    refine ⟨by rw [List.length_range, hlen], ?_⟩
    intro i h₁ h₂
    obtain ⟨layer, hlayer, hopened⟩ := h i (hlen ▸ h₂)
    rw [List.getElem?_eq_getElem h₂, Option.some.injEq] at hlayer
    subst hlayer
    simpa using hopened

/-- One atom without coordinates, routed from layer 0 to the committed input. -/
def oneClaimDesc : DAGCircuitDescription :=
  ⟨1, 1, [0], [0], [0, 1], [1], [0], [0, 0], [], [true], [0, 0], [], []⟩

/-- A proof whose only layer carries the claim's commitment. -/
def oneClaimProof (commitment : G1Point) : GKRProof :=
  ⟨[], [⟨⟨G1Point.INFINITY, [], ⟨G1Point.INFINITY, G1Point.INFINITY, [], 0, 0⟩⟩, [commitment], []⟩]⟩

/-- One row and one opening, all at infinity. -/
def infinityOpening : InputData :=
  ⟨[], [⟨[G1Point.INFINITY], [⟨G1Point.INFINITY, G1Point.INFINITY, [0], 0, 0⟩],
    [G1Point.INFINITY]⟩], []⟩

def infinityGens : PedersenGens := ⟨[G1Point.INFINITY], G1Point.INFINITY, G1Point.INFINITY⟩

end WorldZk.OpeningBinding
