import WorldZk.InputLayers

/-!
# Transcript and checks of an eval group, apart

As for the compute layers: the challenges of a committed input depend on the proof's commitments
and responses only, and each group's check is a function of its challenges.
-/

namespace WorldZk.InputLayers

open CheckedRuns PoseidonSponge ProofTypes VerifierBackend CommittedSumcheck DagLayers

variable (b : Backend)

/-- The challenges that one eval group draws, and the sponge after it. -/
structure GroupChallenges where
  rlcCoeffs : List ℕ
  podpChallenge : ℕ
  sponge : Sponge
deriving DecidableEq, Repr

/-- The transcript of one eval group. -/
def groupChallenges (numClaims : ℕ) (comEval : G1Point) (podp : PODPProof) (s : Sponge) :
    GroupChallenges :=
  let coeffs := challenges b numClaims s
  let t := absorbPodp b podp (absorbPoint b coeffs.2 comEval)
  ⟨coeffs.1, t.1, t.2⟩

theorem groupChallenges_podpChallenge (numClaims : ℕ) (comEval : G1Point) (podp : PODPProof)
    (s : Sponge) : (groupChallenges b numClaims comEval podp s).podpChallenge =
      (challenge b (absorbPoint b (absorbPoint b (absorbPoint b (challenges b numClaims s).2 comEval)
        podp.commitD) podp.commitDDotA)).1 := rfl

/-- The row and column coefficients of a group. -/
def groupTensors (claimPoints : List (List ℕ)) (lHalfLen logNCols : ℕ) (group rlcCoeffs : List ℕ) :
    Checked (List ℕ × List ℕ) := do
  let groupPoints ← group.mapM (getIdx claimPoints)
  let lCoeffs ← computeRlcTensor b groupPoints lHalfLen rlcCoeffs
  let firstPoint ← getIdx groupPoints 0
  let rVars ← (List.range' lHalfLen logNCols).mapM (getIdx firstPoint)
  let rCoeffs ← initializeTensor b rVars
  pure (lCoeffs, rCoeffs)

/-- The opening of the combined rows to the commitment `comY`. -/
def openingHolds (rows : List G1Point) (podp : PODPProof) (comY : G1Point)
    (lCoeffs rCoeffs : List ℕ) (c : ℕ) (gens : PedersenGens) : Checked Bool := do
  b.checkEvaluation rows.length lCoeffs.length podp.zVector.length rCoeffs.length
  let comX ← multiScalarMul b rows lCoeffs
  verifyPodp b podp c comX comY rCoeffs gens

/-- What an accepted eval group amounts to, for an opening to `comY`. -/
structure GroupOpened (dagProof : DAGInputLayerProof) (claimPoints : List (List ℕ))
    (lHalfLen logNCols : ℕ) (gens : PedersenGens) (group : List ℕ) (podp : PODPProof)
    (comY : G1Point) (ch : GroupChallenges) (run : GroupRun) : Prop where
  claims_eq : run.claims = group
  rlcCoeffs_eq : run.rlcCoeffs = ch.rlcCoeffs
  podpChallenge_eq : run.podpChallenge = ch.podpChallenge
  tensors : groupTensors b claimPoints lHalfLen logNCols group ch.rlcCoeffs =
    .ok (run.lCoeffs, run.rCoeffs)
  opening : openingHolds b dagProof.commitmentRows podp comY run.lCoeffs run.rCoeffs
    ch.podpChallenge gens = .ok true

/-- A group is accepted exactly when its rows open to its evaluation commitment. -/
theorem verifyOneEvalGroup_eq_ok {dagProof : DAGInputLayerProof} {claimPoints : List (List ℕ)}
    {lHalfLen logNCols : ℕ} {gens : PedersenGens} {g : ℕ} {group : List ℕ} {s s' : Sponge}
    {run : GroupRun} :
    verifyOneEvalGroup b dagProof claimPoints lHalfLen logNCols gens g group s = .ok (run, s') ↔
      ∃ comEval podp, dagProof.comEvals[g]? = some comEval ∧ dagProof.podps[g]? = some podp ∧
        run.comEval = comEval ∧
        GroupOpened b dagProof claimPoints lHalfLen logNCols gens group podp comEval
          (groupChallenges b group.length comEval podp s) run ∧
        s' = (groupChallenges b group.length comEval podp s).sponge := by
  constructor
  · intro h
    simp only [verifyOneEvalGroup, bind_eq_ok, getIdx_eq_ok, require_eq_ok, pure_eq_ok] at h
    obtain ⟨points, hpoints, lCoeffs, hl, first, hfirst, rVars, hvars, rCoeffs, hr, comEval, hcom,
      podp, hpodp, _, hcheck, comX, hmsm, valid, hvalid, _, rfl, hrun⟩ := h
    obtain ⟨rfl, rfl⟩ := Prod.mk.inj hrun
    refine ⟨comEval, podp, hcom, hpodp, rfl, ⟨rfl, rfl, rfl, ?_, ?_⟩, rfl⟩
    · simp only [groupTensors, bind_eq_ok, getIdx_eq_ok, pure_eq_ok]
      exact ⟨points, hpoints, lCoeffs, hl, first, hfirst, rVars, hvars, rCoeffs, hr, rfl⟩
    · simp only [openingHolds, bind_eq_ok]
      exact ⟨(), hcheck, comX, hmsm, hvalid⟩
  · rintro ⟨comEval, podp, hcom, hpodp, hcomEval, ⟨hclaims, hcoeffs, hch, htensors, hopen⟩, rfl⟩
    obtain ⟨claims, comEval', rlcCoeffs, lCoeffs, rCoeffs, podpChallenge⟩ := run
    simp only at hcomEval hclaims hcoeffs hch htensors hopen
    subst hcomEval hclaims hcoeffs hch
    simp only [groupTensors, bind_eq_ok, getIdx_eq_ok, pure_eq_ok, Prod.mk.injEq] at htensors
    obtain ⟨points, hpoints, lCoeffs', hl, first, hfirst, rVars, hvars, rCoeffs', hr, rfl, rfl⟩ :=
      htensors
    simp only [openingHolds, bind_eq_ok] at hopen
    obtain ⟨_, hcheck, comX, hmsm, hvalid⟩ := hopen
    simp only [verifyOneEvalGroup, bind_eq_ok, getIdx_eq_ok, require_eq_ok, pure_eq_ok]
    exact ⟨points, hpoints, _, hl, first, hfirst, rVars, hvars, _, hr, _, hcom, podp,
      hpodp, (), hcheck, comX, hmsm, true, hvalid, (), rfl, rfl⟩

theorem verifyGroups_nil {dagProof : DAGInputLayerProof} {claimPoints : List (List ℕ)}
    {plan : EvalPlan} {gens : PedersenGens} {s : Sponge} {out : List GroupRun × Sponge} :
    verifyGroups b dagProof claimPoints plan gens [] s = .ok out ↔ out = ([], s) := by
  rw [verifyGroups, pure_eq_ok]
  exact eq_comm

theorem verifyGroups_cons {dagProof : DAGInputLayerProof} {claimPoints : List (List ℕ)}
    {plan : EvalPlan} {gens : PedersenGens} {group : List ℕ} {g : ℕ} {rest : List (List ℕ × ℕ)}
    {s : Sponge} {out : List GroupRun × Sponge} :
    verifyGroups b dagProof claimPoints plan gens ((group, g) :: rest) s = .ok out ↔
      ∃ run s₁ runs, verifyOneEvalGroup b dagProof claimPoints plan.lHalfLen plan.logNCols gens g
          group s = .ok (run, s₁) ∧
        verifyGroups b dagProof claimPoints plan gens rest s₁ = .ok (runs, out.2) ∧
        out.1 = run :: runs := by
  simp only [verifyGroups, bind_eq_ok, pure_eq_ok]
  constructor
  · rintro ⟨⟨run, s₁⟩, hrun, ⟨runs, s'⟩, hruns, rfl⟩
    exact ⟨run, s₁, runs, hrun, hruns, rfl⟩
  · rintro ⟨run, s₁, runs, hrun, hruns, hout⟩
    refine ⟨(run, s₁), hrun, (runs, out.2), hruns, ?_⟩
    rw [← hout]

/-- The loop over two lists of groups is one loop after the other. -/
theorem verifyGroups_append {dagProof : DAGInputLayerProof} {claimPoints : List (List ℕ)}
    {plan : EvalPlan} {gens : PedersenGens} {gs hs : List (List ℕ × ℕ)} {s : Sponge}
    {out : List GroupRun × Sponge} :
    verifyGroups b dagProof claimPoints plan gens (gs ++ hs) s = .ok out ↔
      ∃ runs s₁ runs', verifyGroups b dagProof claimPoints plan gens gs s = .ok (runs, s₁) ∧
        verifyGroups b dagProof claimPoints plan gens hs s₁ = .ok (runs', out.2) ∧
        out.1 = runs ++ runs' := by
  induction gs generalizing s out with
  | nil =>
    rw [List.nil_append]
    constructor
    · exact fun h => ⟨[], s, out.1, rfl, h, rfl⟩
    · rintro ⟨runs, s₁, runs', hnil, h, hout⟩
      obtain ⟨rfl, rfl⟩ : runs = [] ∧ s₁ = s := by simpa using (verifyGroups_nil b).mp hnil
      rw [List.nil_append] at hout
      rw [h, ← hout]
  | cons g gs ih =>
    rw [List.cons_append, verifyGroups_cons]
    constructor
    · rintro ⟨run, s₁, rest, hrun, hrest, hout⟩
      obtain ⟨runs, s₂, runs', hgs, hhs, happ⟩ := ih.mp hrest
      refine ⟨run :: runs, s₂, runs', ?_, hhs, ?_⟩
      · exact (verifyGroups_cons b).mpr ⟨run, s₁, runs, hrun, hgs, rfl⟩
      · rw [hout, List.cons_append]
        exact congrArg (run :: ·) happ
    · rintro ⟨runs₀, s₂, runs', hcons, hhs, hout⟩
      obtain ⟨run, s₁, runs, hrun, hgs, rfl⟩ := (verifyGroups_cons b).mp hcons
      exact ⟨run, s₁, runs ++ runs', hrun, ih.mpr ⟨runs, s₂, runs', hgs, hhs, rfl⟩, hout⟩

/-! ## One group for each claim -/

private theorem length_insertClaim (claimPoints : List (List ℕ)) (key : ℕ) (xs : List ℕ) :
    (insertClaim claimPoints key xs).length = xs.length + 1 := by
  induction xs with
  | nil => rfl
  | cons x xs ih =>
    unfold insertClaim
    split
    · rw [List.length_cons, ih, List.length_cons]
    · rfl

theorem length_sortClaimIndices (claimPoints : List (List ℕ)) :
    (sortClaimIndices claimPoints).length = claimPoints.length := by
  have hfold : ∀ (keys acc : List ℕ),
      (keys.foldl (fun rev key => insertClaim claimPoints key rev) acc).length =
        acc.length + keys.length := by
    intro keys
    induction keys with
    | nil => intro acc; rfl
    | cons key keys ih =>
      intro acc
      rw [List.foldl_cons, ih, length_insertClaim, List.length_cons]
      omega
  rw [sortClaimIndices, List.length_reverse, hfold, List.length_range, List.length_nil, zero_add]

private theorem length_addToMatchingGroup {claimPoints : List (List ℕ)} {logNCols claimIdx : ℕ}
    {groups groups' : List (List ℕ)}
    (h : addToMatchingGroup claimPoints logNCols claimIdx groups = .ok groups') :
    groups'.length = groups.length := by
  induction groups generalizing groups' with
  | nil =>
    rw [addToMatchingGroup, pure_eq_ok] at h
    rw [← h]
  | cons g gs ih =>
    simp only [addToMatchingGroup, bind_eq_ok] at h
    obtain ⟨same, -, h⟩ := h
    split at h
    · rw [pure_eq_ok] at h
      rw [← h, List.length_cons, List.length_cons]
    · simp only [bind_eq_ok, pure_eq_ok] at h
      obtain ⟨rest, hrest, rfl⟩ := h
      rw [List.length_cons, List.length_cons, ih hrest]

theorem length_groupClaimsByRHalf {claimPoints : List (List ℕ)} {sortedIndices : List ℕ}
    {logNCols : ℕ} {groups : List (List ℕ)}
    (h : groupClaimsByRHalf claimPoints sortedIndices logNCols = .ok groups) :
    groups.length = sortedIndices.length := by
  have hfold : ∀ (keys : List ℕ) (acc acc' : List (List ℕ)),
      keys.foldlM (fun groups claimIdx => do
        let groups ← addToMatchingGroup claimPoints logNCols claimIdx groups
        pure (groups ++ [[claimIdx]])) acc = (.ok acc' : Checked (List (List ℕ))) →
      acc'.length = acc.length + keys.length := by
    intro keys
    induction keys with
    | nil =>
      intro acc acc' h
      rw [List.foldlM_nil, pure_eq_ok] at h
      rw [← h, List.length_nil, add_zero]
    | cons key keys ih =>
      intro acc acc' h
      simp only [List.foldlM_cons, bind_eq_ok, pure_eq_ok] at h
      obtain ⟨_, ⟨groups, hgroups, rfl⟩, hrest⟩ := h
      rw [ih _ _ hrest, List.length_append, length_addToMatchingGroup hgroups,
        List.length_singleton, List.length_cons]
      omega
  simpa using hfold sortedIndices [] groups h

/-- The comment of `_groupClaimsByRHalf`: the number of groups is the number of claims, always. -/
theorem length_sortAndGroupClaims {dagProof : DAGInputLayerProof} {claimPoints : List (List ℕ)}
    {plan : EvalPlan} (h : sortAndGroupClaims dagProof claimPoints = .ok plan) :
    plan.groups.length = claimPoints.length := by
  simp only [sortAndGroupClaims, bind_eq_ok, pure_eq_ok] at h
  obtain ⟨_, -, _, -, _, -, groups, hgroups, rfl⟩ := h
  rw [length_groupClaimsByRHalf hgroups, length_sortClaimIndices]

theorem evalPlan_eq_ok {dagProof : DAGInputLayerProof} {claimPoints : List (List ℕ)}
    {plan : EvalPlan} :
    evalPlan dagProof claimPoints = .ok plan ↔
      sortAndGroupClaims dagProof claimPoints = .ok plan ∧
        plan.groups.length = dagProof.podps.length := by
  simp only [evalPlan, bind_eq_ok, pure_eq_ok, require_eq_ok, beq_iff_eq]
  constructor
  · rintro ⟨plan', hplan, _, hcount, rfl⟩
    exact ⟨hplan, hcount⟩
  · rintro ⟨hplan, hcount⟩
    exact ⟨plan, hplan, (), hcount, rfl⟩

theorem length_evalPlan_groups {dagProof : DAGInputLayerProof} {claimPoints : List (List ℕ)}
    {plan : EvalPlan} (h : evalPlan dagProof claimPoints = .ok plan) :
    plan.groups.length = claimPoints.length :=
  length_sortAndGroupClaims (evalPlan_eq_ok.mp h).1

/-! ## Transcripts -/

/-- The challenges of the eval groups in the list, one transcript after the other, and the sponge
after them. -/
def groupTranscripts (dagProof : DAGInputLayerProof) :
    List (List ℕ × ℕ) → Sponge → List GroupChallenges × Sponge
  | [], s => ([], s)
  | (group, g) :: rest, s =>
    match dagProof.comEvals[g]?, dagProof.podps[g]? with
    | some comEval, some podp =>
      let ch := groupChallenges b group.length comEval podp s
      let t := groupTranscripts dagProof rest ch.sponge
      (ch :: t.1, t.2)
    | _, _ => ([], s)

theorem verifyGroups_sponge {dagProof : DAGInputLayerProof} {claimPoints : List (List ℕ)}
    {plan : EvalPlan} {gens : PedersenGens} {groups : List (List ℕ × ℕ)} {s : Sponge}
    {out : List GroupRun × Sponge}
    (h : verifyGroups b dagProof claimPoints plan gens groups s = .ok out) :
    out.2 = (groupTranscripts b dagProof groups s).2 := by
  induction groups generalizing s out with
  | nil => rw [(verifyGroups_nil b).mp h]; rfl
  | cons group rest ih =>
    obtain ⟨run, s₁, runs, hrun, hruns, -⟩ := (verifyGroups_cons b).mp h
    obtain ⟨comEval, podp, hcom, hpodp, -, -, rfl⟩ := (verifyOneEvalGroup_eq_ok b).mp hrun
    simp only [groupTranscripts, hcom, hpodp]
    have hrest := ih hruns
    exact hrest

/-- An input layer is a run of eval groups or a run of public claims. -/
theorem verifyInputLayer_eq_ok {proof : GKRProof} {desc : DAGCircuitDescription}
    {gens : PedersenGens} {allBindings : List (List ℕ)} {input : InputData} {st st' : InputState}
    {inputIdx : ℕ} :
    verifyInputLayer b proof desc gens allBindings input st inputIdx = .ok st' ↔
      ∃ claimPoints,
        collectClaimPoints b desc allBindings (desc.numComputeLayers + inputIdx) =
          .ok claimPoints ∧
        ((desc.inputIsCommitted[inputIdx]? = some true ∧
          ∃ dagProof plan runs s, input.dagInputProofs[st.dagInputIdx]? = some dagProof ∧
            evalPlan dagProof claimPoints = .ok plan ∧
            verifyGroups b dagProof claimPoints plan gens plan.groups.zipIdx st.sponge =
              .ok (runs, s) ∧
            st' = ⟨st.dagInputIdx + 1, st.pubClaimIdx, st.groupRuns ++ [runs], s⟩) ∨
        (desc.inputIsCommitted[inputIdx]? = some false ∧
          ∃ next, verifyPublicInputClaims b proof desc gens claimPoints
              (desc.numComputeLayers + inputIdx) st.pubClaimIdx input.publicInputs
              input.publicValueClaims = .ok next ∧
            st' = ⟨st.dagInputIdx, next, st.groupRuns ++ [[]], st.sponge⟩)) := by
  simp only [verifyInputLayer, verifyCommittedInputBatchEval, bind_eq_ok, getIdx_eq_ok]
  constructor
  · rintro ⟨claimPoints, hpoints, committed, hcommitted, h⟩
    refine ⟨claimPoints, hpoints, ?_⟩
    cases committed with
    | true =>
      simp only [↓reduceIte, bind_eq_ok, getIdx_eq_ok, pure_eq_ok] at h
      obtain ⟨dagProof, hproof, ⟨runs, s⟩, ⟨plan, hplan, hgroups⟩, rfl⟩ := h
      exact .inl ⟨hcommitted, dagProof, plan, runs, s, hproof, hplan, hgroups, rfl⟩
    | false =>
      simp only [Bool.false_eq_true, ↓reduceIte, bind_eq_ok, pure_eq_ok] at h
      obtain ⟨next, hnext, rfl⟩ := h
      exact .inr ⟨hcommitted, next, hnext, rfl⟩
  · rintro ⟨claimPoints, hpoints, ⟨hcommitted, dagProof, plan, runs, s, hproof, hplan, hgroups,
      rfl⟩ | ⟨hcommitted, next, hnext, rfl⟩⟩
    · refine ⟨claimPoints, hpoints, true, hcommitted, ?_⟩
      simp only [↓reduceIte, bind_eq_ok, getIdx_eq_ok, pure_eq_ok]
      exact ⟨dagProof, hproof, (runs, s), ⟨plan, hplan, hgroups⟩, rfl⟩
    · refine ⟨claimPoints, hpoints, false, hcommitted, ?_⟩
      simp only [Bool.false_eq_true, ↓reduceIte, bind_eq_ok, pure_eq_ok]
      exact ⟨next, hnext, rfl⟩

/-- The challenges of all eval groups of the input layers in `is`, replayed from the sponge. -/
def inputTranscripts (desc : DAGCircuitDescription) (allBindings : List (List ℕ))
    (dagInputProofs : List DAGInputLayerProof) : List ℕ → ℕ → Sponge → List GroupChallenges
  | [], _, _ => []
  | i :: is, dagInputIdx, s =>
    if desc.inputIsCommitted[i]? = some true then
      match collectClaimPoints b desc allBindings (desc.numComputeLayers + i),
          dagInputProofs[dagInputIdx]? with
      | .ok claimPoints, some dagProof =>
        match evalPlan dagProof claimPoints with
        | .ok plan =>
          let t := groupTranscripts b dagProof plan.groups.zipIdx s
          t.1 ++ inputTranscripts desc allBindings dagInputProofs is (dagInputIdx + 1) t.2
        | .error _ => []
      | _, _ => []
    else inputTranscripts desc allBindings dagInputProofs is dagInputIdx s

end WorldZk.InputLayers
