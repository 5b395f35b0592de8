import WorldZk.BatchSessions
import WorldZk.LayerChecks

/-!
# Batch verification against one-transaction verification

Each successful call of a session leaves exactly the checks that the one-transaction verifier
would still have to make. The stored arrays give the bindings back, a batch of layers is a stretch
of the layer loop, and a finalize call is a stretch of the input loop.
-/

namespace WorldZk.BatchRefinement

open CheckedRuns PoseidonSponge ProofTypes VerifierBackend DagLayers InputLayers ProofDecoding
open FlatArrays Transcript SolidityVerifier BatchSessions

/-! ## The stored bindings -/

theorem reconstructBindings_stored {bindings : List (List ℕ)} {outputChallenges : List ℕ} {n : ℕ}
    (hn : bindings.length ≤ n) :
    reconstructBindings (storedBindings bindings outputChallenges) n =
      .ok (bindings ++ List.replicate (n - bindings.length) []) := by
  rw [reconstructBindings, mapM_eq_ok, List.forall₂_iff_get]
  refine ⟨by simp; omega, ?_⟩
  intro i h₁ h₂
  have hi : i < n := by simpa using h₁
  simp only [List.get_eq_getElem, List.getElem_range, storedBindings, length_offsetsFrom,
    List.length_map]
  by_cases hlt : i < bindings.length
  · rw [if_pos (by omega), readSlice_flatten (List.getElem?_eq_getElem hlt),
      List.getElem_append_left hlt]
  · rw [if_neg (by omega), List.getElem_append_right (by omega), List.getElem_replicate]
    rfl

/-! ## Batches of compute layers -/

/-- A batch of layers, whose slots follow the filled ones, is a stretch of the layer loop. -/
theorem verifyComputeLayersBatch_eq_ok {proof : GKRProof} {desc : DAGCircuitDescription}
    {gens : PedersenGens} {outputChallenges : List ℕ} {outputEval : G1Point} {len : ℕ}
    {bindings rest : List (List ℕ)} {s : Sponge} (hrest : len ≤ rest.length)
    {out : List (List ℕ) × Sponge} :
    verifyComputeLayersBatch proof desc gens outputChallenges outputEval
        (List.range' bindings.length len) (bindings ++ rest) s = .ok out ↔
      ∃ runs ctx, processLayers solBackend proof desc gens (List.range' bindings.length len)
          ⟨bindings, outputChallenges, outputEval⟩ s = .ok (runs, ctx, out.2) ∧
        out.1 = ctx.allBindings ++ rest.drop len := by
  induction len generalizing bindings rest s with
  | zero =>
    simp only [List.range'_zero, verifyComputeLayersBatch, pure_eq_ok, processLayers_nil,
      Prod.mk.injEq, List.drop_zero]
    constructor
    · rintro rfl
      exact ⟨[], _, ⟨rfl, rfl, rfl⟩, rfl⟩
    · rintro ⟨runs, ctx, ⟨rfl, rfl, hs⟩, hout⟩
      exact Prod.ext hout.symm hs.symm
  | succ len ih =>
    cases rest with
    | nil => simp at hrest
    | cons slot rest =>
      have hlayer : processOneLayer solBackend bindings.length proof desc gens
          ⟨bindings ++ slot :: rest, outputChallenges, outputEval⟩ s =
            processOneLayer solBackend bindings.length proof desc gens
              ⟨bindings, outputChallenges, outputEval⟩ s :=
        processOneLayer_congr solBackend rfl rfl (by simp)
      simp only [List.range'_succ, verifyComputeLayersBatch, processLayers_cons, bind_eq_ok, hlayer]
      -- the processed layer is the next filled slot of the remaining batch
      have hset : ∀ x : List ℕ, (bindings ++ slot :: rest).set bindings.length x =
          (bindings ++ [x]) ++ rest := by
        intro x
        simp
      have hnext : ∀ x : List ℕ, bindings.length + 1 = (bindings ++ [x]).length := by
        intro x
        simp
      simp only [hset]
      constructor
      · rintro ⟨⟨run, s₁⟩, hrun, hbatch⟩
        simp only [hnext run.bindings] at hbatch
        obtain ⟨runs, ctx, hruns, hout⟩ := (ih (by simpa using hrest)).mp hbatch
        refine ⟨run :: runs, ctx, ⟨run, s₁, runs, hrun, ?_, rfl⟩, hout⟩
        simp only [hnext run.bindings]
        exact hruns
      · rintro ⟨runs₀, ctx, ⟨run, s₁, runs, hrun, hruns, -⟩, hout⟩
        refine ⟨(run, s₁), hrun, ?_⟩
        simp only [hnext run.bindings] at hruns ⊢
        exact (ih (by simpa using hrest)).mpr ⟨runs, ctx, hruns, hout⟩

/-! ## Stretches of the input loop -/

section Inputs

variable (proof : GKRProof) (desc : DAGCircuitDescription) (gens : PedersenGens)
variable (allBindings : List (List ℕ)) (input : InputData)

/-- The input layers from `inputIdx` on are accepted, with `groupsDone` groups of the first of them
already checked. -/
def InputsAccepted : ℕ → ℕ → ℕ → ℕ → ℕ → Sponge → Prop
  | 0, _, _, _, _, _ => True
  | n + 1, inputIdx, groupsDone, dagInputIdx, pubClaimIdx, s =>
    ∃ claimPoints, collectClaimPoints solBackend desc allBindings
        (desc.numComputeLayers + inputIdx) = .ok claimPoints ∧
      ((desc.inputIsCommitted[inputIdx]? = some true ∧
        ∃ dagProof plan out, input.dagInputProofs[dagInputIdx]? = some dagProof ∧
          evalPlan dagProof claimPoints = .ok plan ∧
          verifyGroups solBackend dagProof claimPoints plan gens
            (plan.groups.zipIdx.drop groupsDone) s = .ok out ∧
          InputsAccepted n (inputIdx + 1) 0 (dagInputIdx + 1) pubClaimIdx out.2) ∨
      (desc.inputIsCommitted[inputIdx]? = some false ∧
        ∃ next, verifyPublicInputClaims solBackend proof desc gens claimPoints
            (desc.numComputeLayers + inputIdx) pubClaimIdx input.publicInputs
            input.publicValueClaims = .ok next ∧
          InputsAccepted n (inputIdx + 1) groupsDone dagInputIdx next s))

variable {proof desc gens allBindings input}

/-- The one-transaction input loop. -/
theorem verifyInputLayers_iff {n inputIdx : ℕ} (st : InputState) :
    (∃ st', (List.range' inputIdx n).foldlM
        (verifyInputLayer solBackend proof desc gens allBindings input) st = .ok st') ↔
      InputsAccepted proof desc gens allBindings input n inputIdx 0 st.dagInputIdx st.pubClaimIdx
        st.sponge := by
  induction n generalizing inputIdx st with
  | zero => exact ⟨fun _ => trivial, fun _ => ⟨st, rfl⟩⟩
  | succ n ih =>
    simp only [List.range'_succ, List.foldlM_cons, bind_eq_ok, verifyInputLayer_eq_ok,
      InputsAccepted]
    constructor
    · rintro ⟨st', st₁, ⟨claimPoints, hpoints, ⟨hcommitted, dagProof, plan, runs, s, hproof, hplan,
        hgroups, rfl⟩ | ⟨hpublic, next, hnext, rfl⟩⟩, hrest⟩
      · refine ⟨claimPoints, hpoints, .inl ⟨hcommitted, dagProof, plan, (runs, s), hproof, hplan,
          hgroups, ?_⟩⟩
        have hrec := (ih _).mp ⟨st', hrest⟩
        exact hrec
      · refine ⟨claimPoints, hpoints, .inr ⟨hpublic, next, hnext, ?_⟩⟩
        have hrec := (ih _).mp ⟨st', hrest⟩
        exact hrec
    · rintro ⟨claimPoints, hpoints, ⟨hcommitted, dagProof, plan, ⟨runs, s⟩, hproof, hplan, hgroups,
        hrest⟩ | ⟨hpublic, next, hnext, hrest⟩⟩
      · obtain ⟨st', hst'⟩ :=
          (ih ⟨st.dagInputIdx + 1, st.pubClaimIdx, st.groupRuns ++ [runs], s⟩).mpr hrest
        exact ⟨st', _, ⟨claimPoints, hpoints, .inl ⟨hcommitted, dagProof, plan, runs, s, hproof,
          hplan, hgroups, rfl⟩⟩, hst'⟩
      · obtain ⟨st', hst'⟩ :=
          (ih ⟨st.dagInputIdx, next, st.groupRuns ++ [[]], st.sponge⟩).mpr hrest
        exact ⟨st', _, ⟨claimPoints, hpoints, .inr ⟨hpublic, next, hnext, rfl⟩⟩, hst'⟩

theorem length_collectClaimPoints {targetLayer : ℕ} {claimPoints : List (List ℕ)}
    (h : collectClaimPoints solBackend desc allBindings targetLayer = .ok claimPoints) :
    claimPoints.length = countClaimsFor targetLayer desc := by
  simp only [collectClaimPoints, solBackend, bind_eq_ok, pure_eq_ok, require_eq_ok,
    decide_eq_true_eq] at h
  obtain ⟨_, -, points, -, _, hle, rfl⟩ := h
  rw [List.length_append, List.length_replicate]
  omega

private theorem verifyPublicClaimFromCtx_eq_ok {claimPoint : List ℕ} {commitment : G1Point}
    {claimIdx : ℕ} {u : Unit} :
    verifyPublicClaimFromCtx gens claimPoint commitment claimIdx input = .ok u ↔
      verifyOnePublicClaim solBackend claimPoint commitment claimIdx input.publicInputs
        input.publicValueClaims gens = .ok u := by
  simp only [verifyPublicClaimFromCtx, verifyOnePublicClaim, bind_eq_ok, liftVerifier_eq_ok,
    require_eq_ok, getIdx_eq_ok, decide_eq_true_eq]
  constructor
  · rintro ⟨claim, hclaim, rest⟩
    exact ⟨(), (List.getElem?_eq_some_iff.mp hclaim).1, claim, hclaim, rest⟩
  · rintro ⟨_, -, claim, hclaim, rest⟩
    exact ⟨claim, hclaim, rest⟩

/-- The batch path makes the checks of `_verifyPublicInputClaims`, under its own errors. -/
theorem verifyPublicInputClaimsFromCtx_eq_ok {claimPoints : List (List ℕ)}
    {targetLayer pubClaimStartIdx next : ℕ} :
    verifyPublicInputClaimsFromCtx proof desc gens claimPoints targetLayer pubClaimStartIdx input =
        .ok next ↔
      verifyPublicInputClaims solBackend proof desc gens claimPoints targetLayer pubClaimStartIdx
        input.publicInputs input.publicValueClaims = .ok next := by
  simp only [verifyPublicInputClaimsFromCtx, verifyPublicInputClaims, bind_eq_ok,
    liftVerifier_eq_ok, pure_eq_ok, forM_eq_ok, verifyPublicClaimFromCtx_eq_ok]
  constructor
  · rintro ⟨atoms, hatoms, _, hclaims, rfl⟩
    refine ⟨atoms, hatoms, (), ?_, rfl⟩
    intro ac hac
    obtain ⟨commitment, hcommitment, point, hpoint, hclaim⟩ := hclaims ac hac
    exact ⟨point, hpoint, commitment, hcommitment, hclaim⟩
  · rintro ⟨atoms, hatoms, _, hclaims, rfl⟩
    refine ⟨atoms, hatoms, (), ?_, rfl⟩
    intro ac hac
    obtain ⟨point, hpoint, commitment, hcommitment, hclaim⟩ := hclaims ac hac
    exact ⟨commitment, hcommitment, point, hpoint, hclaim⟩

/-- One turn of the finalize loop. -/
private theorem processInputLayerLoop_succ {n : ℕ} {f : FinalizeStepCtx} {s : Sponge}
    {out : FinalizeStepCtx × Sponge} :
    processInputLayerLoop proof desc gens allBindings input (n + 1) f s = .ok out ↔
      ∃ claimPoints, collectClaimPoints solBackend desc allBindings
          (desc.numComputeLayers + f.inputIdx) = .ok claimPoints ∧
        ((desc.inputIsCommitted[f.inputIdx]? = some true ∧
          ∃ dagProof plan g, input.dagInputProofs[f.dagInputIdx]? = some dagProof ∧
            evalPlan dagProof claimPoints = .ok plan ∧
            verifyGroups solBackend dagProof claimPoints plan gens
              ((plan.groups.zipIdx.take (endGroup f.groupsDone claimPoints.length)).drop f.groupsDone) s =
                .ok g ∧
            if endGroup f.groupsDone claimPoints.length < claimPoints.length then
              out = ({ f with groupsDone := endGroup f.groupsDone claimPoints.length }, g.2)
            else processInputLayerLoop proof desc gens allBindings input n f.afterCommitted g.2 =
              .ok out) ∨
        (desc.inputIsCommitted[f.inputIdx]? = some false ∧
          ∃ next, verifyPublicInputClaims solBackend proof desc gens claimPoints
              (desc.numComputeLayers + f.inputIdx) f.pubClaimIdx input.publicInputs
              input.publicValueClaims = .ok next ∧
            processInputLayerLoop proof desc gens allBindings input n (f.afterPublic next) s =
              .ok out)) := by
  simp only [processInputLayerLoop, bind_eq_ok, liftVerifier_eq_ok, getIdx_eq_ok]
  constructor
  · rintro ⟨committed, hcommitted, h⟩
    cases committed with
    | true =>
      simp only [↓reduceIte, processCommittedInput, verifyCommittedInputGroupsBatch, bind_eq_ok,
        liftVerifier_eq_ok, getIdx_eq_ok] at h
      obtain ⟨⟨needsMore, f₁, s₁⟩, ⟨claimPoints, hpoints, dagProof, hproof, s₂, ⟨plan, hplan, g,
        hgroups, hs₂⟩, hstep⟩, hrest⟩ := h
      rw [pure_eq_ok] at hs₂
      subst hs₂
      refine ⟨claimPoints, hpoints, .inl ⟨hcommitted, dagProof, plan, g, hproof, hplan, hgroups,
        ?_⟩⟩
      split at hstep
      · rw [pure_eq_ok] at hstep
        obtain ⟨rfl, rfl, rfl⟩ : true = needsMore ∧ _ = f₁ ∧ g.2 = s₁ := by simpa using hstep
        rw [if_pos ‹_›]
        simp only [↓reduceIte, pure_eq_ok] at hrest
        exact hrest.symm
      · rw [pure_eq_ok] at hstep
        obtain ⟨rfl, rfl, rfl⟩ : false = needsMore ∧ _ = f₁ ∧ g.2 = s₁ := by simpa using hstep
        rw [if_neg ‹_›]
        simpa only [Bool.false_eq_true, ↓reduceIte] using hrest
    | false =>
      simp only [Bool.false_eq_true, ↓reduceIte, bind_eq_ok, liftVerifier_eq_ok,
        verifyPublicInputClaimsFromCtx_eq_ok] at h
      obtain ⟨claimPoints, hpoints, next, hnext, hrest⟩ := h
      exact ⟨claimPoints, hpoints, .inr ⟨hcommitted, next, hnext, hrest⟩⟩
  · rintro ⟨claimPoints, hpoints, ⟨hcommitted, dagProof, plan, g, hproof, hplan, hgroups, hrest⟩ |
      ⟨hpublic, next, hnext, hrest⟩⟩
    · refine ⟨true, hcommitted, ?_⟩
      simp only [↓reduceIte, processCommittedInput, verifyCommittedInputGroupsBatch, bind_eq_ok,
        liftVerifier_eq_ok, getIdx_eq_ok]
      by_cases hmore : endGroup f.groupsDone claimPoints.length < claimPoints.length
      · rw [if_pos hmore] at hrest
        refine ⟨(true, out), ⟨claimPoints, hpoints, dagProof, hproof, g.2,
          ⟨plan, hplan, g, hgroups, rfl⟩, ?_⟩, rfl⟩
        rw [if_pos hmore, hrest]
        rfl
      · rw [if_neg hmore] at hrest
        refine ⟨(false, _, g.2), ⟨claimPoints, hpoints, dagProof, hproof, g.2,
          ⟨plan, hplan, g, hgroups, rfl⟩, ?_⟩, hrest⟩
        rw [if_neg hmore]
        rfl
    · refine ⟨false, hpublic, ?_⟩
      simp only [Bool.false_eq_true, ↓reduceIte, bind_eq_ok, liftVerifier_eq_ok,
        verifyPublicInputClaimsFromCtx_eq_ok]
      exact ⟨claimPoints, hpoints, next, hnext, hrest⟩

private theorem drop_eq_append {α : Type} (xs : List α) {m n : ℕ} (h : m ≤ n) :
    xs.drop m = (xs.take n).drop m ++ xs.drop n := by
  have hsplit := congrArg (List.drop m) (List.take_append_drop n xs)
  rw [List.drop_append] at hsplit
  rw [← hsplit]
  congr 1
  by_cases hlen : m ≤ (xs.take n).length
  · rw [Nat.sub_eq_zero_of_le hlen, List.drop_zero]
  · have hnil : xs.drop n = [] := by
      rw [List.drop_eq_nil_iff]
      rw [List.length_take] at hlen
      omega
    rw [hnil, List.drop_nil]

private theorem groups_split {dagProof : DAGInputLayerProof} {claimPoints : List (List ℕ)}
    {plan : EvalPlan} (hplan : evalPlan dagProof claimPoints = .ok plan) (groupsDone : ℕ) :
    plan.groups.zipIdx.drop groupsDone =
      (plan.groups.zipIdx.take (endGroup groupsDone claimPoints.length)).drop groupsDone ++
        plan.groups.zipIdx.drop (endGroup groupsDone claimPoints.length) := by
  have hlen := length_evalPlan_groups hplan
  by_cases hle : groupsDone ≤ claimPoints.length
  · exact drop_eq_append _ (by unfold endGroup GROUPS_PER_FINALIZE_BATCH; omega)
  · have hall : endGroup groupsDone claimPoints.length = claimPoints.length := by
      unfold endGroup
      omega
    rw [hall, List.take_of_length_le (by simp [hlen]), List.drop_eq_nil_of_le (by simp; omega)]
    rw [List.drop_eq_nil_of_le (by simp [hlen]), List.nil_append]

/-- A finalize call accepts the groups up to where it stops, and leaves the rest. -/
theorem processInputLayerLoop_iff {n : ℕ} {f : FinalizeStepCtx} (hdone : f.done = false)
    {s : Sponge} :
    InputsAccepted proof desc gens allBindings input n f.inputIdx f.groupsDone f.dagInputIdx
        f.pubClaimIdx s ↔
      ∃ f' s', processInputLayerLoop proof desc gens allBindings input n f s = .ok (f', s') ∧
        (f'.done = false →
          InputsAccepted proof desc gens allBindings input (f.inputIdx + n - f'.inputIdx)
            f'.inputIdx f'.groupsDone f'.dagInputIdx f'.pubClaimIdx s') := by
  induction n generalizing f s with
  | zero => exact ⟨fun _ => ⟨_, s, rfl, fun h => absurd h (by simp)⟩, fun _ => trivial⟩
  | succ n ih =>
    have hlast : ∀ i, f.inputIdx + 1 + n - i = f.inputIdx + (n + 1) - i := fun i => by omega
    have hleft : f.inputIdx + (n + 1) - f.inputIdx = n + 1 := by omega
    constructor
    · rintro ⟨claimPoints, hpoints, ⟨hcommitted, dagProof, plan, out, hproof, hplan, hgroups, hrest⟩ |
        ⟨hpublic, next, hnext, hrest⟩⟩
      · rw [groups_split hplan] at hgroups
        obtain ⟨runs, s₁, runs', hfirst, hsecond, -⟩ := (verifyGroups_append solBackend).mp hgroups
        by_cases hmore : endGroup f.groupsDone claimPoints.length < claimPoints.length
        · refine ⟨{ f with groupsDone := endGroup f.groupsDone claimPoints.length }, s₁,
            processInputLayerLoop_succ.mpr ⟨claimPoints, hpoints, .inl ⟨hcommitted, dagProof, plan,
              _, hproof, hplan, hfirst, by rw [if_pos hmore]⟩⟩, fun _ => ?_⟩
          simp only [hleft]
          exact ⟨claimPoints, hpoints, .inl ⟨hcommitted, dagProof, plan, _, hproof, hplan, hsecond,
            hrest⟩⟩
        · have hnil : plan.groups.zipIdx.drop (endGroup f.groupsDone claimPoints.length) = [] := by
            rw [List.drop_eq_nil_iff, List.length_zipIdx, length_evalPlan_groups hplan]
            omega
          rw [hnil, verifyGroups_nil] at hsecond
          obtain ⟨-, rfl⟩ := Prod.mk.inj hsecond
          obtain ⟨f', s', hloop, hlater⟩ := (ih (f := f.afterCommitted) hdone).mp hrest
          refine ⟨f', s', processInputLayerLoop_succ.mpr ⟨claimPoints, hpoints, .inl ⟨hcommitted,
            dagProof, plan, _, hproof, hplan, hfirst, by rw [if_neg hmore]; exact hloop⟩⟩, ?_⟩
          rw [← hlast]
          exact hlater
      · obtain ⟨f', s', hloop, hlater⟩ := (ih (f := f.afterPublic next) hdone).mp hrest
        refine ⟨f', s', processInputLayerLoop_succ.mpr ⟨claimPoints, hpoints, .inr ⟨hpublic, next,
          hnext, hloop⟩⟩, ?_⟩
        rw [← hlast]
        exact hlater
    · rintro ⟨f', s', hloop, hlater⟩
      obtain ⟨claimPoints, hpoints, ⟨hcommitted, dagProof, plan, g, hproof, hplan, hgroups, hrest⟩ |
        ⟨hpublic, next, hnext, hrest⟩⟩ := processInputLayerLoop_succ.mp hloop
      · by_cases hmore : endGroup f.groupsDone claimPoints.length < claimPoints.length
        · rw [if_pos hmore] at hrest
          obtain ⟨rfl, rfl⟩ := Prod.mk.inj hrest
          have hremaining := hlater hdone
          simp only [hleft] at hremaining
          obtain ⟨claimPoints', hpoints', ⟨-, dagProof', plan', out, hproof', hplan', hsecond,
            haccepted⟩ | ⟨hpublic, -⟩⟩ := hremaining
          · obtain rfl : claimPoints = claimPoints' := Except.ok.inj (hpoints.symm.trans hpoints')
            obtain rfl : dagProof = dagProof' := Option.some.inj (hproof.symm.trans hproof')
            obtain rfl : plan = plan' := Except.ok.inj (hplan.symm.trans hplan')
            refine ⟨claimPoints, hpoints, .inl ⟨hcommitted, dagProof, plan, (g.1 ++ out.1, out.2),
              hproof, hplan, ?_, haccepted⟩⟩
            rw [groups_split hplan]
            exact (verifyGroups_append solBackend).mpr ⟨g.1, g.2, out.1, hgroups, hsecond, rfl⟩
          · exact absurd (hcommitted.symm.trans hpublic) (by simp)
        · rw [if_neg hmore] at hrest
          have haccepted := (ih (f := f.afterCommitted) hdone).mpr
            ⟨f', s', hrest, fun h => (hlast f'.inputIdx).symm ▸ hlater h⟩
          have hnil : plan.groups.zipIdx.drop (endGroup f.groupsDone claimPoints.length) = [] := by
            rw [List.drop_eq_nil_iff, List.length_zipIdx, length_evalPlan_groups hplan]
            omega
          refine ⟨claimPoints, hpoints, .inl ⟨hcommitted, dagProof, plan, g, hproof, hplan, ?_,
            haccepted⟩⟩
          rw [groups_split hplan, hnil, List.append_nil]
          exact hgroups
      · have haccepted := (ih (f := f.afterPublic next) hdone).mpr
          ⟨f', s', hrest, fun h => (hlast f'.inputIdx).symm ▸ hlater h⟩
        exact ⟨claimPoints, hpoints, .inr ⟨hpublic, next, hnext, haccepted⟩⟩

/-! ## The cursors -/

variable (desc) in
/-- The public claims that the one-transaction loop has used up before an input layer: one for
each atom that it scans. -/
def scannedPublicClaims (inputIdx : ℕ) : Checked ℕ :=
  (List.range (min inputIdx desc.numInputLayers)).foldlM
    (fun count i => do
      if (← getIdx desc.inputIsCommitted i) = false then
        let atoms ← routedAtoms desc (desc.numComputeLayers + i) desc.numComputeLayers
        pure (count + atoms.length)
      else pure count) 0

variable (desc) in
/-- The cursors of a finalize call are those of the one-transaction loop. -/
structure CursorsRight (f : FinalizeStepCtx) : Prop where
  committed : countCommittedBefore desc f.inputIdx = .ok f.dagInputIdx
  scanned : scannedPublicClaims desc f.inputIdx = .ok f.pubClaimIdx

private theorem countInputsBefore_succ {committed kind : Bool} {weight : ℕ → ℕ} {i count : ℕ}
    (hi : i < desc.numInputLayers) (hkind : desc.inputIsCommitted[i]? = some kind)
    (h : countInputsBefore desc committed weight i = .ok count) :
    countInputsBefore desc committed weight (i + 1) =
      .ok (if kind = committed then count + weight i else count) := by
  unfold countInputsBefore at h ⊢
  rw [Nat.min_eq_left hi.le] at h
  rw [Nat.min_eq_left hi, List.range_succ, foldlM_append, h]
  simp only [ok_bind, List.foldlM_cons, List.foldlM_nil, getIdx_eq_ok.mpr hkind]
  split <;> rfl

private theorem scannedPublicClaims_succ_committed {i count : ℕ} (hi : i < desc.numInputLayers)
    (hcommitted : desc.inputIsCommitted[i]? = some true)
    (h : scannedPublicClaims desc i = .ok count) :
    scannedPublicClaims desc (i + 1) = .ok count := by
  unfold scannedPublicClaims at h ⊢
  rw [Nat.min_eq_left hi.le] at h
  rw [Nat.min_eq_left hi, List.range_succ, foldlM_append, h]
  simp [getIdx_eq_ok.mpr hcommitted]

private theorem scannedPublicClaims_succ_public {i count : ℕ} (hi : i < desc.numInputLayers)
    (hpublic : desc.inputIsCommitted[i]? = some false) {atoms : List (ℕ × ℕ)}
    (hatoms : routedAtoms desc (desc.numComputeLayers + i) desc.numComputeLayers = .ok atoms)
    (h : scannedPublicClaims desc i = .ok count) :
    scannedPublicClaims desc (i + 1) = .ok (count + atoms.length) := by
  unfold scannedPublicClaims at h ⊢
  rw [Nat.min_eq_left hi.le] at h
  rw [Nat.min_eq_left hi, List.range_succ, foldlM_append, h]
  simp [getIdx_eq_ok.mpr hpublic, hatoms]

theorem CursorsRight.afterCommitted {f : FinalizeStepCtx} (h : CursorsRight desc f)
    (hi : f.inputIdx < desc.numInputLayers)
    (hcommitted : desc.inputIsCommitted[f.inputIdx]? = some true) :
    CursorsRight desc f.afterCommitted where
  committed := countInputsBefore_succ hi hcommitted h.committed
  scanned := scannedPublicClaims_succ_committed hi hcommitted h.scanned

theorem CursorsRight.afterPublic {f : FinalizeStepCtx} (h : CursorsRight desc f)
    (hi : f.inputIdx < desc.numInputLayers)
    (hpublic : desc.inputIsCommitted[f.inputIdx]? = some false) {claimPoints : List (List ℕ)}
    {next : ℕ}
    (hnext : verifyPublicInputClaims solBackend proof desc gens claimPoints
      (desc.numComputeLayers + f.inputIdx) f.pubClaimIdx input.publicInputs
      input.publicValueClaims = .ok next) :
    CursorsRight desc (f.afterPublic next) := by
  simp only [verifyPublicInputClaims, bind_eq_ok, pure_eq_ok] at hnext
  obtain ⟨atoms, hatoms, _, -, rfl⟩ := hnext
  exact ⟨countInputsBefore_succ hi hpublic h.committed,
    scannedPublicClaims_succ_public hi hpublic hatoms h.scanned⟩

variable (desc) in
/-- Where a finalize call that started at `f` and did not finish has stopped. -/
structure StoppedAt (f f' : FinalizeStepCtx) : Prop where
  le : f.inputIdx ≤ f'.inputIdx
  lt : f'.inputIdx < desc.numInputLayers
  committed : desc.inputIsCommitted[f'.inputIdx]? = some true
  batch : GROUPS_PER_FINALIZE_BATCH ≤ f'.groupsDone
  remaining : f'.groupsDone < countClaimsFor (desc.numComputeLayers + f'.inputIdx) desc
  advanced : f'.inputIdx = f.inputIdx → f.groupsDone < f'.groupsDone
  cursors : CursorsRight desc f'

/-- A finalize call that did not finish has stopped inside a committed input with more than one
batch of groups. -/
theorem stoppedAt_of_loop {n : ℕ} {f f' : FinalizeStepCtx} {s s' : Sponge}
    (hdone : f.done = false) (hn : f.inputIdx + n = desc.numInputLayers)
    (hcursors : CursorsRight desc f)
    (h : processInputLayerLoop proof desc gens allBindings input n f s = .ok (f', s'))
    (hdone' : f'.done = false) : StoppedAt desc f f' := by
  induction n generalizing f s with
  | zero =>
    rw [processInputLayerLoop, pure_eq_ok] at h
    obtain ⟨rfl, -⟩ := Prod.mk.inj h
    exact absurd hdone' (by simp)
  | succ n ih =>
    obtain ⟨claimPoints, hpoints, ⟨hcommitted, dagProof, plan, g, hproof, hplan, hgroups, hrest⟩ |
      ⟨hpublic, next, hnext, hrest⟩⟩ := processInputLayerLoop_succ.mp h
    · have hcount := length_collectClaimPoints hpoints
      by_cases hmore : endGroup f.groupsDone claimPoints.length < claimPoints.length
      · rw [if_pos hmore] at hrest
        obtain ⟨rfl, -⟩ := Prod.mk.inj hrest
        have hend : endGroup f.groupsDone claimPoints.length = f.groupsDone + 16 := by
          unfold endGroup GROUPS_PER_FINALIZE_BATCH at hmore ⊢
          omega
        rw [hend] at hmore ⊢
        exact ⟨le_refl _, by simp only; omega, hcommitted, Nat.le_add_left _ _, hcount ▸ hmore,
          fun _ => by simp only; omega, hcursors.1, hcursors.2⟩
      · rw [if_neg hmore] at hrest
        have hnext : f.afterCommitted.inputIdx = f.inputIdx + 1 := rfl
        have hstop := ih (f := f.afterCommitted) hdone (by rw [hnext]; omega)
          (hcursors.afterCommitted (by omega) hcommitted) hrest
        exact { hstop with
          le := (Nat.le_succ _).trans hstop.le
          advanced := fun heq => absurd hstop.le (by rw [hnext, heq]; omega) }
    · have hidx : (f.afterPublic next).inputIdx = f.inputIdx + 1 := rfl
      have hstop := ih (f := f.afterPublic next) hdone (by rw [hidx]; omega)
        (hcursors.afterPublic (by omega) hpublic hnext) hrest
      exact { hstop with
        le := (Nat.le_succ _).trans hstop.le
        advanced := fun heq => absurd hstop.le (by rw [hidx, heq]; omega) }

end Inputs

/-! ## Finalize calls -/

section Finalize

variable (proof : DecodedProof) (desc : DAGCircuitDescription) (gens : PedersenGens)
variable (allBindings : List (List ℕ))

/-- What the input phase still has to accept at the given progress. -/
def FinalizeAccepted (inputIdx groupsDone : ℕ) (s : Sponge) : Prop :=
  ∃ dagInputIdx pubClaimIdx,
    CursorsRight desc ⟨inputIdx, groupsDone, dagInputIdx, pubClaimIdx, false⟩ ∧
    InputsAccepted proof.gkrProof desc gens allBindings (inputData proof)
      (desc.numInputLayers - inputIdx) inputIdx groupsDone dagInputIdx pubClaimIdx s

/-- The recomputed public cursor is the scanned one wherever a finalize call can resume: in a
committed input with more than one batch of groups. -/
def CursorsAgree : Prop :=
  ∀ i < desc.numInputLayers, desc.inputIsCommitted[i]? = some true →
    GROUPS_PER_FINALIZE_BATCH < countClaimsFor (desc.numComputeLayers + i) desc →
    countPublicClaimsBefore desc i = scannedPublicClaims desc i

/-- The progress at which a finalize call can start. -/
structure Resumable (inputIdx groupsDone : ℕ) : Prop where
  cursors : ∃ dagInputIdx pubClaimIdx,
    CursorsRight desc ⟨inputIdx, groupsDone, dagInputIdx, pubClaimIdx, false⟩
  place : inputIdx = 0 ∧ groupsDone = 0 ∨ inputIdx < desc.numInputLayers ∧
    desc.inputIsCommitted[inputIdx]? = some true ∧ GROUPS_PER_FINALIZE_BATCH ≤ groupsDone ∧
    groupsDone < countClaimsFor (desc.numComputeLayers + inputIdx) desc

variable {proof desc gens allBindings}

theorem resumable_start : Resumable desc 0 0 :=
  ⟨⟨0, 0, ⟨by simp [countCommittedBefore, countInputsBefore, pure_eq_ok],
    by simp [scannedPublicClaims, pure_eq_ok]⟩⟩, .inl ⟨rfl, rfl⟩⟩

theorem StoppedAt.resumable {f f' : FinalizeStepCtx} (h : StoppedAt desc f f') :
    Resumable desc f'.inputIdx f'.groupsDone :=
  ⟨⟨f'.dagInputIdx, f'.pubClaimIdx, ⟨h.cursors.committed, h.cursors.scanned⟩⟩,
    .inr ⟨h.lt, h.committed, h.batch, h.remaining⟩⟩

theorem Resumable.le {inputIdx groupsDone : ℕ} (h : Resumable desc inputIdx groupsDone) :
    inputIdx ≤ desc.numInputLayers := by
  rcases h.place with ⟨rfl, -⟩ | ⟨hlt, -⟩
  · exact Nat.zero_le _
  · exact hlt.le

theorem Resumable.countPublicClaimsBefore_eq {inputIdx groupsDone : ℕ}
    (h : Resumable desc inputIdx groupsDone) (hagree : CursorsAgree desc) :
    countPublicClaimsBefore desc inputIdx = scannedPublicClaims desc inputIdx := by
  rcases h.place with ⟨rfl, -⟩ | ⟨hlt, hcommitted, hbatch, hremaining⟩
  · simp [countPublicClaimsBefore, countInputsBefore, scannedPublicClaims]
  · exact hagree inputIdx hlt hcommitted (hbatch.trans_lt hremaining)

private theorem executeFinalizeStep_eq {session : DAGBatchSession} {dagInputIdx pubClaimIdx : ℕ}
    (hagree : CursorsAgree desc)
    (hplace : Resumable desc session.finalizeInputIdx session.finalizeGroupsDone)
    (hcursors : CursorsRight desc ⟨session.finalizeInputIdx, session.finalizeGroupsDone,
      dagInputIdx, pubClaimIdx, false⟩) :
    executeFinalizeStep proof desc gens allBindings session =
      processInputLayerLoop proof.gkrProof desc gens allBindings (inputData proof)
        (desc.numInputLayers - session.finalizeInputIdx) ⟨session.finalizeInputIdx,
          session.finalizeGroupsDone, dagInputIdx, pubClaimIdx, false⟩ session.sponge := by
  have hcommitted := liftVerifier_eq_ok.mpr hcursors.committed
  have hpublic := liftVerifier_eq_ok.mpr
    ((hplace.countPublicClaimsBefore_eq hagree).trans hcursors.scanned)
  simp only at hcommitted hpublic
  simp only [executeFinalizeStep, hcommitted, hpublic, ok_bind]

private theorem cursorsRight_unique {inputIdx groupsDone dagInputIdx pubClaimIdx dagInputIdx'
    pubClaimIdx' : ℕ}
    (h : CursorsRight desc ⟨inputIdx, groupsDone, dagInputIdx, pubClaimIdx, false⟩)
    (h' : CursorsRight desc ⟨inputIdx, groupsDone, dagInputIdx', pubClaimIdx', false⟩) :
    dagInputIdx = dagInputIdx' ∧ pubClaimIdx = pubClaimIdx' :=
  ⟨Except.ok.inj (h.committed.symm.trans h'.committed),
    Except.ok.inj (h.scanned.symm.trans h'.scanned)⟩

/-- Before the first finalize call, all of `verifyInputLayers` is left. -/
theorem finalizeAccepted_start {s : Sponge} :
    FinalizeAccepted proof desc gens allBindings 0 0 s ↔
      ∃ st, verifyInputLayers solBackend proof.gkrProof desc gens allBindings (inputData proof) s =
        .ok st := by
  have hinputs := @verifyInputLayers_iff proof.gkrProof desc gens allBindings (inputData proof)
    desc.numInputLayers 0 ⟨0, 0, [], s⟩
  rw [← List.range_eq_range'] at hinputs
  unfold verifyInputLayers
  rw [hinputs]
  obtain ⟨dagInputIdx, pubClaimIdx, hzero⟩ := (@resumable_start desc).cursors
  obtain ⟨rfl, rfl⟩ : dagInputIdx = 0 ∧ pubClaimIdx = 0 := by
    have hcommitted := hzero.committed
    have hscanned := hzero.scanned
    simp only [countCommittedBefore, countInputsBefore, scannedPublicClaims, Nat.zero_min,
      List.range_zero, List.foldlM_nil, pure_eq_ok] at hcommitted hscanned
    exact ⟨hcommitted.symm, hscanned.symm⟩
  constructor
  · rintro ⟨dagInputIdx, pubClaimIdx, hcursors, haccepted⟩
    obtain ⟨rfl, rfl⟩ := cursorsRight_unique hzero hcursors
    exact haccepted
  · exact fun haccepted => ⟨0, 0, hzero, haccepted⟩

/-- One finalize call: what was left to accept is what the call checks and what it leaves. -/
theorem executeFinalizeStep_iff {session : DAGBatchSession} (hagree : CursorsAgree desc)
    (hplace : Resumable desc session.finalizeInputIdx session.finalizeGroupsDone) :
    FinalizeAccepted proof desc gens allBindings session.finalizeInputIdx
        session.finalizeGroupsDone session.sponge ↔
      ∃ f s', executeFinalizeStep proof desc gens allBindings session = .ok (f, s') ∧
        (f.done = false →
          FinalizeAccepted proof desc gens allBindings f.inputIdx f.groupsDone s') := by
  obtain ⟨dagInputIdx, pubClaimIdx, hcursors⟩ := hplace.cursors
  have hle := hplace.le
  have hn : session.finalizeInputIdx + (desc.numInputLayers - session.finalizeInputIdx) =
      desc.numInputLayers := by omega
  rw [executeFinalizeStep_eq hagree hplace hcursors]
  have hloop := @processInputLayerLoop_iff proof.gkrProof desc gens allBindings (inputData proof)
    (desc.numInputLayers - session.finalizeInputIdx) ⟨session.finalizeInputIdx,
      session.finalizeGroupsDone, dagInputIdx, pubClaimIdx, false⟩ rfl session.sponge
  simp only [hn] at hloop
  constructor
  · rintro ⟨dagInputIdx', pubClaimIdx', hcursors', haccepted⟩
    obtain ⟨rfl, rfl⟩ := cursorsRight_unique hcursors hcursors'
    obtain ⟨f', s', hf', hlater⟩ := hloop.mp haccepted
    refine ⟨f', s', hf', fun hdone => ?_⟩
    have hstop := stoppedAt_of_loop rfl hn hcursors hf' hdone
    exact ⟨f'.dagInputIdx, f'.pubClaimIdx, ⟨hstop.cursors.committed, hstop.cursors.scanned⟩,
      hlater hdone⟩
  · rintro ⟨f', s', hf', hlater⟩
    refine ⟨dagInputIdx, pubClaimIdx, hcursors, hloop.mpr ⟨f', s', hf', fun hdone => ?_⟩⟩
    obtain ⟨dagInputIdx', pubClaimIdx', hcursors', haccepted⟩ := hlater hdone
    have hstop := stoppedAt_of_loop rfl hn hcursors hf' hdone
    obtain ⟨rfl, rfl⟩ := cursorsRight_unique
      ⟨hstop.cursors.committed, hstop.cursors.scanned⟩ hcursors'
    exact haccepted

/-- A finalize call that did not finish has stopped further on. -/
theorem stoppedAt_of_executeFinalizeStep {session : DAGBatchSession} (hagree : CursorsAgree desc)
    (hplace : Resumable desc session.finalizeInputIdx session.finalizeGroupsDone)
    {f : FinalizeStepCtx} {s' : Sponge}
    (h : executeFinalizeStep proof desc gens allBindings session = .ok (f, s'))
    (hdone : f.done = false) :
    ∃ f₀ : FinalizeStepCtx, f₀.inputIdx = session.finalizeInputIdx ∧
      f₀.groupsDone = session.finalizeGroupsDone ∧ StoppedAt desc f₀ f := by
  obtain ⟨dagInputIdx, pubClaimIdx, hcursors⟩ := hplace.cursors
  have hle := hplace.le
  rw [executeFinalizeStep_eq hagree hplace hcursors] at h
  exact ⟨_, rfl, rfl, stoppedAt_of_loop rfl (by simp only; omega) hcursors h hdone⟩

/-- Bounds the finalize calls that are left: the layers, and the groups of the current one. -/
def finalizeMeasure (desc : DAGCircuitDescription) (inputIdx groupsDone : ℕ) : ℕ :=
  (desc.numInputLayers - inputIdx) * (desc.atomTargetLayers.length + 1) +
    (desc.atomTargetLayers.length - groupsDone)

theorem StoppedAt.measure_lt {f f' : FinalizeStepCtx} (h : StoppedAt desc f f') :
    finalizeMeasure desc f'.inputIdx f'.groupsDone < finalizeMeasure desc f.inputIdx f.groupsDone := by
  have hcount : f'.groupsDone < desc.atomTargetLayers.length :=
    h.remaining.trans_le List.countP_le_length
  unfold finalizeMeasure
  rcases h.le.eq_or_lt with heq | hlt
  · have hadvanced := h.advanced heq.symm
    rw [heq]
    omega
  · have hlayers : desc.numInputLayers - f'.inputIdx + 1 ≤ desc.numInputLayers - f.inputIdx := by
      have := h.lt
      omega
    have hmul := Nat.mul_le_mul_right (desc.atomTargetLayers.length + 1) hlayers
    rw [Nat.add_mul, one_mul] at hmul
    omega

end Finalize

end WorldZk.BatchRefinement
