import WorldZk.DescriptionShape

/-!
# Coefficients of the claims on a layer

A layer squeezes as many coefficients as it counts claims in the flat array of targets, and spends
them in a walk over the atoms of the layers before it. Both numbers agree when every atom has one
source layer and targets a later one, and the walk gives the claims their coefficients in order.
-/

namespace WorldZk.ClaimCoefficients

open CheckedRuns ProofTypes VerifierBackend PoseidonSponge DagLayers FlatArrays DescriptionShape
  CommittedSumcheck

/-! ## Descriptions with forward atoms -/

/-- Every atom stands in the range of one layer and targets a later one. -/
structure AtomsTargetLater (desc : DAGCircuitDescription) : Prop where
  offsets : desc.numComputeLayers < desc.atomOffsets.length
  places : ∀ j < desc.numComputeLayers, ∀ a ∈ segmentPlaces desc.atomOffsets j,
    a < desc.atomTargetLayers.length
  later : ∀ a target, desc.atomTargetLayers[a]? = some target →
    ∃ source < desc.numComputeLayers, source < target ∧
      ∀ j < desc.numComputeLayers, a ∈ segmentPlaces desc.atomOffsets j ↔ j = source

variable {desc : DAGCircuitDescription} {i j a : ℕ}

/-- The atoms of the layers before `i` that target it, each with its source. -/
def routed (desc : DAGCircuitDescription) (i : ℕ) : List (ℕ × ℕ) :=
  (List.range i).flatMap fun j =>
    ((segmentPlaces desc.atomOffsets j).filter (targets desc i)).map fun a => (j, a)

theorem targets_iff (ha : a < desc.atomTargetLayers.length) :
    targets desc i a = true ↔ desc.atomTargetLayers[a]? = some i := by
  rw [targets, beq_iff_eq, List.getD_eq_getElem?_getD, List.getElem?_eq_getElem ha,
    Option.getD_some, Option.some.injEq]

theorem mem_routed (h : AtomsTargetLater desc) (hi : i ≤ desc.numComputeLayers) :
    (j, a) ∈ routed desc i ↔
      j < i ∧ a ∈ segmentPlaces desc.atomOffsets j ∧ desc.atomTargetLayers[a]? = some i := by
  rw [routed, List.mem_flatMap]
  constructor
  · rintro ⟨k, hk, hatom⟩
    obtain ⟨a', ha', heq⟩ := List.mem_map.mp hatom
    obtain ⟨rfl, rfl⟩ := Prod.mk.inj heq
    obtain ⟨hplace, htarget⟩ := List.mem_filter.mp ha'
    have hk' := List.mem_range.mp hk
    exact ⟨hk', hplace, (targets_iff (h.places k (hk'.trans_le hi) a' hplace)).mp htarget⟩
  · rintro ⟨hj, hplace, htarget⟩
    refine ⟨j, List.mem_range.mpr hj, List.mem_map_of_mem (List.mem_filter.mpr ⟨hplace, ?_⟩)⟩
    exact (targets_iff (h.places j (hj.trans_le hi) a hplace)).mpr htarget

theorem nodup_segmentPlaces (offsets : List ℕ) (i : ℕ) : (segmentPlaces offsets i).Nodup :=
  List.nodup_range'

theorem nodup_routed (desc : DAGCircuitDescription) (i : ℕ) : (routed desc i).Nodup := by
  rw [routed, List.nodup_flatMap]
  constructor
  · intro j _
    exact ((nodup_segmentPlaces _ j).filter _).map (Prod.mk_right_injective j)
  · refine List.nodup_range.pairwise_of_forall_ne fun j _ k _ hjk => ?_
    intro atom hj hk
    obtain ⟨_, -, rfl⟩ := List.mem_map.mp hj
    obtain ⟨_, -, heq⟩ := List.mem_map.mp hk
    exact hjk (Prod.mk.inj heq).1.symm

theorem length_routed_eq (h : AtomsTargetLater desc) (hi : i < desc.numComputeLayers) :
    (routed desc i).length = countClaimsFor i desc := by
  have hplaces : ((routed desc i).map Prod.snd).Nodup := by
    refine (nodup_routed desc i).map_on ?_
    rintro ⟨j, a⟩ hj ⟨k, a'⟩ hk hplace
    obtain rfl : a = a' := hplace
    obtain ⟨hji, hj, htarget⟩ := (mem_routed h hi.le).mp hj
    obtain ⟨hki, hk, -⟩ := (mem_routed h hi.le).mp hk
    obtain ⟨source, -, -, hsource⟩ := h.later a i htarget
    rw [(hsource j (hji.trans hi)).mp hj, (hsource k (hki.trans hi)).mp hk]
  have hcounted : ((List.range desc.atomTargetLayers.length).filter (targets desc i)).Nodup :=
    List.nodup_range.filter _
  have hsame : ((routed desc i).map Prod.snd).Perm
      ((List.range desc.atomTargetLayers.length).filter (targets desc i)) := by
    refine (List.perm_ext_iff_of_nodup hplaces hcounted).mpr fun a => ?_
    rw [List.mem_map, List.mem_filter, List.mem_range]
    constructor
    · rintro ⟨⟨j, a'⟩, hatom, rfl⟩
      obtain ⟨hji, hplace, htarget⟩ := (mem_routed h hi.le).mp hatom
      have ha := h.places j (hji.trans hi) a' hplace
      exact ⟨ha, (targets_iff ha).mpr htarget⟩
    · rintro ⟨ha, htargets⟩
      have htarget := (targets_iff ha).mp htargets
      obtain ⟨source, hlayer, hearlier, hsource⟩ := h.later a i htarget
      refine ⟨(source, a), (mem_routed h hi.le).mpr ⟨hearlier, ?_, htarget⟩, rfl⟩
      exact (hsource source hlayer).mpr rfl
  rw [countClaimsFor_eq, List.countP_eq_length_filter, ← hsame.length_eq, List.length_map]

theorem routedAtoms_eq (h : AtomsTargetLater desc) (hi : i < desc.numComputeLayers) :
    routedAtoms desc i i = .ok (routed desc i) := by
  have hlayer : ∀ j ∈ List.range i, (do
      pure ((← layerAtoms desc i j).map fun a => (j, a)) : Checked (List (ℕ × ℕ))) =
      .ok (((segmentPlaces desc.atomOffsets j).filter (targets desc i)).map fun a => (j, a)) := by
    intro j hj
    have hj' : j < desc.numComputeLayers := (List.mem_range.mp hj).trans hi
    have hlength := h.offsets
    have hstart : desc.atomOffsets[j]? = some _ := List.getElem?_eq_getElem (by omega)
    have hstop : desc.atomOffsets[j + 1]? = some _ := List.getElem?_eq_getElem (by omega)
    rw [layerAtoms, getIdx_eq_ok.mpr hstart, getIdx_eq_ok.mpr hstop, ok_bind, ok_bind,
      ← segmentPlaces_eq hstart hstop, filterM_of_ok (q := targets desc i), ok_bind]
    · rfl
    · intro a ha
      rw [getIdx_of_lt (h.places j hj' a ha), ok_bind]
      rfl
  rw [routedAtoms, mapM_of_ok hlayer, ok_bind, ← List.flatMap_def]
  rfl

/-! ## Coefficients -/

section Coefficients

variable (b : Backend) {proof : GKRProof} {ctx : VerifyContext} {bindings rlcCoeffs : List ℕ}

inductive LayerClaim
  | output
  | atom (source place : ℕ)
deriving DecidableEq, Repr

/-- The claims on a layer in the order of the walk. -/
def layerClaims (desc : DAGCircuitDescription) (layerIdx : ℕ) : List LayerClaim :=
  (if layerIdx = 0 then [.output] else []) ++
    (routed desc layerIdx).map fun atom => .atom atom.1 atom.2

/-- The contribution of one claim with a coefficient of its own. -/
def addClaim (proof : GKRProof) (desc : DAGCircuitDescription) (ctx : VerifyContext)
    (bindings : List ℕ) (sums : G1Point × ℕ) (claim : LayerClaim × ℕ) : Checked (G1Point × ℕ) :=
  match claim.1 with
  | .output => do
    let rlcEval ← b.ecMul ctx.outputEval claim.2
    let beta ← computeBeta b bindings ctx.outputChallenges
    pure (rlcEval, b.mul beta claim.2)
  | .atom source place => do
    let commitIdx ← getIdx desc.atomCommitIdxs place
    let layerProof ← getIdx proof.layerProofs source
    let atomEval ← getIdx layerProof.commitments commitIdx
    let atomPoint ← resolvePoint desc place (← getIdx ctx.allBindings source)
    let beta ← computeBeta b bindings atomPoint
    let rlcEval ← b.ecAdd sums.1 (← b.ecMul atomEval claim.2)
    pure (rlcEval, b.add sums.2 (b.mul beta claim.2))

/-- The walk of `compute_rlc_eval_and_beta` with its index. -/
def rlcWalk (layerIdx : ℕ) (proof : GKRProof) (desc : DAGCircuitDescription)
    (ctx : VerifyContext) (bindings rlcCoeffs : List ℕ) : Checked RlcState := do
  let st ← rlcStart b layerIdx ctx bindings rlcCoeffs
  let atoms ← routedAtoms desc layerIdx layerIdx
  atoms.foldlM (rlcStep b proof desc ctx bindings rlcCoeffs) st

theorem computeRlcEvalAndBeta_eq_walk (layerIdx : ℕ) :
    computeRlcEvalAndBeta b layerIdx proof desc ctx bindings rlcCoeffs =
      (fun st => (st.rlcEval, st.rlcBeta)) <$>
        rlcWalk b layerIdx proof desc ctx bindings rlcCoeffs := by
  simp only [computeRlcEvalAndBeta, rlcWalk, map_bind]
  rfl

/-- The sums with the index behind them. -/
def withIdx (coeffIdx : ℕ) (sums : G1Point × ℕ) : RlcState := ⟨sums.1, sums.2, coeffIdx⟩

/-- A step that finds its coefficient is the contribution with that coefficient. -/
theorem rlcStep_eq {sums : G1Point × ℕ} {atom : ℕ × ℕ} {coeffIdx coeff : ℕ}
    (hcoeff : rlcCoeffs[coeffIdx]? = some coeff) :
    rlcStep b proof desc ctx bindings rlcCoeffs (withIdx coeffIdx sums) atom =
      withIdx (coeffIdx + 1) <$>
        addClaim b proof desc ctx bindings sums (.atom atom.1 atom.2, coeff) := by
  have hget : getIdx rlcCoeffs (withIdx coeffIdx sums).coeffIdx = .ok coeff :=
    getIdx_eq_ok.mpr hcoeff
  simp only [rlcStep, addClaim, hget, ok_bind, map_bind]
  rfl

/-- The loop over the atoms spends the coefficients from the index on. -/
theorem foldlM_rlcStep_eq (atoms : List (ℕ × ℕ)) {sums : G1Point × ℕ} {coeffIdx : ℕ}
    (hroom : coeffIdx + atoms.length ≤ rlcCoeffs.length) :
    atoms.foldlM (rlcStep b proof desc ctx bindings rlcCoeffs) (withIdx coeffIdx sums) =
      withIdx (coeffIdx + atoms.length) <$>
        ((atoms.map fun atom => LayerClaim.atom atom.1 atom.2).zip
          (rlcCoeffs.drop coeffIdx)).foldlM (addClaim b proof desc ctx bindings) sums := by
  induction atoms generalizing sums coeffIdx with
  | nil => rfl
  | cons atom atoms ih =>
    rw [List.length_cons] at hroom
    have hlt : coeffIdx < rlcCoeffs.length := by omega
    rw [List.map_cons, List.drop_eq_getElem_cons hlt, List.zip_cons_cons, List.foldlM_cons,
      List.foldlM_cons, rlcStep_eq b (List.getElem?_eq_getElem hlt), map_bind, bind_map_left,
      List.length_cons]
    refine congrArg _ (funext fun sums' => ?_)
    rw [ih (by omega), Nat.add_right_comm, Nat.add_assoc]

/-- Every claim is added with the coefficient at its own place, and the index ends at the number
of coefficients. -/
theorem rlcWalk_eq (h : AtomsTargetLater desc) (hi : i < desc.numComputeLayers)
    (hcoeffs : rlcCoeffs.length = numLayerClaims desc i) :
    rlcWalk b i proof desc ctx bindings rlcCoeffs =
      withIdx (numLayerClaims desc i) <$> ((layerClaims desc i).zip rlcCoeffs).foldlM
        (addClaim b proof desc ctx bindings) (G1Point.INFINITY, 0) := by
  have hcount := length_routed_eq h hi
  rw [rlcWalk, routedAtoms_eq h hi, numLayerClaims, layerClaims]
  rw [numLayerClaims] at hcoeffs
  by_cases hzero : i = 0
  · rw [if_pos hzero] at hcoeffs
    have hlt : 0 < rlcCoeffs.length := by omega
    have hzip : ∀ claims : List LayerClaim, (LayerClaim.output :: claims).zip rlcCoeffs =
        (LayerClaim.output, rlcCoeffs[0]) :: claims.zip (rlcCoeffs.drop 1) := fun claims =>
      congrArg (List.zip (.output :: claims)) (List.drop_eq_getElem_cons hlt)
    have hstart : rlcStart b i ctx bindings rlcCoeffs = withIdx 1 <$>
        addClaim b proof desc ctx bindings (G1Point.INFINITY, 0) (.output, rlcCoeffs[0]) := by
      have hget : getIdx rlcCoeffs 0 = .ok rlcCoeffs[0] :=
        getIdx_eq_ok.mpr (List.getElem?_eq_getElem hlt)
      simp only [rlcStart, if_pos hzero, addClaim, hget, ok_bind, map_bind]
      rfl
    rw [if_pos hzero, if_pos hzero, List.singleton_append, hzip, List.foldlM_cons, hstart,
      bind_map_left, map_bind]
    refine congrArg _ (funext fun sums => ?_)
    rw [ok_bind, foldlM_rlcStep_eq b _ (by omega), hcount, Nat.add_comm]
  · rw [if_neg hzero, Nat.add_zero] at hcoeffs
    have hstart : rlcStart b i ctx bindings rlcCoeffs = .ok (withIdx 0 (G1Point.INFINITY, 0)) := by
      rw [rlcStart, if_neg hzero]
      rfl
    rw [hstart, ok_bind, ok_bind, foldlM_rlcStep_eq b _ (by omega), if_neg hzero, if_neg hzero,
      List.nil_append, List.drop_zero, hcount, Nat.zero_add, Nat.add_zero]

theorem mem_layerClaims (h : AtomsTargetLater desc) (hi : i < desc.numComputeLayers)
    (source place : ℕ) :
    (.output ∈ layerClaims desc i ↔ i = 0) ∧
      (.atom source place ∈ layerClaims desc i ↔ source < i ∧
        place ∈ segmentPlaces desc.atomOffsets source ∧
          desc.atomTargetLayers[place]? = some i) := by
  rw [← mem_routed h hi.le]
  by_cases hzero : i = 0
  · simp [layerClaims, hzero, routed]
  · simp [layerClaims, hzero]

theorem nodup_layerClaims (desc : DAGCircuitDescription) (i : ℕ) : (layerClaims desc i).Nodup := by
  have hinj : Function.Injective fun atom : ℕ × ℕ => LayerClaim.atom atom.1 atom.2 := by
    rintro ⟨j, a⟩ ⟨k, a'⟩ heq
    cases heq
    rfl
  have hatoms := (nodup_routed desc i).map hinj
  rw [layerClaims]
  split
  · refine List.nodup_cons.mpr ⟨fun hmem => ?_, hatoms⟩
    obtain ⟨_, -, heq⟩ := List.mem_map.mp hmem
    cases heq
  · exact hatoms

theorem length_layerClaims (h : AtomsTargetLater desc) (hi : i < desc.numComputeLayers) :
    (layerClaims desc i).length = numLayerClaims desc i := by
  rw [layerClaims, numLayerClaims, List.length_append, List.length_map, length_routed_eq h hi,
    Nat.add_comm]
  split
  · rfl
  · rfl

end Coefficients

/-! ## Descriptions with ordered offsets -/

/-- Two layers. Both atoms of the first one target the second, whose atom targets the input. -/
def twoAtomsDesc : DAGCircuitDescription :=
  ⟨2, 1, [0, 0], [0, 0], [0, 2, 3], [1, 1, 2], [0, 1, 0], [0, 0, 0, 0], [], [true], [0, 0, 0], [],
    []⟩

theorem twoAtomsDesc_targetLater : AtomsTargetLater twoAtomsDesc := by
  refine ⟨by decide, by decide, fun a target htarget => ?_⟩
  obtain ⟨hlt, rfl⟩ := List.getElem?_eq_some_iff.mp htarget
  have hsources : ∀ a : Fin 3, ∃ source < 2, source < twoAtomsDesc.atomTargetLayers[a] ∧
      ∀ j < 2, a.val ∈ segmentPlaces twoAtomsDesc.atomOffsets j ↔ j = source := by
    decide
  exact hsources ⟨a, hlt⟩

end WorldZk.ClaimCoefficients
