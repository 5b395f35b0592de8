import WorldZk.FlatArrays
import WorldZk.LayerChecks
import WorldZk.SolidityVerifier

/-!
# The shape of a registered description

`registerDAGCircuit` compares lengths of arrays. A description whose offsets cut their arrays into
segments, and whose atoms point forward, lets every layer read its claims and its oracle products
as fixed lists, with no index into the description left that could fail.
-/

namespace WorldZk.DescriptionShape

open CheckedRuns ProofTypes VerifierBackend DagLayers FlatArrays FieldArithmetic SolidityVerifier

/-! ## What the registration checks -/

/-- The lengths that a registered description has. -/
structure LengthsChecked (desc : DAGCircuitDescription) : Prop where
  numComputeLayers : desc.numComputeLayers ≤ 256
  numInputLayers : desc.numInputLayers ≤ 64
  layerTypes : desc.layerTypes.length = desc.numComputeLayers
  numSumcheckRounds : desc.numSumcheckRounds.length = desc.numComputeLayers
  inputIsCommitted : desc.inputIsCommitted.length = desc.numInputLayers
  atomOffsets : desc.atomOffsets.length = desc.numComputeLayers + 1
  productOffsets : desc.oracleProductOffsets.length = desc.numComputeLayers + 1
  atomOffsets_last : desc.atomOffsets.getLast? = some desc.atomTargetLayers.length
  atomCommitIdxs : desc.atomCommitIdxs.length = desc.atomTargetLayers.length
  ptOffsets : desc.ptOffsets.length = desc.atomTargetLayers.length + 1
  productOffsets_last : desc.oracleProductOffsets.getLast? = some desc.oracleResultIdxs.length
  exprCoeffs : desc.oracleExprCoeffs.length = desc.oracleResultIdxs.length

theorem lengthsChecked_of_checkDescription {desc : DAGCircuitDescription}
    (h : checkDescription desc = .ok ()) : LengthsChecked desc := by
  simp only [checkDescription, bind_eq_ok, require_eq_ok, beq_iff_eq, decide_eq_true_eq, entry,
    getOr_eq_ok] at h
  obtain ⟨_, -, _, -, _, hcompute, _, hinput, _, htypes, _, hrounds, _, hatomOffsets, _, hcommitted,
    _, hproductOffsets, totalAtoms, htotalAtoms, _, htargets, _, hcommits, _, hptOffsets,
    totalProducts, htotalProducts, _, hresults, hcoeffs⟩ := h
  refine ⟨hcompute, hinput, htypes, hrounds, hcommitted, hatomOffsets, hproductOffsets, ?_,
    by rw [hcommits, htargets], by rw [hptOffsets, htargets], ?_, by rw [hcoeffs, hresults]⟩
  · rw [List.getLast?_eq_getElem?, hatomOffsets, Nat.add_sub_cancel, htotalAtoms, htargets]
  · rw [List.getLast?_eq_getElem?, hproductOffsets, Nat.add_sub_cancel, htotalProducts, hresults]

theorem lengthsChecked_of_register {c c' : Contract} {circuitHash : {h : ℕ // h < WORD}}
    {desc : {d : DAGCircuitDescription // fitsAbi d = true}} {gensHash : ℕ}
    (h : registerDAGCircuit c circuitHash desc gensHash = .ok c') : LengthsChecked desc.val := by
  apply lengthsChecked_of_checkDescription
  unfold registerDAGCircuit at h
  split at h
  · cases h
  split at h
  · cases h
  split at h
  · cases h
  split at h
  · cases h
  · assumption

/-! ## Well-formed descriptions -/

/-- Every atom of a layer targets a later compute layer or an input layer. -/
def TargetsForward (desc : DAGCircuitDescription) : Prop :=
  ∀ j < desc.numComputeLayers, ∀ a ∈ segmentPlaces desc.atomOffsets j, ∀ target,
    desc.atomTargetLayers[a]? = some target →
      j < target ∧ target < desc.numComputeLayers + desc.numInputLayers

/-- The offsets cut the arrays they index into segments, and the atoms point forward. -/
structure WellFormed (desc : DAGCircuitDescription) : Prop where
  atomTargets : IsOffsets desc.atomOffsets desc.atomTargetLayers.length
  atomCommits : IsOffsets desc.atomOffsets desc.atomCommitIdxs.length
  templates : IsOffsets desc.ptOffsets desc.ptData.length
  results : IsOffsets desc.oracleProductOffsets desc.oracleResultIdxs.length
  coeffs : IsOffsets desc.oracleProductOffsets desc.oracleExprCoeffs.length
  targets : TargetsForward desc

/-- What `registerDAGCircuit` leaves unchecked. -/
structure OffsetsOrdered (desc : DAGCircuitDescription) : Prop where
  atomOffsets_zero : desc.atomOffsets[0]? = some 0
  atomOffsets_mono : desc.atomOffsets.Pairwise (· ≤ ·)
  ptOffsets_zero : desc.ptOffsets[0]? = some 0
  ptOffsets_mono : desc.ptOffsets.Pairwise (· ≤ ·)
  ptOffsets_last : desc.ptOffsets.getLast? = some desc.ptData.length
  productOffsets_zero : desc.oracleProductOffsets[0]? = some 0
  productOffsets_mono : desc.oracleProductOffsets.Pairwise (· ≤ ·)
  targets : TargetsForward desc

theorem wellFormed_iff_offsetsOrdered {desc : DAGCircuitDescription} (h : LengthsChecked desc) :
    WellFormed desc ↔ OffsetsOrdered desc := by
  constructor
  · intro hwf
    exact ⟨hwf.atomTargets.zero, hwf.atomTargets.mono, hwf.templates.zero, hwf.templates.mono,
      hwf.templates.last, hwf.results.zero, hwf.results.mono, hwf.targets⟩
  · intro hord
    refine ⟨⟨hord.atomOffsets_zero, hord.atomOffsets_mono, h.atomOffsets_last⟩,
      ⟨hord.atomOffsets_zero, hord.atomOffsets_mono, ?_⟩,
      ⟨hord.ptOffsets_zero, hord.ptOffsets_mono, hord.ptOffsets_last⟩,
      ⟨hord.productOffsets_zero, hord.productOffsets_mono, h.productOffsets_last⟩,
      ⟨hord.productOffsets_zero, hord.productOffsets_mono, ?_⟩, hord.targets⟩
    · rw [h.atomCommitIdxs]
      exact h.atomOffsets_last
    · rw [h.exprCoeffs]
      exact h.productOffsets_last

/-! ## What a layer reads -/

/-- A claim on a layer, with all that the loop reads of the description for it. -/
structure RoutedClaim where
  source : ℕ
  commitIdx : ℕ
  template : List ℕ

/-- One entry of a point template. -/
def resolveEntry (sourceBindings : List ℕ) (entry : ℕ) : Checked ℕ :=
  if entry < 1000 then getIdx sourceBindings entry
  else if FIXED_REF_BASE ≤ entry then pure (entry - FIXED_REF_BASE)
  else pure 0

/-- The contribution of a claim. The only indices are into the proof and its bindings. -/
def claimStep (b : Backend) (proof : GKRProof) (ctx : VerifyContext) (bindings rlcCoeffs : List ℕ)
    (st : RlcState) (claim : RoutedClaim) : Checked RlcState := do
  let source ← getIdx proof.layerProofs claim.source
  let atomEval ← getIdx source.commitments claim.commitIdx
  let sourceBindings ← getIdx ctx.allBindings claim.source
  let atomPoint ← claim.template.mapM (resolveEntry sourceBindings)
  let beta ← computeBeta b bindings atomPoint
  let coeff ← getIdx rlcCoeffs st.coeffIdx
  let rlcEval ← b.ecAdd st.rlcEval (← b.ecMul atomEval coeff)
  pure ⟨rlcEval, b.add st.rlcBeta (b.mul beta coeff), st.coeffIdx + 1⟩

/-- The contribution of an oracle product, given by the index of its result and its coefficient. -/
def productStep (b : Backend) (commitments : List G1Point) (rlcBeta : ℕ) (result : G1Point)
    (product : ℕ × ℕ) : Checked G1Point := do
  b.ecAdd result (← b.ecMul (← getIdx commitments product.1) (b.mul rlcBeta product.2))

/-- For every proof, layer `i` works through a fixed list of claims, all from earlier layers and as
many as it has coefficients for, and through a fixed list of products. -/
structure ReadsInBounds (desc : DAGCircuitDescription) (i : ℕ) : Prop where
  layerType : ∃ layerType, desc.layerTypes[i]? = some layerType
  claims : ∃ claims : List RoutedClaim, claims.length = countClaimsFor i desc ∧
    (∀ claim ∈ claims, claim.source < i) ∧ ∀ b proof ctx bindings rlcCoeffs,
      computeRlcEvalAndBeta b i proof desc ctx bindings rlcCoeffs = do
        let st ← rlcStart b i ctx bindings rlcCoeffs
        let st ← claims.foldlM (claimStep b proof ctx bindings rlcCoeffs) st
        pure (st.rlcEval, st.rlcBeta)
  products : ∃ products : List (ℕ × ℕ), ∀ b commitments rlcBeta,
    computeOracleEval b commitments i rlcBeta desc =
      products.foldlM (productStep b commitments rlcBeta) G1Point.INFINITY

theorem getIdx_of_lt {xs : List ℕ} {i : ℕ} (hi : i < xs.length) :
    getIdx xs i = .ok (xs.getD i 0) := by
  rw [getIdx_eq_ok, List.getD_eq_getElem?_getD, List.getElem?_eq_getElem hi, Option.getD_some]

theorem segmentPlaces_eq {offsets : List ℕ} {i start stop : ℕ}
    (hstart : offsets[i]? = some start) (hstop : offsets[i + 1]? = some stop) :
    segmentPlaces offsets i = List.range' start (stop - start) := by
  rw [segmentPlaces, List.getD_eq_getElem?_getD, List.getD_eq_getElem?_getD, hstart, hstop,
    Option.getD_some, Option.getD_some]

/-- Whether atom `a` targets the layer. -/
def targets (desc : DAGCircuitDescription) (targetLayer a : ℕ) : Bool :=
  desc.atomTargetLayers.getD a 0 == targetLayer

private theorem routedAtoms_of_wellFormed {desc : DAGCircuitDescription} (hlen : LengthsChecked desc)
    (hwf : WellFormed desc) (targetLayer : ℕ) {n : ℕ} (hn : n ≤ desc.numComputeLayers) :
    routedAtoms desc targetLayer n = .ok ((List.range n).flatMap fun j =>
      ((segmentPlaces desc.atomOffsets j).filter (targets desc targetLayer)).map fun a => (j, a)) := by
  rw [routedAtoms, mapM_of_ok (g := fun j =>
    ((segmentPlaces desc.atomOffsets j).filter (targets desc targetLayer)).map fun a => (j, a)),
    ok_bind, ← List.flatMap_def]
  · rfl
  intro j hj
  have hj' : j + 1 < desc.atomOffsets.length := by
    rw [hlen.atomOffsets]
    have := List.mem_range.mp hj
    omega
  obtain ⟨start, stop, hstart, hstop, hle, htotal⟩ := hwf.atomTargets.segment hj'
  rw [layerAtoms, getIdx_eq_ok.mpr hstart, getIdx_eq_ok.mpr hstop, ok_bind, ok_bind,
    ← segmentPlaces_eq hstart hstop, filterM_of_ok (q := targets desc targetLayer), ok_bind]
  · rfl
  intro a ha
  rw [segmentPlaces_eq hstart hstop, List.mem_range'_1] at ha
  rw [getIdx_of_lt (by omega), ok_bind]
  rfl

/-- The claim of atom `a`, which belongs to layer `j`. -/
def routedClaim (desc : DAGCircuitDescription) (atom : ℕ × ℕ) : RoutedClaim :=
  ⟨atom.1, desc.atomCommitIdxs.getD atom.2 0,
    (segmentPlaces desc.ptOffsets atom.2).map fun k => desc.ptData.getD k 0⟩

private theorem resolvePoint_of_wellFormed {desc : DAGCircuitDescription}
    (hlen : LengthsChecked desc) (hwf : WellFormed desc) {a : ℕ}
    (ha : a < desc.atomTargetLayers.length) (sourceBindings : List ℕ) :
    resolvePoint desc a sourceBindings =
      ((segmentPlaces desc.ptOffsets a).map fun k => desc.ptData.getD k 0).mapM
        (resolveEntry sourceBindings) := by
  obtain ⟨start, stop, hstart, hstop, hle, htotal⟩ :=
    hwf.templates.segment (show a + 1 < desc.ptOffsets.length by rw [hlen.ptOffsets]; omega)
  rw [resolvePoint, getIdx_eq_ok.mpr hstart, getIdx_eq_ok.mpr hstop, ok_bind, ok_bind,
    decide_eq_true hle, require_true, ok_bind, segmentPlaces_eq hstart hstop, List.mapM_map]
  refine mapM_congr ?_
  intro k hk
  rw [List.mem_range'_1] at hk
  rw [getIdx_of_lt (by omega), ok_bind]
  rfl

private theorem rlcStep_of_wellFormed {desc : DAGCircuitDescription} (hlen : LengthsChecked desc)
    (hwf : WellFormed desc) {b : Backend} {proof : GKRProof} {ctx : VerifyContext}
    {bindings rlcCoeffs : List ℕ} (st : RlcState) {atom : ℕ × ℕ}
    (ha : atom.2 < desc.atomTargetLayers.length) :
    rlcStep b proof desc ctx bindings rlcCoeffs st atom =
      claimStep b proof ctx bindings rlcCoeffs st (routedClaim desc atom) := by
  rw [rlcStep, claimStep, getIdx_of_lt (by rw [hlen.atomCommitIdxs]; exact ha), ok_bind]
  simp only [resolvePoint_of_wellFormed hlen hwf ha, routedClaim]

theorem countClaimsFor_eq (desc : DAGCircuitDescription) (targetLayer : ℕ) :
    countClaimsFor targetLayer desc =
      (List.range desc.atomTargetLayers.length).countP (targets desc targetLayer) := by
  unfold countClaimsFor targets
  induction desc.atomTargetLayers with
  | nil => rfl
  | cons target rest ih =>
    rw [List.length_cons, List.range_succ_eq_map, List.countP_cons, List.countP_cons,
      List.countP_map, ih]
    have hrest : (fun a => (rest.getD a 0 == targetLayer)) =
        (fun a => ((target :: rest).getD a 0 == targetLayer)) ∘ Nat.succ := by
      funext a
      rw [Function.comp_apply, Nat.succ_eq_add_one, List.getD_cons_succ]
    rw [hrest]
    congr 1

private theorem filter_targets_eq_nil {desc : DAGCircuitDescription} (hlen : LengthsChecked desc)
    (hwf : WellFormed desc) {i j : ℕ} (hij : i ≤ j) (hj : j < desc.numComputeLayers) :
    (segmentPlaces desc.atomOffsets j).filter (targets desc i) = [] := by
  rw [List.filter_eq_nil_iff]
  intro a ha htarget
  obtain ⟨start, stop, hstart, hstop, hle, htotal⟩ :=
    hwf.atomTargets.segment (show j + 1 < desc.atomOffsets.length by rw [hlen.atomOffsets]; omega)
  have hplace := ha
  rw [segmentPlaces_eq hstart hstop, List.mem_range'_1] at hplace
  have hget : desc.atomTargetLayers[a]? = some (desc.atomTargetLayers.getD a 0) :=
    getIdx_eq_ok.mp (getIdx_of_lt (by omega))
  rw [targets, beq_iff_eq] at htarget
  have hforward := (hwf.targets j hj a ha _ hget).1
  omega

/-- All claims on a layer come from the layers before it. -/
private theorem length_routed {desc : DAGCircuitDescription} (hlen : LengthsChecked desc)
    (hwf : WellFormed desc) {i : ℕ} (hi : i < desc.numComputeLayers) :
    ((List.range i).flatMap fun j => ((segmentPlaces desc.atomOffsets j).filter
      (targets desc i)).map fun a => (j, a)).length = countClaimsFor i desc := by
  have hsplit : List.range desc.numComputeLayers =
      List.range i ++ List.range' i (desc.numComputeLayers - i) := by
    rw [List.range_eq_range', List.range_eq_range']
    have happ := @List.range'_append_1 0 i (desc.numComputeLayers - i)
    rw [Nat.zero_add, Nat.add_sub_cancel' hi.le] at happ
    exact happ.symm
  have hlater : (List.range' i (desc.numComputeLayers - i)).map (fun j =>
      ((segmentPlaces desc.atomOffsets j).countP (targets desc i))) =
      List.replicate (desc.numComputeLayers - i) 0 := by
    rw [List.eq_replicate_iff]
    refine ⟨by simp, ?_⟩
    intro n hn
    obtain ⟨j, hj, rfl⟩ := List.mem_map.mp hn
    rw [List.mem_range'_1] at hj
    rw [List.countP_eq_length_filter, filter_targets_eq_nil hlen hwf hj.1 (by omega),
      List.length_nil]
  have hplaces := hwf.atomTargets.flatMap_segmentPlaces
  rw [hlen.atomOffsets, Nat.add_sub_cancel] at hplaces
  rw [countClaimsFor_eq, ← hplaces, hsplit, List.countP_flatMap, List.map_append, List.sum_append]
  simp only [Function.comp_def]
  rw [hlater, List.sum_replicate, smul_zero, add_zero, List.length_flatMap]
  simp only [List.length_map, List.countP_eq_length_filter]

theorem readsInBounds_of_wellFormed {desc : DAGCircuitDescription} (hlen : LengthsChecked desc)
    (hwf : WellFormed desc) {i : ℕ} (hi : i < desc.numComputeLayers) : ReadsInBounds desc i := by
  refine ⟨⟨_, List.getElem?_eq_getElem (hlen.layerTypes ▸ hi)⟩, ?_, ?_⟩
  · refine ⟨((List.range i).flatMap fun j => ((segmentPlaces desc.atomOffsets j).filter
      (targets desc i)).map fun a => (j, a)).map (routedClaim desc), ?_, ?_, ?_⟩
    · rw [List.length_map, length_routed hlen hwf hi]
    · intro claim hclaim
      obtain ⟨atom, hatom, rfl⟩ := List.mem_map.mp hclaim
      obtain ⟨j, hj, hatom⟩ := List.mem_flatMap.mp hatom
      obtain ⟨a, -, rfl⟩ := List.mem_map.mp hatom
      exact List.mem_range.mp hj
    · intro b proof ctx bindings rlcCoeffs
      rw [computeRlcEvalAndBeta, routedAtoms_of_wellFormed hlen hwf i hi.le]
      simp only [ok_bind, List.foldlM_map]
      refine congrArg _ (funext fun st => ?_)
      rw [foldlM_congr (g := fun st atom =>
        claimStep b proof ctx bindings rlcCoeffs st (routedClaim desc atom))]
      intro st atom hatom
      obtain ⟨j, hj, hatom⟩ := List.mem_flatMap.mp hatom
      obtain ⟨a, ha, rfl⟩ := List.mem_map.mp hatom
      have hj' := List.mem_range.mp hj
      obtain ⟨start, stop, hstart, hstop, hle, htotal⟩ := hwf.atomTargets.segment
        (show j + 1 < desc.atomOffsets.length by rw [hlen.atomOffsets]; omega)
      have hplace := (List.mem_filter.mp ha).1
      rw [segmentPlaces_eq hstart hstop, List.mem_range'_1] at hplace
      exact rlcStep_of_wellFormed hlen hwf st (show a < _ by omega)
  · obtain ⟨start, stop, hstart, hstop, hle, htotal⟩ := hwf.results.segment
      (show i + 1 < desc.oracleProductOffsets.length by rw [hlen.productOffsets]; omega)
    refine ⟨(segmentPlaces desc.oracleProductOffsets i).map fun k =>
      (desc.oracleResultIdxs.getD k 0, desc.oracleExprCoeffs.getD k 0), ?_⟩
    intro b commitments rlcBeta
    rw [computeOracleEval, getIdx_eq_ok.mpr hstart, getIdx_eq_ok.mpr hstop, ok_bind, ok_bind,
      segmentPlaces_eq hstart hstop, List.foldlM_map]
    refine foldlM_congr ?_ _
    intro result k hk
    rw [List.mem_range'_1] at hk
    rw [getIdx_of_lt (show k < desc.oracleResultIdxs.length by omega),
      getIdx_of_lt (show k < desc.oracleExprCoeffs.length by rw [hlen.exprCoeffs]; omega)]
    rfl

/-- A description that the registration accepts is well formed, with every layer reading inside its
arrays, exactly when it passes the checks that the registration leaves out. -/
theorem registered_wellFormed_iff {c c' : Contract} {circuitHash : {h : ℕ // h < WORD}}
    {desc : {d : DAGCircuitDescription // fitsAbi d = true}} {gensHash : ℕ}
    (h : registerDAGCircuit c circuitHash desc gensHash = .ok c') :
    (WellFormed desc.val ∧ ∀ i < desc.val.numComputeLayers, ReadsInBounds desc.val i) ↔
      OffsetsOrdered desc.val := by
  have hlen := lengthsChecked_of_register h
  rw [← wellFormed_iff_offsetsOrdered hlen]
  constructor
  · exact And.left
  · intro hwf
    exact ⟨hwf, fun i hi => readsInBounds_of_wellFormed hlen hwf hi⟩

/-! ## A circuit with one atom -/

/-- One layer with one atom, which targets the given layer, and one committed input. -/
def oneAtomDesc (target : Fin 2) : {d : DAGCircuitDescription // fitsAbi d = true} :=
  ⟨⟨1, 1, [0], [0], [0, 1], [target], [0], [0, 0], [], [true], [0, 0], [], []⟩, by
    revert target
    decide⟩

/-- A contract without circuits. -/
def emptyContract : Contract := ⟨false, fun _ => none, fun _ _ h => by cases h⟩

private theorem register_oneAtomDesc (target : Fin 2) :
    ∃ c', registerDAGCircuit emptyContract ⟨1, by decide⟩ (oneAtomDesc target) 0 = .ok c' := by
  have hcheck : checkDescription (oneAtomDesc target).val = .ok () := by
    revert target
    decide
  unfold registerDAGCircuit
  rw [if_neg (by decide), dif_neg (by decide), if_neg (by decide)]
  split
  · rename_i e he
    rw [hcheck] at he
    cases he
  · exact ⟨_, rfl⟩

/-- With its atom on the input, the description is well formed. -/
theorem oneAtom_wellFormed :
    (∃ c', registerDAGCircuit emptyContract ⟨1, by decide⟩ (oneAtomDesc 1) 0 = .ok c') ∧
      WellFormed (oneAtomDesc 1).val := by
  obtain ⟨c', hregister⟩ := register_oneAtomDesc 1
  refine ⟨⟨c', hregister⟩, ((registered_wellFormed_iff hregister).mpr ?_).1⟩
  refine ⟨by decide, by decide, by decide, by decide, by decide, by decide, by decide, ?_⟩
  intro j hj a ha target htarget
  obtain rfl : j = 0 := by simpa [oneAtomDesc] using hj
  obtain rfl : a = 0 := by simpa [oneAtomDesc, segmentPlaces] using ha
  obtain rfl : 1 = target := by simpa [oneAtomDesc] using htarget
  decide

/-- The registration accepts an atom that targets its own layer. -/
theorem oneAtom_not_wellFormed :
    (∃ c', registerDAGCircuit emptyContract ⟨1, by decide⟩ (oneAtomDesc 0) 0 = .ok c') ∧
      ¬(WellFormed (oneAtomDesc 0).val ∧
        ∀ i < (oneAtomDesc 0).val.numComputeLayers, ReadsInBounds (oneAtomDesc 0).val i) := by
  refine ⟨register_oneAtomDesc 0, ?_⟩
  rintro ⟨hwf, -⟩
  have hforward := hwf.targets 0 (by decide) 0 (by decide) 0 rfl
  exact absurd hforward.1 (by decide)

end WorldZk.DescriptionShape
