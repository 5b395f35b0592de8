import WorldZk.ClaimBinding
import WorldZk.GroupChecks
import WorldZk.SolidityVerifier

/-!
# Are the points of an accepted run curve points?

The native operations of the Rust crate take any coordinates, while the precompiles that the
Solidity verifier calls fail on a point that is not on the curve. The same run with the precompiles
in place of the native operations succeeds exactly when the points that the proof and the generators
bring into an operation are curve points.
-/

namespace WorldZk.PointValidity

open CheckedRuns Bn254Moduli PoseidonSponge ProofTypes VerifierBackend CommittedSumcheck DagLayers
open InputLayers NativeCurve ZkmlVerifier ClaimBinding ProofDecoding

/-- The crate's verifier over the precompiles. -/
def precompileBackend : Backend :=
  { zkmlBackend with ecAdd := SolidityVerifier.ecAdd, ecMul := SolidityVerifier.scalarMul }

/-! ## Operations -/

theorem ecAdd_eq_ok {p q r : G1Point} : precompileBackend.ecAdd p q = .ok r ↔
    zkmlBackend.ecAdd p q = .ok r ∧ isOnCurve p = true ∧ isOnCurve q = true := by
  change SolidityVerifier.ecAdd p q = .ok r ↔ (.ok (NativeCurve.ecAdd p q) : Checked G1Point) = .ok r ∧ _
  simp only [SolidityVerifier.ecAdd, bind_eq_ok, require_eq_ok, pure_eq_ok, Bool.and_eq_true,
    Except.ok.injEq]
  constructor
  · rintro ⟨_, hon, hr⟩
    exact ⟨hr, hon⟩
  · rintro ⟨hr, hon⟩
    exact ⟨(), hon, hr⟩

theorem ecMul_eq_ok {p r : G1Point} {s : ℕ} : precompileBackend.ecMul p s = .ok r ↔
    zkmlBackend.ecMul p s = .ok r ∧ isOnCurve p = true := by
  change SolidityVerifier.scalarMul p s = .ok r ↔ (.ok (NativeCurve.ecMul p s) : Checked G1Point) = .ok r ∧ _
  simp only [SolidityVerifier.scalarMul, bind_eq_ok, require_eq_ok, pure_eq_ok, Except.ok.injEq]
  constructor
  · rintro ⟨_, hon, hr⟩
    exact ⟨hr, hon⟩
  · rintro ⟨hr, hon⟩
    exact ⟨(), hon, hr⟩

theorem isOnCurve_of_ecAdd {p q r : G1Point} (h : zkmlBackend.ecAdd p q = .ok r)
    (hp : isOnCurve p = true) (hq : isOnCurve q = true) : isOnCurve r = true := by
  cases h
  exact isOnCurve_ecAdd hp hq

theorem isOnCurve_of_ecMul {p r : G1Point} {s : ℕ} (h : zkmlBackend.ecMul p s = .ok r)
    (hp : isOnCurve p = true) : isOnCurve r = true := by
  cases h
  exact isOnCurve_ecMul_any hp s

theorem addMul_eq_ok {p q r : G1Point} {s : ℕ} :
    (do precompileBackend.ecAdd p (← precompileBackend.ecMul q s)) = .ok r ↔
      (do zkmlBackend.ecAdd p (← zkmlBackend.ecMul q s)) = .ok r ∧
        isOnCurve p = true ∧ isOnCurve q = true := by
  simp only [bind_eq_ok, ecAdd_eq_ok, ecMul_eq_ok]
  constructor
  · rintro ⟨m, ⟨hm, hq⟩, hr, hp, -⟩
    exact ⟨⟨m, hm, hr⟩, hp, hq⟩
  · rintro ⟨⟨m, hm, hr⟩, hp, hq⟩
    exact ⟨m, ⟨hm, hq⟩, hr, hp, isOnCurve_of_ecMul hm hq⟩

theorem isOnCurve_of_addMul {p q r : G1Point} {s : ℕ}
    (h : (do zkmlBackend.ecAdd p (← zkmlBackend.ecMul q s)) = .ok r) (hp : isOnCurve p = true)
    (hq : isOnCurve q = true) : isOnCurve r = true := by
  obtain ⟨m, hm, hr⟩ := bind_eq_ok.mp h
  exact isOnCurve_of_ecAdd hr hp (isOnCurve_of_ecMul hm hq)

/-! ## Combinations of points -/

theorem isOnCurve_of_multiScalarMul {points : List G1Point} {scalars : List ℕ} {r : G1Point}
    (h : multiScalarMul zkmlBackend points scalars = .ok r)
    (hpoints : ∀ p ∈ points, isOnCurve p = true) : isOnCurve r = true := by
  simp only [multiScalarMul, bind_eq_ok] at h
  obtain ⟨_, -, h⟩ := h
  have hzip : ∀ ps ∈ points.zip scalars, isOnCurve ps.1 = true :=
    fun ps hps => hpoints _ (List.of_mem_zip hps).1
  split at h
  · cases h
    exact isOnCurve_infinity
  · next p c rest heq =>
    rw [heq] at hzip
    obtain ⟨first, hfirst, hfold⟩ := bind_eq_ok.mp h
    refine foldlM_invariant (P := fun acc => isOnCurve acc = true) ?_
      (isOnCurve_of_ecMul hfirst (hzip _ List.mem_cons_self)) hfold
    intro acc ps t hps hacc hstep
    exact isOnCurve_of_addMul hstep hacc (hzip ps (List.mem_cons_of_mem _ hps))

theorem multiScalarMul_eq_ok {points : List G1Point} {scalars : List ℕ} {r : G1Point} :
    multiScalarMul precompileBackend points scalars = .ok r ↔
      multiScalarMul zkmlBackend points scalars = .ok r ∧ ∀ p ∈ points, isOnCurve p = true := by
  by_cases hlength : points.length = scalars.length
  · have hpoints : (∀ p ∈ points, isOnCurve p = true) ↔
        ∀ ps ∈ points.zip scalars, isOnCurve ps.1 = true := by
      have hfst : (points.zip scalars).map Prod.fst = points :=
        List.map_fst_zip hlength.le
      conv_lhs => rw [← hfst]
      rw [List.forall_mem_map]
    rw [hpoints]
    simp only [multiScalarMul, hlength, beq_self_eq_true, require_true, ok_bind]
    generalize points.zip scalars = pairs
    cases pairs with
    | nil => exact ⟨fun h => ⟨h, fun ps hps => absurd hps List.not_mem_nil⟩, fun h => h.1⟩
    | cons pair rest =>
      rw [bind_eq_ok, bind_eq_ok, List.forall_mem_cons]
      have hfold : ∀ first, isOnCurve first = true →
          (rest.foldlM (fun acc ps => do
              precompileBackend.ecAdd acc (← precompileBackend.ecMul ps.1 ps.2)) first = .ok r ↔
            rest.foldlM (fun acc ps => do
              zkmlBackend.ecAdd acc (← zkmlBackend.ecMul ps.1 ps.2)) first = .ok r ∧
            ∀ ps ∈ rest, isOnCurve ps.1 = true) := by
        intro first hfirst
        refine foldlM_iff_of_invariant (P := fun acc => isOnCurve acc = true)
          (Q := fun ps : G1Point × ℕ => isOnCurve ps.1 = true) ?_ ?_ hfirst
        · intro acc ps t _ hacc
          rw [addMul_eq_ok]
          exact ⟨fun h => ⟨h.1, h.2.2⟩, fun h => ⟨h.1, hacc, h.2⟩⟩
        · intro acc ps t _ hacc hstep
          obtain ⟨hstep, -, hps⟩ := addMul_eq_ok.mp hstep
          exact isOnCurve_of_addMul hstep hacc hps
      constructor
      · rintro ⟨first, hfirst, hrest⟩
        obtain ⟨hfirst, hp⟩ := ecMul_eq_ok.mp hfirst
        obtain ⟨hrest, hall⟩ := (hfold first (isOnCurve_of_ecMul hfirst hp)).mp hrest
        exact ⟨⟨first, hfirst, hrest⟩, hp, hall⟩
      · rintro ⟨⟨first, hfirst, hrest⟩, hp, hall⟩
        exact ⟨first, ecMul_eq_ok.mpr ⟨hfirst, hp⟩,
          (hfold first (isOnCurve_of_ecMul hfirst hp)).mpr ⟨hrest, hall⟩⟩
  · have hfail : ∀ b : Backend, multiScalarMul b points scalars ≠ .ok r := by
      intro b h
      simp only [multiScalarMul, bind_eq_ok, require_eq_ok, beq_iff_eq] at h
      obtain ⟨_, hlength', -⟩ := h
      exact hlength hlength'
    exact ⟨fun h => absurd h (hfail _), fun h => absurd h.1 (hfail _)⟩

theorem computeDotProduct_eq_ok {sum oracleEval r : G1Point} {rho0 rhoN : ℕ} :
    computeDotProduct precompileBackend sum oracleEval rho0 rhoN = .ok r ↔
      computeDotProduct zkmlBackend sum oracleEval rho0 rhoN = .ok r ∧
        isOnCurve sum = true ∧ isOnCurve oracleEval = true := by
  simp only [computeDotProduct, bind_eq_ok, ecAdd_eq_ok, ecMul_eq_ok]
  constructor
  · rintro ⟨m, ⟨hm, hsum⟩, n, hn, o, ⟨ho, horacle⟩, hr, -⟩
    exact ⟨⟨m, hm, n, hn, o, ho, hr⟩, hsum, horacle⟩
  · rintro ⟨⟨m, hm, n, hn, o, ho, hr⟩, hsum, horacle⟩
    exact ⟨m, ⟨hm, hsum⟩, n, hn, o, ⟨ho, horacle⟩, hr, isOnCurve_of_ecMul hm hsum,
      isOnCurve_of_ecMul ho horacle⟩

theorem isOnCurve_of_computeDotProduct {sum oracleEval r : G1Point} {rho0 rhoN : ℕ}
    (h : computeDotProduct zkmlBackend sum oracleEval rho0 rhoN = .ok r)
    (hsum : isOnCurve sum = true) (horacle : isOnCurve oracleEval = true) :
    isOnCurve r = true := by
  simp only [computeDotProduct, bind_eq_ok] at h
  obtain ⟨m, hm, n, -, o, ho, hr⟩ := h
  exact isOnCurve_of_ecAdd hr (isOnCurve_of_ecMul hm hsum) (isOnCurve_of_ecMul ho horacle)

/-! ## Dot-product and product proofs -/

/-- The generators that a dot-product proof with `n` responses reads. -/
structure GensOnCurve (gens : PedersenGens) (n : ℕ) : Prop where
  messageGens : ∀ p ∈ gens.messageGens.take n, isOnCurve p = true
  scalarGen : isOnCurve gens.scalarGen = true
  blindingGen : isOnCurve gens.blindingGen = true

private theorem podpLhs_eq_ok {com mask r : G1Point} {c : ℕ} :
    podpLhs precompileBackend com c mask = .ok r ↔
      podpLhs zkmlBackend com c mask = .ok r ∧ isOnCurve com = true ∧ isOnCurve mask = true := by
  simp only [podpLhs, bind_eq_ok, ecAdd_eq_ok, ecMul_eq_ok]
  constructor
  · rintro ⟨m, ⟨hm, hcom⟩, hr, -, hmask⟩
    exact ⟨⟨m, hm, hr⟩, hcom, hmask⟩
  · rintro ⟨⟨m, hm, hr⟩, hcom, hmask⟩
    exact ⟨m, ⟨hm, hcom⟩, hr, isOnCurve_of_ecMul hm hcom, hmask⟩

private theorem podpRhs_eq_ok {podp : PODPProof} {aVector : List ℕ} {gens : PedersenGens}
    {r : G1Point × G1Point} :
    podpRhs precompileBackend podp aVector gens = .ok r ↔
      podpRhs zkmlBackend podp aVector gens = .ok r ∧ GensOnCurve gens podp.zVector.length := by
  have hinner : innerProduct precompileBackend podp.zVector aVector =
      innerProduct zkmlBackend podp.zVector aVector := rfl
  simp only [podpRhs, msmWithTruncatedGens, hinner, bind_eq_ok, ecAdd_eq_ok, ecMul_eq_ok,
    multiScalarMul_eq_ok]
  constructor
  · rintro ⟨u, hu, v, hv, z, hz, msm, ⟨w, hw, hmsm, hgens⟩, bd, ⟨hbd, hblinding⟩, comZ, ⟨hcomZ, -⟩,
      g, ⟨hg, hscalar⟩, bb, ⟨hbb, -⟩, comDot, ⟨hcomDot, -⟩, hr⟩
    exact ⟨⟨u, hu, v, hv, z, hz, msm, ⟨w, hw, hmsm⟩, bd, hbd, comZ, hcomZ, g, hg, bb, hbb, comDot,
      hcomDot, hr⟩, hgens, hscalar, hblinding⟩
  · rintro ⟨⟨u, hu, v, hv, z, hz, msm, ⟨w, hw, hmsm⟩, bd, hbd, comZ, hcomZ, g, hg, bb, hbb, comDot,
      hcomDot, hr⟩, hgens, hscalar, hblinding⟩
    exact ⟨u, hu, v, hv, z, hz, msm, ⟨w, hw, hmsm, hgens⟩, bd, ⟨hbd, hblinding⟩, comZ,
      ⟨hcomZ, isOnCurve_of_multiScalarMul hmsm hgens, isOnCurve_of_ecMul hbd hblinding⟩, g,
      ⟨hg, hscalar⟩, bb, ⟨hbb, hblinding⟩, comDot,
      ⟨hcomDot, isOnCurve_of_ecMul hg hscalar, isOnCurve_of_ecMul hbb hblinding⟩, hr⟩

/-- The points that a dot-product proof brings. -/
structure PodpOnCurve (gens : PedersenGens) (podp : PODPProof) : Prop where
  gens : GensOnCurve gens podp.zVector.length
  commitD : isOnCurve podp.commitD = true
  commitDDotA : isOnCurve podp.commitDDotA = true

theorem verifyPodp_eq_true {podp : PODPProof} {c : ℕ} {comX comY : G1Point} {aVector : List ℕ}
    {gens : PedersenGens} :
    verifyPodp precompileBackend podp c comX comY aVector gens = .ok true ↔
      verifyPodp zkmlBackend podp c comX comY aVector gens = .ok true ∧
        PodpOnCurve gens podp ∧ isOnCurve comX = true ∧ isOnCurve comY = true := by
  rw [verifyPodp_true, verifyPodp_true]
  simp only [podpRhs_eq_ok, podpLhs_eq_ok]
  constructor
  · rintro ⟨rhs, ⟨hrhs, hgens⟩, ⟨hx, hcomX, hD⟩, hy, hcomY, hDA⟩
    exact ⟨⟨rhs, hrhs, hx, hy⟩, ⟨hgens, hD, hDA⟩, hcomX, hcomY⟩
  · rintro ⟨⟨rhs, hrhs, hx, hy⟩, ⟨hgens, hD, hDA⟩, hcomX, hcomY⟩
    exact ⟨rhs, ⟨hrhs, hgens⟩, ⟨hx, hcomX, hD⟩, hy, hcomY, hDA⟩

/-- The points that a product proof brings. -/
structure PopOnCurve (gens : PedersenGens) (pop : ProofOfProduct) : Prop where
  scalarGen : isOnCurve gens.scalarGen = true
  blindingGen : isOnCurve gens.blindingGen = true
  alpha : isOnCurve pop.alpha = true
  beta : isOnCurve pop.beta = true
  delta : isOnCurve pop.delta = true

/-- An accepted product proof satisfies its three equations. -/
private theorem popCheckEquations_true (b : Backend) {pop : ProofOfProduct}
    {comX comY comZ : G1Point} {gens : PedersenGens} {c : ℕ} :
    popCheckEquations b pop comX comY comZ gens c = .ok true ↔
      (∃ r, (do b.ecAdd pop.alpha (← b.ecMul comX c)) = .ok r ∧
        (do b.ecAdd (← b.ecMul gens.scalarGen pop.z1) (← b.ecMul gens.blindingGen pop.z2)) =
          .ok r) ∧
      (∃ r, (do b.ecAdd pop.beta (← b.ecMul comY c)) = .ok r ∧
        (do b.ecAdd (← b.ecMul gens.scalarGen pop.z3) (← b.ecMul gens.blindingGen pop.z4)) =
          .ok r) ∧
      ∃ r, (do b.ecAdd pop.delta (← b.ecMul comZ c)) = .ok r ∧
        (do b.ecAdd (← b.ecMul comX pop.z3) (← b.ecMul gens.blindingGen pop.z5)) = .ok r := by
  simp only [popCheckEquations, bind_eq_ok]
  constructor
  · rintro ⟨cx, hcx, lhs1, hlhs1, g1, hg1, b1, hb1, rhs1, hrhs1, h⟩
    split at h
    · cases h
    · next heq1 =>
      rw [not_not] at heq1
      simp only [bind_eq_ok] at h
      obtain ⟨cy, hcy, lhs2, hlhs2, g2, hg2, b2, hb2, rhs2, hrhs2, h⟩ := h
      split at h
      · cases h
      · next heq2 =>
        rw [not_not] at heq2
        simp only [bind_eq_ok, pure_eq_ok, decide_eq_true_eq] at h
        obtain ⟨cz, hcz, lhs3, hlhs3, x3, hx3, b3, hb3, rhs3, hrhs3, heq3⟩ := h
        subst heq1 heq2 heq3
        exact ⟨⟨_, ⟨cx, hcx, hlhs1⟩, g1, hg1, b1, hb1, hrhs1⟩,
          ⟨_, ⟨cy, hcy, hlhs2⟩, g2, hg2, b2, hb2, hrhs2⟩,
          _, ⟨cz, hcz, hlhs3⟩, x3, hx3, b3, hb3, hrhs3⟩
  · rintro ⟨⟨r1, ⟨cx, hcx, hlhs1⟩, g1, hg1, b1, hb1, hrhs1⟩,
      ⟨r2, ⟨cy, hcy, hlhs2⟩, g2, hg2, b2, hb2, hrhs2⟩,
      r3, ⟨cz, hcz, hlhs3⟩, x3, hx3, b3, hb3, hrhs3⟩
    refine ⟨cx, hcx, r1, hlhs1, g1, hg1, b1, hb1, r1, hrhs1, ?_⟩
    rw [if_neg (not_not.mpr rfl)]
    simp only [bind_eq_ok]
    refine ⟨cy, hcy, r2, hlhs2, g2, hg2, b2, hb2, r2, hrhs2, ?_⟩
    rw [if_neg (not_not.mpr rfl)]
    simp only [bind_eq_ok, pure_eq_ok, decide_eq_true_eq]
    exact ⟨cz, hcz, r3, hlhs3, x3, hx3, b3, hb3, r3, hrhs3, rfl⟩

/-- The sum of two multiples. -/
private theorem mulAddMul_eq_ok {p q r : G1Point} {s t : ℕ} :
    (do precompileBackend.ecAdd (← precompileBackend.ecMul p s) (← precompileBackend.ecMul q t)) =
        .ok r ↔
      (do zkmlBackend.ecAdd (← zkmlBackend.ecMul p s) (← zkmlBackend.ecMul q t)) = .ok r ∧
        isOnCurve p = true ∧ isOnCurve q = true := by
  simp only [bind_eq_ok, ecAdd_eq_ok, ecMul_eq_ok]
  constructor
  · rintro ⟨m, ⟨hm, hp⟩, n, ⟨hn, hq⟩, hr, -⟩
    exact ⟨⟨m, hm, n, hn, hr⟩, hp, hq⟩
  · rintro ⟨⟨m, hm, n, hn, hr⟩, hp, hq⟩
    exact ⟨m, ⟨hm, hp⟩, n, ⟨hn, hq⟩, hr, isOnCurve_of_ecMul hm hp, isOnCurve_of_ecMul hn hq⟩

theorem popCheckEquations_eq_true {pop : ProofOfProduct} {comX comY comZ : G1Point}
    {gens : PedersenGens} {c : ℕ} :
    popCheckEquations precompileBackend pop comX comY comZ gens c = .ok true ↔
      popCheckEquations zkmlBackend pop comX comY comZ gens c = .ok true ∧ PopOnCurve gens pop ∧
        isOnCurve comX = true ∧ isOnCurve comY = true ∧ isOnCurve comZ = true := by
  rw [popCheckEquations_true, popCheckEquations_true]
  simp only [addMul_eq_ok, mulAddMul_eq_ok]
  constructor
  · rintro ⟨⟨r1, ⟨hl1, halpha, hx⟩, hr1, hscalar, hblinding⟩, ⟨r2, ⟨hl2, hbeta, hy⟩, hr2, -⟩, r3,
      ⟨hl3, hdelta, hz⟩, hr3, -⟩
    exact ⟨⟨⟨r1, hl1, hr1⟩, ⟨r2, hl2, hr2⟩, r3, hl3, hr3⟩,
      ⟨hscalar, hblinding, halpha, hbeta, hdelta⟩, hx, hy, hz⟩
  · rintro ⟨⟨⟨r1, hl1, hr1⟩, ⟨r2, hl2, hr2⟩, r3, hl3, hr3⟩,
      ⟨hscalar, hblinding, halpha, hbeta, hdelta⟩, hx, hy, hz⟩
    exact ⟨⟨r1, ⟨hl1, halpha, hx⟩, hr1, hscalar, hblinding⟩,
      ⟨r2, ⟨hl2, hbeta, hy⟩, hr2, hscalar, hblinding⟩, r3, ⟨hl3, hdelta, hz⟩, hr3, hx, hblinding⟩

/-! ## Transcripts and scalars, which take no points -/

private theorem ops_eq : precompileBackend.ops = zkmlBackend.ops := rfl

private theorem toFr_eq : precompileBackend.toFr = zkmlBackend.toFr := rfl

private theorem challenges_eq (n : ℕ) (s : Sponge) :
    challenges precompileBackend n s = challenges zkmlBackend n s := by
  induction n generalizing s with
  | zero => rfl
  | succ n ih => simp only [challenges, challenge, ops_eq, toFr_eq, ih]

private theorem bindings_eq (ms : List G1Point) (s : Sponge) :
    absorbMessagesAndDeriveBindings precompileBackend ms s =
      absorbMessagesAndDeriveBindings zkmlBackend ms s := by
  induction ms generalizing s with
  | nil => rfl
  | cons m ms ih =>
    simp only [absorbMessagesAndDeriveBindings, challenge, absorbPoint, ops_eq, toFr_eq, ih]

private theorem absorbPodp_eq (podp : PODPProof) (s : Sponge) :
    absorbPodp precompileBackend podp s = absorbPodp zkmlBackend podp s := by
  simp only [absorbPodp, challenge, absorbPoint, absorbWords, ops_eq, toFr_eq]

private theorem popTranscript_eq (pops : List ProofOfProduct) (s : Sponge) :
    popTranscript precompileBackend pops s = popTranscript zkmlBackend pops s := by
  induction pops generalizing s with
  | nil => rfl
  | cons pop pops ih =>
    simp only [popTranscript, absorbPop, challenge, absorbPoint, absorbWords, ops_eq, toFr_eq, ih]

private theorem layerChallenges_eq (n : ℕ) (lp : CommittedLayerProof) (s : Sponge) :
    layerChallenges precompileBackend n lp s = layerChallenges zkmlBackend n lp s := by
  have hpoints : absorbPoints precompileBackend = absorbPoints zkmlBackend := by
    funext s ps
    exact congrArg (fun f => ps.foldl f s) (funext₂ fun t p => by simp only [absorbPoint, ops_eq])
  simp only [layerChallenges, challenges_eq, bindings_eq, absorbPodp_eq, popTranscript_eq, hpoints]

private theorem jStarRow_eq (gammaInv rho rhoNext binding k d power : ℕ) :
    jStarRow precompileBackend gammaInv rho rhoNext binding k d power =
      jStarRow zkmlBackend gammaInv rho rhoNext binding k d power := by
  induction k generalizing d power with
  | zero => rfl
  | succ k ih =>
    simp only [jStarRow, ih]
    rfl

private theorem computeJStar_eq (rhos gammas bindings : List ℕ) (degree n : ℕ) :
    computeJStar precompileBackend rhos gammas bindings degree n =
      computeJStar zkmlBackend rhos gammas bindings degree n := by
  simp only [computeJStar, jStarRow_eq]
  rfl

/-! ## Layers -/

theorem sumcheckHolds_eq_true {proof : CommittedSumcheckProof} {sum oracleEval : G1Point}
    {degree : ℕ} {ch : LayerChallenges} {gens : PedersenGens} :
    sumcheckHolds precompileBackend sum proof oracleEval degree ch gens = .ok true ↔
      sumcheckHolds zkmlBackend sum proof oracleEval degree ch gens = .ok true ∧
        (∀ p ∈ proof.messages, isOnCurve p = true) ∧ PodpOnCurve gens proof.podp ∧
        isOnCurve sum = true ∧ isOnCurve oracleEval = true := by
  simp only [sumcheckHolds, bind_eq_ok, computeJStar_eq, multiScalarMul_eq_ok,
    computeDotProduct_eq_ok, verifyPodp_eq_true]
  constructor
  · rintro ⟨alpha, ⟨halpha, hmessages⟩, jStar, hj, rho0, h0, rhoN, hN, dot, ⟨hdot, hsum, horacle⟩,
      hpodp, hon, -⟩
    exact ⟨⟨alpha, halpha, jStar, hj, rho0, h0, rhoN, hN, dot, hdot, hpodp⟩, hmessages, hon, hsum,
      horacle⟩
  · rintro ⟨⟨alpha, halpha, jStar, hj, rho0, h0, rhoN, hN, dot, hdot, hpodp⟩, hmessages, hon, hsum,
      horacle⟩
    exact ⟨alpha, ⟨halpha, hmessages⟩, jStar, hj, rho0, h0, rhoN, hN, dot, ⟨hdot, hsum, horacle⟩,
      hpodp, hon, isOnCurve_of_multiScalarMul halpha hmessages,
      isOnCurve_of_computeDotProduct hdot hsum horacle⟩

/-- The points of a product proof, with its window of commitments. -/
def WindowOnCurve (gens : PedersenGens) (commitments : List G1Point) (commitIdx : ℕ)
    (pop : ProofOfProduct) : Prop :=
  PopOnCurve gens pop ∧
    ∀ k < 3, ∀ p, commitments[commitIdx + k]? = some p → isOnCurve p = true

private theorem window_of_onCurve {commitments : List G1Point} {i : ℕ} {x y z : G1Point}
    (hx : commitments[i]? = some x) (hy : commitments[i + 1]? = some y)
    (hz : commitments[i + 2]? = some z) (hxon : isOnCurve x = true) (hyon : isOnCurve y = true)
    (hzon : isOnCurve z = true) :
    ∀ k < 3, ∀ p, commitments[i + k]? = some p → isOnCurve p = true := by
  intro k hk p hp
  interval_cases k
  · rwa [← Option.some.inj (hx.symm.trans hp)]
  · rwa [← Option.some.inj (hy.symm.trans hp)]
  · rwa [← Option.some.inj (hz.symm.trans hp)]

theorem productsHold_eq_true {commitments : List G1Point} {gens : PedersenGens} {commitIdx : ℕ}
    {pops : List ProofOfProduct} {cs : List ℕ} (hlength : cs.length = pops.length) :
    productsHold precompileBackend commitments gens commitIdx pops cs = .ok true ↔
      productsHold zkmlBackend commitments gens commitIdx pops cs = .ok true ∧
        ∀ j pop, pops[j]? = some pop → WindowOnCurve gens commitments (commitIdx + j) pop := by
  induction pops generalizing commitIdx cs with
  | nil =>
    simp only [productsHold]
    exact ⟨fun h => ⟨h, fun j pop hpop => by cases hpop⟩, fun h => h.1⟩
  | cons pop pops ih =>
    cases cs with
    | nil => cases hlength
    | cons c cs =>
      have hrest := @ih (commitIdx + 1) cs (Nat.succ.inj hlength)
      simp only [productsHold, bind_eq_ok, getIdx_eq_ok]
      constructor
      · rintro ⟨u, hu, x, hx, y, hy, z, hz, valid, hvalid, h⟩
        cases valid with
        | false => cases h
        | true =>
          obtain ⟨hvalid, hpop, hxon, hyon, hzon⟩ := popCheckEquations_eq_true.mp hvalid
          obtain ⟨h, hpops⟩ := hrest.mp h
          refine ⟨⟨u, hu, x, hx, y, hy, z, hz, true, hvalid, h⟩, ?_⟩
          intro j pop' hpop'
          cases j with
          | zero =>
            cases hpop'
            exact ⟨hpop, window_of_onCurve hx hy hz hxon hyon hzon⟩
          | succ j =>
            rw [Nat.add_succ, ← Nat.succ_add]
            exact hpops j pop' hpop'
      · rintro ⟨⟨u, hu, x, hx, y, hy, z, hz, valid, hvalid, h⟩, hwindows⟩
        cases valid with
        | false => cases h
        | true =>
          obtain ⟨hpop, hwindow⟩ := hwindows 0 pop rfl
          refine ⟨u, hu, x, hx, y, hy, z, hz, true, popCheckEquations_eq_true.mpr
            ⟨hvalid, hpop, hwindow 0 (by decide) x hx, hwindow 1 (by decide) y hy,
              hwindow 2 (by decide) z hz⟩, hrest.mpr ⟨h, ?_⟩⟩
          intro j pop' hpop'
          rw [Nat.add_assoc, Nat.add_comm 1]
          exact hwindows (j + 1) pop' hpop'

/-- The commitment that a routed atom claims about is a curve point. -/
def ClaimOnCurve (proof : GKRProof) (desc : DAGCircuitDescription) (atom : ℕ × ℕ) : Prop :=
  ∀ p, atomCommitment proof desc atom = .ok p → isOnCurve p = true

private theorem computeBeta_eq (bindings point : List ℕ) :
    computeBeta precompileBackend bindings point = computeBeta zkmlBackend bindings point := rfl

private theorem rlcStart_eq_ok {layerIdx : ℕ} {ctx : VerifyContext} {bindings rlcCoeffs : List ℕ}
    {st : RlcState} :
    rlcStart precompileBackend layerIdx ctx bindings rlcCoeffs = .ok st ↔
      rlcStart zkmlBackend layerIdx ctx bindings rlcCoeffs = .ok st ∧
        (layerIdx = 0 → isOnCurve ctx.outputEval = true) := by
  unfold rlcStart
  split
  · next hzero =>
    simp only [bind_eq_ok, ecMul_eq_ok, computeBeta_eq]
    constructor
    · rintro ⟨coeff, hcoeff, r, ⟨hr, hon⟩, beta, hbeta, h⟩
      exact ⟨⟨coeff, hcoeff, r, hr, beta, hbeta, h⟩, fun _ => hon⟩
    · rintro ⟨⟨coeff, hcoeff, r, hr, beta, hbeta, h⟩, hon⟩
      exact ⟨coeff, hcoeff, r, ⟨hr, hon hzero⟩, beta, hbeta, h⟩
  · next hpos => exact ⟨fun h => ⟨h, fun hzero => absurd hzero hpos⟩, fun h => h.1⟩

private theorem isOnCurve_of_rlcStart {layerIdx : ℕ} {ctx : VerifyContext}
    {bindings rlcCoeffs : List ℕ} {st : RlcState}
    (h : rlcStart zkmlBackend layerIdx ctx bindings rlcCoeffs = .ok st)
    (hon : layerIdx = 0 → isOnCurve ctx.outputEval = true) : isOnCurve st.rlcEval = true := by
  unfold rlcStart at h
  split at h
  · next hzero =>
    simp only [bind_eq_ok, pure_eq_ok] at h
    obtain ⟨coeff, -, r, hr, beta, -, rfl⟩ := h
    exact isOnCurve_of_ecMul hr (hon hzero)
  · cases h
    exact isOnCurve_infinity

/-- A step adds a multiple of the commitment that its atom claims about. -/
private theorem rlcStep_eq_ok (b : Backend) {proof : GKRProof} {desc : DAGCircuitDescription}
    {ctx : VerifyContext} {bindings rlcCoeffs : List ℕ} {st st' : RlcState} {atom : ℕ × ℕ} :
    rlcStep b proof desc ctx bindings rlcCoeffs st atom = .ok st' ↔
      ∃ p point beta coeff, atomCommitment proof desc atom = .ok p ∧
        (do resolvePoint desc atom.2 (← getIdx ctx.allBindings atom.1)) = .ok point ∧
        computeBeta b bindings point = .ok beta ∧ getIdx rlcCoeffs st.coeffIdx = .ok coeff ∧
        (do b.ecAdd st.rlcEval (← b.ecMul p coeff)) = .ok st'.rlcEval ∧
        st'.rlcBeta = b.add st.rlcBeta (b.mul beta coeff) ∧ st'.coeffIdx = st.coeffIdx + 1 := by
  simp only [rlcStep, atomCommitment, bind_eq_ok, pure_eq_ok]
  constructor
  · rintro ⟨idx, hidx, source, hsource, p, hp, bs, hbs, point, hpoint, beta, hbeta, coeff, hcoeff, m,
      hm, r, hr, rfl⟩
    exact ⟨p, point, beta, coeff, ⟨source, hsource, idx, hidx, hp⟩, ⟨bs, hbs, hpoint⟩, hbeta, hcoeff,
      ⟨m, hm, hr⟩, rfl, rfl⟩
  · rintro ⟨p, point, beta, coeff, ⟨source, hsource, idx, hidx, hp⟩, ⟨bs, hbs, hpoint⟩, hbeta, hcoeff,
      ⟨m, hm, hr⟩, hsum, hindex⟩
    refine ⟨idx, hidx, source, hsource, p, hp, bs, hbs, point, hpoint, beta, hbeta, coeff, hcoeff, m,
      hm, _, hr, ?_⟩
    cases st'
    simp only at hsum hindex
    rw [hsum, hindex]

theorem computeRlcEvalAndBeta_eq_ok {layerIdx : ℕ} {proof : GKRProof} {desc : DAGCircuitDescription}
    {ctx : VerifyContext} {bindings rlcCoeffs : List ℕ} {r : G1Point × ℕ} :
    computeRlcEvalAndBeta precompileBackend layerIdx proof desc ctx bindings rlcCoeffs = .ok r ↔
      computeRlcEvalAndBeta zkmlBackend layerIdx proof desc ctx bindings rlcCoeffs = .ok r ∧
        (layerIdx = 0 → isOnCurve ctx.outputEval = true) ∧
        ∀ atoms, routedAtoms desc layerIdx layerIdx = .ok atoms →
          ∀ atom ∈ atoms, ClaimOnCurve proof desc atom := by
  have hfold : ∀ (atoms : List (ℕ × ℕ)) (st st' : RlcState), isOnCurve st.rlcEval = true →
      (atoms.foldlM (rlcStep precompileBackend proof desc ctx bindings rlcCoeffs) st = .ok st' ↔
        atoms.foldlM (rlcStep zkmlBackend proof desc ctx bindings rlcCoeffs) st = .ok st' ∧
          ∀ atom ∈ atoms, ClaimOnCurve proof desc atom) := by
    intro atoms st st' hst
    refine foldlM_iff_of_invariant (P := fun st => isOnCurve st.rlcEval = true)
      (Q := ClaimOnCurve proof desc) ?_ ?_ hst
    · intro st atom st' _ hst
      rw [rlcStep_eq_ok, rlcStep_eq_ok]
      simp only [computeBeta_eq, addMul_eq_ok]
      constructor
      · rintro ⟨p, point, beta, coeff, hp, hpoint, hbeta, hcoeff, ⟨hadd, -, hon⟩, hrest⟩
        refine ⟨⟨p, point, beta, coeff, hp, hpoint, hbeta, hcoeff, hadd, hrest⟩, ?_⟩
        intro q hq
        rwa [← Except.ok.inj (hp.symm.trans hq)]
      · rintro ⟨⟨p, point, beta, coeff, hp, hpoint, hbeta, hcoeff, hadd, hrest⟩, hclaim⟩
        exact ⟨p, point, beta, coeff, hp, hpoint, hbeta, hcoeff, ⟨hadd, hst, hclaim p hp⟩, hrest⟩
    · intro st atom st' _ hst hstep
      rw [rlcStep_eq_ok] at hstep
      obtain ⟨p, point, beta, coeff, hp, -, -, -, hadd, -⟩ := hstep
      obtain ⟨hadd, hon, hpon⟩ := addMul_eq_ok.mp hadd
      exact isOnCurve_of_addMul hadd hon hpon
  simp only [computeRlcEvalAndBeta, bind_eq_ok, rlcStart_eq_ok]
  constructor
  · rintro ⟨st, ⟨hst, hout⟩, atoms, hatoms, st', hrun, h⟩
    obtain ⟨hrun, hclaims⟩ := (hfold atoms st st' (isOnCurve_of_rlcStart hst hout)).mp hrun
    refine ⟨⟨st, hst, atoms, hatoms, st', hrun, h⟩, hout, ?_⟩
    intro atoms' hatoms'
    rwa [← Except.ok.inj (hatoms.symm.trans hatoms')]
  · rintro ⟨⟨st, hst, atoms, hatoms, st', hrun, h⟩, hout, hclaims⟩
    exact ⟨st, ⟨hst, hout⟩, atoms, hatoms, st',
      (hfold atoms st st' (isOnCurve_of_rlcStart hst hout)).mpr ⟨hrun, hclaims atoms hatoms⟩, h⟩

/-- The commitments that the layer's expression takes. -/
def OracleOnCurve (commitments : List G1Point) (layerIdx : ℕ) (desc : DAGCircuitDescription) :
    Prop :=
  ∀ prodStart prodEnd, desc.oracleProductOffsets[layerIdx]? = some prodStart →
    desc.oracleProductOffsets[layerIdx + 1]? = some prodEnd →
    ∀ j ∈ List.range' prodStart (prodEnd - prodStart), ∀ resultIdx p,
      desc.oracleResultIdxs[j]? = some resultIdx → commitments[resultIdx]? = some p →
      isOnCurve p = true

/-- One term of the expression, for a back end. -/
private theorem oracleStep_eq_ok (b : Backend) {commitments : List G1Point} {rlcBeta j : ℕ}
    {desc : DAGCircuitDescription} {acc r : G1Point} :
    (do
      let resultIdx ← getIdx desc.oracleResultIdxs j
      let coeff := b.mul rlcBeta (← getIdx desc.oracleExprCoeffs j)
      b.ecAdd acc (← b.ecMul (← getIdx commitments resultIdx) coeff)) = .ok r ↔
      ∃ resultIdx coeff p, desc.oracleResultIdxs[j]? = some resultIdx ∧
        desc.oracleExprCoeffs[j]? = some coeff ∧ commitments[resultIdx]? = some p ∧
        (do b.ecAdd acc (← b.ecMul p (b.mul rlcBeta coeff))) = .ok r := by
  simp only [bind_eq_ok, getIdx_eq_ok]
  constructor
  · rintro ⟨resultIdx, hidx, coeff, hcoeff, p, hp, m, hm, hr⟩
    exact ⟨resultIdx, coeff, p, hidx, hcoeff, hp, m, hm, hr⟩
  · rintro ⟨resultIdx, coeff, p, hidx, hcoeff, hp, m, hm, hr⟩
    exact ⟨resultIdx, hidx, coeff, hcoeff, p, hp, m, hm, hr⟩

theorem computeOracleEval_eq_ok {commitments : List G1Point} {layerIdx rlcBeta : ℕ}
    {desc : DAGCircuitDescription} {r : G1Point} :
    computeOracleEval precompileBackend commitments layerIdx rlcBeta desc = .ok r ↔
      computeOracleEval zkmlBackend commitments layerIdx rlcBeta desc = .ok r ∧
        OracleOnCurve commitments layerIdx desc := by
  have hfold : ∀ js : List ℕ,
      (js.foldlM (fun result j => do
          let resultIdx ← getIdx desc.oracleResultIdxs j
          let coeff := precompileBackend.mul rlcBeta (← getIdx desc.oracleExprCoeffs j)
          precompileBackend.ecAdd result
            (← precompileBackend.ecMul (← getIdx commitments resultIdx) coeff))
          G1Point.INFINITY = .ok r ↔
        js.foldlM (fun result j => do
          let resultIdx ← getIdx desc.oracleResultIdxs j
          let coeff := zkmlBackend.mul rlcBeta (← getIdx desc.oracleExprCoeffs j)
          zkmlBackend.ecAdd result (← zkmlBackend.ecMul (← getIdx commitments resultIdx) coeff))
          G1Point.INFINITY = .ok r ∧
        ∀ j ∈ js, ∀ resultIdx p, desc.oracleResultIdxs[j]? = some resultIdx →
          commitments[resultIdx]? = some p → isOnCurve p = true) := by
    intro js
    refine foldlM_iff_of_invariant (P := fun acc => isOnCurve acc = true)
      (Q := fun j => ∀ resultIdx p, desc.oracleResultIdxs[j]? = some resultIdx →
        commitments[resultIdx]? = some p → isOnCurve p = true) ?_ ?_ isOnCurve_infinity
    · intro acc j t _ hacc
      rw [oracleStep_eq_ok, oracleStep_eq_ok]
      simp only [addMul_eq_ok]
      constructor
      · rintro ⟨resultIdx, coeff, p, hidx, hcoeff, hp, hadd, -, hon⟩
        refine ⟨⟨resultIdx, coeff, p, hidx, hcoeff, hp, hadd⟩, ?_⟩
        intro resultIdx' p' hidx' hp'
        cases Option.some.inj (hidx.symm.trans hidx')
        rwa [← Option.some.inj (hp.symm.trans hp')]
      · rintro ⟨⟨resultIdx, coeff, p, hidx, hcoeff, hp, hadd⟩, hon⟩
        exact ⟨resultIdx, coeff, p, hidx, hcoeff, hp, hadd, hacc, hon resultIdx p hidx hp⟩
    · intro acc j t _ hacc hstep
      rw [oracleStep_eq_ok] at hstep
      obtain ⟨resultIdx, coeff, p, -, -, -, hadd⟩ := hstep
      obtain ⟨hadd, -, hon⟩ := addMul_eq_ok.mp hadd
      exact isOnCurve_of_addMul hadd hacc hon
  simp only [computeOracleEval, bind_eq_ok, getIdx_eq_ok]
  constructor
  · rintro ⟨prodStart, hstart, prodEnd, hend, h⟩
    obtain ⟨h, hon⟩ := (hfold _).mp h
    refine ⟨⟨prodStart, hstart, prodEnd, hend, h⟩, ?_⟩
    intro prodStart' prodEnd' hstart' hend'
    cases Option.some.inj (hstart.symm.trans hstart')
    cases Option.some.inj (hend.symm.trans hend')
    exact hon
  · rintro ⟨⟨prodStart, hstart, prodEnd, hend, h⟩, hon⟩
    exact ⟨prodStart, hstart, prodEnd, hend,
      (hfold _).mpr ⟨h, hon prodStart prodEnd hstart hend⟩⟩

private theorem isOnCurve_of_computeOracleEval {commitments : List G1Point} {layerIdx rlcBeta : ℕ}
    {desc : DAGCircuitDescription} {r : G1Point}
    (h : computeOracleEval precompileBackend commitments layerIdx rlcBeta desc = .ok r) :
    isOnCurve r = true := by
  simp only [computeOracleEval, bind_eq_ok, getIdx_eq_ok] at h
  obtain ⟨prodStart, -, prodEnd, -, h⟩ := h
  refine foldlM_invariant (P := fun acc => isOnCurve acc = true) ?_ isOnCurve_infinity h
  intro acc j t _ hacc hstep
  rw [oracleStep_eq_ok] at hstep
  obtain ⟨resultIdx, coeff, p, -, -, -, hadd⟩ := hstep
  obtain ⟨hadd, -, hon⟩ := addMul_eq_ok.mp hadd
  exact isOnCurve_of_addMul hadd hacc hon

/-- The points that a layer brings into its checks. -/
structure LayerOnCurve (layerIdx : ℕ) (proof : GKRProof) (desc : DAGCircuitDescription)
    (gens : PedersenGens) (lp : CommittedLayerProof) : Prop where
  claims : ∀ atoms, routedAtoms desc layerIdx layerIdx = .ok atoms →
    ∀ atom ∈ atoms, ClaimOnCurve proof desc atom
  oracle : OracleOnCurve lp.commitments layerIdx desc
  sum : isOnCurve lp.sumcheckProof.sum = true
  messages : ∀ p ∈ lp.sumcheckProof.messages, isOnCurve p = true
  podp : PodpOnCurve gens lp.sumcheckProof.podp
  products : ∀ j pop, lp.pops[j]? = some pop → WindowOnCurve gens lp.commitments j pop

private theorem length_popTranscript (b : Backend) (pops : List ProofOfProduct) (s : Sponge) :
    (popTranscript b pops s).1.length = pops.length := by
  induction pops generalizing s with
  | nil => rfl
  | cons pop pops ih => rw [popTranscript, List.length_cons, ih, List.length_cons]

theorem layerAccepted_iff {layerIdx : ℕ} {proof : GKRProof} {desc : DAGCircuitDescription}
    {gens : PedersenGens} {ctx : VerifyContext} {lp : CommittedLayerProof} {ch : LayerChallenges}
    {run : LayerRun} (hpops : ch.popChallenges.length = lp.pops.length) :
    LayerAccepted precompileBackend layerIdx proof desc gens ctx lp ch run ↔
      LayerAccepted zkmlBackend layerIdx proof desc gens ctx lp ch run ∧
        (layerIdx = 0 → isOnCurve ctx.outputEval = true) ∧
        LayerOnCurve layerIdx proof desc gens lp := by
  constructor
  · rintro ⟨hcoeffs, hbindings, hrlc, horacle, ⟨layerType, htype, hsum⟩, hproducts⟩
    obtain ⟨hrlc, hout, hclaims⟩ := computeRlcEvalAndBeta_eq_ok.mp hrlc
    obtain ⟨horacle, horacleOn⟩ := computeOracleEval_eq_ok.mp horacle
    obtain ⟨hsum, hmessages, hpodp, hsumOn, -⟩ := sumcheckHolds_eq_true.mp hsum
    obtain ⟨hproducts, hwindows⟩ := (productsHold_eq_true hpops).mp hproducts
    refine ⟨⟨hcoeffs, hbindings, hrlc, horacle, ⟨layerType, htype, hsum⟩, hproducts⟩, hout, hclaims,
      horacleOn, hsumOn, hmessages, hpodp, ?_⟩
    intro j pop hpop
    rw [← Nat.zero_add j]
    exact hwindows j pop hpop
  · rintro ⟨⟨hcoeffs, hbindings, hrlc, horacle, ⟨layerType, htype, hsum⟩, hproducts⟩, hout, hon⟩
    have horacle' := computeOracleEval_eq_ok.mpr ⟨horacle, hon.oracle⟩
    refine ⟨hcoeffs, hbindings, computeRlcEvalAndBeta_eq_ok.mpr ⟨hrlc, hout, hon.claims⟩, horacle',
      ⟨layerType, htype, sumcheckHolds_eq_true.mpr ⟨hsum, hon.messages, hon.podp, hon.sum,
        isOnCurve_of_computeOracleEval horacle'⟩⟩, (productsHold_eq_true hpops).mpr ⟨hproducts, ?_⟩⟩
    intro j pop hpop
    rw [Nat.zero_add]
    exact hon.products j pop hpop

theorem processOneLayer_eq_ok_iff {layerIdx : ℕ} {proof : GKRProof} {desc : DAGCircuitDescription}
    {gens : PedersenGens} {ctx : VerifyContext} {s : Sponge} {out : LayerRun × Sponge} :
    processOneLayer precompileBackend layerIdx proof desc gens ctx s = .ok out ↔
      processOneLayer zkmlBackend layerIdx proof desc gens ctx s = .ok out ∧
        (layerIdx = 0 → isOnCurve ctx.outputEval = true) ∧
        ∀ lp, proof.layerProofs[layerIdx]? = some lp →
          LayerOnCurve layerIdx proof desc gens lp := by
  obtain ⟨run, s'⟩ := out
  rw [processOneLayer_eq_ok, processOneLayer_eq_ok]
  simp only [layerChallenges_eq]
  constructor
  · rintro ⟨lp, hlp, haccepted, hs'⟩
    obtain ⟨haccepted, hout, hon⟩ := (layerAccepted_iff (length_popTranscript _ _ _)).mp haccepted
    refine ⟨⟨lp, hlp, haccepted, hs'⟩, hout, ?_⟩
    intro lp' hlp'
    rwa [← Option.some.inj (hlp.symm.trans hlp')]
  · rintro ⟨⟨lp, hlp, haccepted, hs'⟩, hout, hon⟩
    exact ⟨lp, hlp, (layerAccepted_iff (length_popTranscript _ _ _)).mpr
      ⟨haccepted, hout, hon lp hlp⟩, hs'⟩

theorem processLayers_eq_ok_iff {proof : GKRProof} {desc : DAGCircuitDescription}
    {gens : PedersenGens} {is : List ℕ} {ctx : VerifyContext} {s : Sponge}
    {out : List LayerRun × VerifyContext × Sponge} :
    processLayers precompileBackend proof desc gens is ctx s = .ok out ↔
      processLayers zkmlBackend proof desc gens is ctx s = .ok out ∧
        ∀ i ∈ is, (i = 0 → isOnCurve ctx.outputEval = true) ∧
          ∀ lp, proof.layerProofs[i]? = some lp → LayerOnCurve i proof desc gens lp := by
  induction is generalizing ctx s out with
  | nil =>
    rw [processLayers_nil, processLayers_nil]
    exact ⟨fun h => ⟨h, fun i hi => absurd hi List.not_mem_nil⟩, fun h => h.1⟩
  | cons i is ih =>
    rw [processLayers_cons, processLayers_cons, List.forall_mem_cons]
    constructor
    · rintro ⟨run, s₁, runs, hrun, hrest, hout⟩
      obtain ⟨hrun, hon⟩ := processOneLayer_eq_ok_iff.mp hrun
      obtain ⟨hrest, hons⟩ := ih.mp hrest
      exact ⟨⟨run, s₁, runs, hrun, hrest, hout⟩, hon, hons⟩
    · rintro ⟨⟨run, s₁, runs, hrun, hrest, hout⟩, hon, hons⟩
      exact ⟨run, s₁, runs, processOneLayer_eq_ok_iff.mpr ⟨hrun, hon⟩, ih.mpr ⟨hrest, hons⟩, hout⟩

/-- The points of the compute phase. -/
structure ComputeOnCurve (proof : GKRProof) (desc : DAGCircuitDescription) (gens : PedersenGens) :
    Prop where
  output : 0 < desc.numComputeLayers → ∀ p, proof.outputClaimCommitments[0]? = some p →
    isOnCurve p = true
  layers : ∀ i < desc.numComputeLayers, ∀ lp, proof.layerProofs[i]? = some lp →
    LayerOnCurve i proof desc gens lp

theorem verifyComputeLayers_eq_ok_iff {proof : GKRProof} {desc : DAGCircuitDescription}
    {gens : PedersenGens} {s : Sponge} {out : List LayerRun × VerifyContext × Sponge} :
    verifyComputeLayers precompileBackend proof desc gens s = .ok out ↔
      verifyComputeLayers zkmlBackend proof desc gens s = .ok out ∧
        ComputeOnCurve proof desc gens := by
  have hphase : outputPhase precompileBackend proof s = outputPhase zkmlBackend proof s := by
    simp only [outputPhase, challenges_eq, absorbPoint, ops_eq]
  have heval : ∀ ctx s', outputPhase zkmlBackend proof s = .ok (ctx, s') →
      proof.outputClaimCommitments[0]? = some ctx.outputEval := by
    intro ctx s' h
    simp only [outputPhase, bind_eq_ok, getIdx_eq_ok, pure_eq_ok] at h
    obtain ⟨first, -, p, hp, h⟩ := h
    cases h
    exact hp
  simp only [verifyComputeLayers, bind_eq_ok, hphase]
  constructor
  · rintro ⟨⟨ctx, s'⟩, houtput, h⟩
    obtain ⟨h, hon⟩ := processLayers_eq_ok_iff.mp h
    refine ⟨⟨(ctx, s'), houtput, h⟩, ?_, fun i hi => (hon i (List.mem_range.mpr hi)).2⟩
    intro hpos p hp
    rw [← Option.some.inj ((heval ctx s' houtput).symm.trans hp)]
    exact (hon 0 (List.mem_range.mpr hpos)).1 rfl
  · rintro ⟨⟨⟨ctx, s'⟩, houtput, h⟩, hon⟩
    refine ⟨(ctx, s'), houtput, processLayers_eq_ok_iff.mpr ⟨h, ?_⟩⟩
    intro i hi
    have hi := List.mem_range.mp hi
    exact ⟨fun hzero => hon.output (by omega) _ (heval ctx s' houtput), hon.layers i hi⟩

/-! ## Input layers -/

private theorem tensorTable_eq (coords : List ℕ) :
    tensorTable precompileBackend coords = tensorTable zkmlBackend coords := by
  induction coords with
  | nil => rfl
  | cons r rs ih =>
    simp only [tensorTable, ih]
    rfl

private theorem groupTensors_eq (claimPoints : List (List ℕ)) (lHalfLen logNCols : ℕ)
    (group rlcCoeffs : List ℕ) :
    groupTensors precompileBackend claimPoints lHalfLen logNCols group rlcCoeffs =
      groupTensors zkmlBackend claimPoints lHalfLen logNCols group rlcCoeffs := by
  have htensor : initializeTensor precompileBackend = initializeTensor zkmlBackend := by
    funext coords
    simp only [initializeTensor, tensorTable_eq]
    rfl
  have hrlc : computeRlcTensor precompileBackend = computeRlcTensor zkmlBackend := by
    funext points lHalfLen coeffs
    simp only [computeRlcTensor, htensor]
    rfl
  simp only [groupTensors, htensor, hrlc]

private theorem groupChallenges_eq (n : ℕ) (comEval : G1Point) (podp : PODPProof) (s : Sponge) :
    groupChallenges precompileBackend n comEval podp s =
      groupChallenges zkmlBackend n comEval podp s := by
  simp only [groupChallenges, challenges_eq, absorbPodp_eq, absorbPoint, ops_eq]

theorem openingHolds_eq_true {rows : List G1Point} {podp : PODPProof} {comY : G1Point}
    {lCoeffs rCoeffs : List ℕ} {c : ℕ} {gens : PedersenGens} :
    openingHolds precompileBackend rows podp comY lCoeffs rCoeffs c gens = .ok true ↔
      openingHolds zkmlBackend rows podp comY lCoeffs rCoeffs c gens = .ok true ∧
        (∀ p ∈ rows, isOnCurve p = true) ∧ PodpOnCurve gens podp ∧ isOnCurve comY = true := by
  have hcheck : precompileBackend.checkEvaluation = zkmlBackend.checkEvaluation := rfl
  simp only [openingHolds, hcheck, bind_eq_ok, multiScalarMul_eq_ok, verifyPodp_eq_true]
  constructor
  · rintro ⟨u, hu, comX, ⟨hcomX, hrows⟩, hpodp, hon, -, hcomY⟩
    exact ⟨⟨u, hu, comX, hcomX, hpodp⟩, hrows, hon, hcomY⟩
  · rintro ⟨⟨u, hu, comX, hcomX, hpodp⟩, hrows, hon, hcomY⟩
    exact ⟨u, hu, comX, ⟨hcomX, hrows⟩, hpodp, hon, isOnCurve_of_multiScalarMul hcomX hrows, hcomY⟩

/-- The points that the eval group `g` brings into its opening. -/
structure GroupOnCurve (gens : PedersenGens) (dagProof : DAGInputLayerProof) (g : ℕ) : Prop where
  rows : ∀ p ∈ dagProof.commitmentRows, isOnCurve p = true
  podp : ∀ podp, dagProof.podps[g]? = some podp → PodpOnCurve gens podp
  comEval : ∀ p, dagProof.comEvals[g]? = some p → isOnCurve p = true

theorem verifyOneEvalGroup_eq_ok_iff {dagProof : DAGInputLayerProof} {claimPoints : List (List ℕ)}
    {lHalfLen logNCols : ℕ} {gens : PedersenGens} {g : ℕ} {group : List ℕ} {s : Sponge}
    {out : GroupRun × Sponge} :
    verifyOneEvalGroup precompileBackend dagProof claimPoints lHalfLen logNCols gens g group s =
        .ok out ↔
      verifyOneEvalGroup zkmlBackend dagProof claimPoints lHalfLen logNCols gens g group s =
        .ok out ∧ GroupOnCurve gens dagProof g := by
  obtain ⟨run, s'⟩ := out
  rw [verifyOneEvalGroup_eq_ok, verifyOneEvalGroup_eq_ok]
  simp only [groupChallenges_eq]
  constructor
  · rintro ⟨comEval, podp, hcom, hpodp, heval, ⟨hclaims, hcoeffs, hch, htensors, hopen⟩, hs'⟩
    obtain ⟨hopen, hrows, hpodpOn, hcomOn⟩ := openingHolds_eq_true.mp hopen
    rw [groupTensors_eq] at htensors
    refine ⟨⟨comEval, podp, hcom, hpodp, heval, ⟨hclaims, hcoeffs, hch, htensors, hopen⟩, hs'⟩, hrows,
      ?_, ?_⟩
    · intro podp' hpodp'
      rwa [← Option.some.inj (hpodp.symm.trans hpodp')]
    · intro p hp
      rwa [← Option.some.inj (hcom.symm.trans hp)]
  · rintro ⟨⟨comEval, podp, hcom, hpodp, heval, ⟨hclaims, hcoeffs, hch, htensors, hopen⟩, hs'⟩, hon⟩
    refine ⟨comEval, podp, hcom, hpodp, heval, ⟨hclaims, hcoeffs, hch, ?_, ?_⟩, hs'⟩
    · rwa [groupTensors_eq]
    · exact openingHolds_eq_true.mpr ⟨hopen, hon.rows, hon.podp podp hpodp, hon.comEval comEval hcom⟩

private theorem verifyGroups_eq_ok_iff {dagProof : DAGInputLayerProof}
    {claimPoints : List (List ℕ)} {plan : EvalPlan} {gens : PedersenGens}
    {groups : List (List ℕ × ℕ)} {s : Sponge} {out : List GroupRun × Sponge} :
    verifyGroups precompileBackend dagProof claimPoints plan gens groups s = .ok out ↔
      verifyGroups zkmlBackend dagProof claimPoints plan gens groups s = .ok out ∧
        ∀ group ∈ groups, GroupOnCurve gens dagProof group.2 := by
  induction groups generalizing s out with
  | nil =>
    rw [verifyGroups_nil, verifyGroups_nil]
    exact ⟨fun h => ⟨h, fun g hg => absurd hg List.not_mem_nil⟩, fun h => h.1⟩
  | cons group groups ih =>
    rw [verifyGroups_cons, verifyGroups_cons, List.forall_mem_cons]
    constructor
    · rintro ⟨run, s₁, runs, hrun, hrest, hout⟩
      obtain ⟨hrun, hon⟩ := verifyOneEvalGroup_eq_ok_iff.mp hrun
      obtain ⟨hrest, hons⟩ := ih.mp hrest
      exact ⟨⟨run, s₁, runs, hrun, hrest, hout⟩, hon, hons⟩
    · rintro ⟨⟨run, s₁, runs, hrun, hrest, hout⟩, hon, hons⟩
      exact ⟨run, s₁, runs, verifyOneEvalGroup_eq_ok_iff.mpr ⟨hrun, hon⟩, ih.mpr ⟨hrest, hons⟩, hout⟩

/-- The points of a committed input. -/
structure InputProofOnCurve (gens : PedersenGens) (dagProof : DAGInputLayerProof) : Prop where
  rows : ∀ p ∈ dagProof.commitmentRows, isOnCurve p = true
  podps : ∀ podp ∈ dagProof.podps, PodpOnCurve gens podp
  comEvals : ∀ p ∈ dagProof.comEvals.take dagProof.podps.length, isOnCurve p = true

private theorem groupsOnCurve_iff {dagProof : DAGInputLayerProof} {claimPoints : List (List ℕ)}
    {plan : EvalPlan} {gens : PedersenGens} (hplan : evalPlan dagProof claimPoints = .ok plan) :
    (∀ group ∈ plan.groups.zipIdx, GroupOnCurve gens dagProof group.2) ↔
      InputProofOnCurve gens dagProof := by
  obtain ⟨hsort, hcount⟩ := evalPlan_eq_ok.mp hplan
  have hpos : 0 < plan.groups.length := by
    rw [length_sortAndGroupClaims hsort]
    simp only [sortAndGroupClaims, bind_eq_ok, getIdx_eq_ok] at hsort
    obtain ⟨first, hfirst, -⟩ := hsort
    exact (List.getElem?_eq_some_iff.mp hfirst).1.trans_le' (Nat.zero_le _)
  have hgroups : (∀ group ∈ plan.groups.zipIdx, GroupOnCurve gens dagProof group.2) ↔
      ∀ g < dagProof.podps.length, GroupOnCurve gens dagProof g := by
    rw [← hcount]
    constructor
    · intro h g hg
      refine h (plan.groups.get ⟨g, hg⟩, g) ?_
      rw [List.mem_zipIdx_iff_getElem?]
      exact List.getElem?_eq_getElem hg
    · rintro h ⟨group, g⟩ hgroup
      rw [List.mem_zipIdx_iff_getElem?] at hgroup
      exact h g (List.getElem?_eq_some_iff.mp hgroup).1
  rw [hgroups]
  rw [hcount] at hpos
  constructor
  · intro h
    refine ⟨(h 0 hpos).rows, ?_, ?_⟩
    · intro podp hpodp
      obtain ⟨g, hg, rfl⟩ := List.getElem_of_mem hpodp
      exact (h g hg).podp _ (List.getElem?_eq_getElem hg)
    · intro p hp
      obtain ⟨g, hg, rfl⟩ := List.getElem_of_mem hp
      rw [List.length_take] at hg
      rw [List.getElem_take]
      exact (h g (by omega)).comEval _ (List.getElem?_eq_getElem (by omega))
  · intro h g hg
    refine ⟨h.rows, fun podp hpodp => h.podps podp (List.mem_of_getElem? hpodp), ?_⟩
    intro p hp
    refine h.comEvals p (List.mem_of_getElem? (i := g) ?_)
    rw [List.getElem?_take_of_lt hg, hp]

private theorem verifyOnePublicClaim_eq_ok_iff {claimPoint publicInputs : List ℕ}
    {commitment : G1Point} {claimIdx : ℕ} {claims : List PublicValueClaim} {gens : PedersenGens}
    {u : Unit} :
    verifyOnePublicClaim precompileBackend claimPoint commitment claimIdx publicInputs claims gens =
        .ok u ↔
      verifyOnePublicClaim zkmlBackend claimPoint commitment claimIdx publicInputs claims gens =
        .ok u ∧ isOnCurve gens.scalarGen = true ∧ isOnCurve gens.blindingGen = true := by
  have hmle : evaluateMleFromData precompileBackend = evaluateMleFromData zkmlBackend := rfl
  simp only [verifyOnePublicClaim, hmle, bind_eq_ok, ecAdd_eq_ok, ecMul_eq_ok]
  constructor
  · rintro ⟨a, ha, claim, hclaim, c, hc, g, ⟨hg, hscalar⟩, h, ⟨hh, hblinding⟩, e, ⟨he, -⟩, hrest⟩
    exact ⟨⟨a, ha, claim, hclaim, c, hc, g, hg, h, hh, e, he, hrest⟩, hscalar, hblinding⟩
  · rintro ⟨⟨a, ha, claim, hclaim, c, hc, g, hg, h, hh, e, he, hrest⟩, hscalar, hblinding⟩
    exact ⟨a, ha, claim, hclaim, c, hc, g, ⟨hg, hscalar⟩, h, ⟨hh, hblinding⟩, e,
      ⟨he, isOnCurve_of_ecMul hg hscalar, isOnCurve_of_ecMul hh hblinding⟩, hrest⟩

/-- The generators that the claims on a public input read. -/
def ClaimGensOnCurve (desc : DAGCircuitDescription) (gens : PedersenGens) (targetLayer : ℕ) : Prop :=
  ∀ atoms, routedAtoms desc targetLayer desc.numComputeLayers = .ok atoms → atoms ≠ [] →
    isOnCurve gens.scalarGen = true ∧ isOnCurve gens.blindingGen = true

private theorem verifyPublicInputClaims_eq_ok_iff {proof : GKRProof} {desc : DAGCircuitDescription}
    {gens : PedersenGens} {claimPoints : List (List ℕ)} {targetLayer start next : ℕ}
    {publicInputs : List ℕ} {claims : List PublicValueClaim} :
    verifyPublicInputClaims precompileBackend proof desc gens claimPoints targetLayer start
        publicInputs claims = .ok next ↔
      verifyPublicInputClaims zkmlBackend proof desc gens claimPoints targetLayer start publicInputs
        claims = .ok next ∧ ClaimGensOnCurve desc gens targetLayer := by
  simp only [verifyPublicInputClaims, bind_eq_ok, forM_eq_ok, verifyOnePublicClaim_eq_ok_iff]
  constructor
  · rintro ⟨atoms, hatoms, u, hclaims, hnext⟩
    refine ⟨⟨atoms, hatoms, u, ?_, hnext⟩, ?_⟩
    · intro ac hac
      obtain ⟨point, hpoint, com, hcom, h, -⟩ := hclaims ac hac
      exact ⟨point, hpoint, com, hcom, h⟩
    · intro atoms' hatoms' hne
      cases Except.ok.inj (hatoms.symm.trans hatoms')
      obtain ⟨atom, rest, rfl⟩ := List.exists_cons_of_ne_nil hne
      obtain ⟨point, -, com, -, -, hon⟩ := hclaims (atom, 0) (by
        rw [List.zipIdx_cons]
        exact List.mem_cons_self)
      exact hon
  · rintro ⟨⟨atoms, hatoms, u, hclaims, hnext⟩, hon⟩
    refine ⟨atoms, hatoms, u, ?_, hnext⟩
    intro ac hac
    obtain ⟨point, hpoint, com, hcom, h⟩ := hclaims ac hac
    refine ⟨point, hpoint, com, hcom, h, hon atoms hatoms ?_⟩
    rintro rfl
    exact absurd hac List.not_mem_nil

/-- The points of one input layer, whose proof is at the given place if it is committed. -/
structure InputOnCurve (desc : DAGCircuitDescription) (gens : PedersenGens) (input : InputData)
    (inputIdx dagInputIdx : ℕ) : Prop where
  committed : desc.inputIsCommitted[inputIdx]? = some true → ∀ dagProof,
    input.dagInputProofs[dagInputIdx]? = some dagProof → InputProofOnCurve gens dagProof
  claims : desc.inputIsCommitted[inputIdx]? = some false →
    ClaimGensOnCurve desc gens (desc.numComputeLayers + inputIdx)

private theorem verifyInputLayer_eq_ok_iff {proof : GKRProof} {desc : DAGCircuitDescription}
    {gens : PedersenGens} {allBindings : List (List ℕ)} {input : InputData} {st st' : InputState}
    {inputIdx : ℕ} :
    verifyInputLayer precompileBackend proof desc gens allBindings input st inputIdx = .ok st' ↔
      verifyInputLayer zkmlBackend proof desc gens allBindings input st inputIdx = .ok st' ∧
        InputOnCurve desc gens input inputIdx st.dagInputIdx := by
  have hcollect : collectClaimPoints precompileBackend = collectClaimPoints zkmlBackend := rfl
  rw [verifyInputLayer_eq_ok, verifyInputLayer_eq_ok, hcollect]
  simp only [verifyPublicInputClaims_eq_ok_iff, verifyGroups_eq_ok_iff]
  constructor
  · rintro ⟨points, hpoints, ⟨hcommitted, dagProof, plan, runs, s, hproof, hplan, ⟨hgroups, hon⟩, hst⟩ |
      ⟨hpublic, next, ⟨hnext, hon⟩, hst⟩⟩
    · refine ⟨⟨points, hpoints, .inl ⟨hcommitted, dagProof, plan, runs, s, hproof, hplan, hgroups,
        hst⟩⟩, ?_, ?_⟩
      · intro _ dagProof' hproof'
        cases Option.some.inj (hproof.symm.trans hproof')
        exact (groupsOnCurve_iff hplan).mp hon
      · intro hpublic
        rw [hcommitted] at hpublic
        cases hpublic
    · refine ⟨⟨points, hpoints, .inr ⟨hpublic, next, hnext, hst⟩⟩, ?_, fun _ => hon⟩
      intro hcommitted
      rw [hpublic] at hcommitted
      cases hcommitted
  · rintro ⟨⟨points, hpoints, ⟨hcommitted, dagProof, plan, runs, s, hproof, hplan, hgroups, hst⟩ |
      ⟨hpublic, next, hnext, hst⟩⟩, hon⟩
    · exact ⟨points, hpoints, .inl ⟨hcommitted, dagProof, plan, runs, s, hproof, hplan,
        ⟨hgroups, (groupsOnCurve_iff hplan).mpr (hon.committed hcommitted dagProof hproof)⟩, hst⟩⟩
    · exact ⟨points, hpoints, .inr ⟨hpublic, next, ⟨hnext, hon.claims hpublic⟩, hst⟩⟩

/-- The place of an input's proof: the number of committed inputs before it. -/
def inputProofIdx (desc : DAGCircuitDescription) (inputIdx : ℕ) : ℕ :=
  (desc.inputIsCommitted.take inputIdx).count true

private theorem dagInputIdx_of_verifyInputLayer {proof : GKRProof} {desc : DAGCircuitDescription}
    {gens : PedersenGens} {allBindings : List (List ℕ)} {input : InputData} {st st' : InputState}
    {inputIdx : ℕ}
    (h : verifyInputLayer zkmlBackend proof desc gens allBindings input st inputIdx = .ok st')
    (hst : st.dagInputIdx = inputProofIdx desc inputIdx) :
    st'.dagInputIdx = inputProofIdx desc (inputIdx + 1) := by
  have htake : ∀ c, desc.inputIsCommitted[inputIdx]? = some c →
      inputProofIdx desc (inputIdx + 1) = inputProofIdx desc inputIdx + [c].count true := by
    intro c hc
    rw [inputProofIdx, inputProofIdx, List.take_add_one, hc, List.count_append]
    rfl
  rw [verifyInputLayer_eq_ok] at h
  obtain ⟨points, -, ⟨hcommitted, dagProof, plan, runs, s, -, -, -, rfl⟩ |
    ⟨hpublic, next, -, rfl⟩⟩ := h
  · rw [htake true hcommitted, ← hst]
    rfl
  · rw [htake false hpublic, ← hst]
    rfl

theorem verifyInputLayers_eq_ok_iff {proof : GKRProof} {desc : DAGCircuitDescription}
    {gens : PedersenGens} {allBindings : List (List ℕ)} {input : InputData} {s : Sponge}
    {st : InputState} :
    verifyInputLayers precompileBackend proof desc gens allBindings input s = .ok st ↔
      verifyInputLayers zkmlBackend proof desc gens allBindings input s = .ok st ∧
        ∀ i < desc.numInputLayers, InputOnCurve desc gens input i (inputProofIdx desc i) := by
  -- after the first `n` inputs the cursor is at the place of the next proof
  have hloop : ∀ n st,
      ((List.range n).foldlM
          (verifyInputLayer precompileBackend proof desc gens allBindings input) ⟨0, 0, [], s⟩ =
            .ok st ↔
        (List.range n).foldlM
            (verifyInputLayer zkmlBackend proof desc gens allBindings input) ⟨0, 0, [], s⟩ = .ok st ∧
          ∀ i < n, InputOnCurve desc gens input i (inputProofIdx desc i)) ∧
      ((List.range n).foldlM
          (verifyInputLayer zkmlBackend proof desc gens allBindings input) ⟨0, 0, [], s⟩ = .ok st →
        st.dagInputIdx = inputProofIdx desc n) := by
    intro n
    induction n with
    | zero =>
      intro st
      rw [List.range_zero, List.foldlM_nil, List.foldlM_nil]
      refine ⟨⟨fun h => ⟨h, fun i hi => absurd hi (Nat.not_lt_zero i)⟩, fun h => h.1⟩, ?_⟩
      intro h
      cases h
      rfl
    | succ n ih =>
      intro st
      have hone : ∀ (f : InputState → ℕ → Checked InputState) (st₁ : InputState),
          [n].foldlM f st₁ = f st₁ n := by
        intro f st₁
        rw [List.foldlM_cons]
        exact bind_pure _
      simp only [List.range_succ, foldlM_append, bind_eq_ok, hone]
      constructor
      · constructor
        · rintro ⟨st₁, hfirst, hlast⟩
          obtain ⟨hfirst, hons⟩ := (ih st₁).1.mp hfirst
          obtain ⟨hlast, hon⟩ := verifyInputLayer_eq_ok_iff.mp hlast
          refine ⟨⟨st₁, hfirst, hlast⟩, ?_⟩
          intro i hi
          rcases Nat.lt_succ_iff_lt_or_eq.mp hi with hi | rfl
          · exact hons i hi
          · rw [← (ih st₁).2 hfirst]
            exact hon
        · rintro ⟨⟨st₁, hfirst, hlast⟩, hons⟩
          refine ⟨st₁, (ih st₁).1.mpr ⟨hfirst, fun i hi => hons i (by omega)⟩,
            verifyInputLayer_eq_ok_iff.mpr ⟨hlast, ?_⟩⟩
          rw [(ih st₁).2 hfirst]
          exact hons n (Nat.lt_succ_self n)
      · rintro ⟨st₁, hfirst, hlast⟩
        exact dagInputIdx_of_verifyInputLayer hlast ((ih st₁).2 hfirst)
  exact (hloop desc.numInputLayers st).1

/-! ## Accepted runs -/

/-- The run goes through, with the same results, when its operations are calls of the
precompiles. -/
def PrecompilesAccept (run : ZkmlRun) : Prop :=
  verifyComputeLayers precompileBackend run.proof.gkrProof run.desc run.gens run.sponge =
      .ok (run.layers, run.ctx, run.computeSponge) ∧
    verifyInputLayers precompileBackend run.proof.gkrProof run.desc run.gens run.ctx.allBindings
      ⟨run.proof.embeddedPubInputs, run.proof.dagInputProofs, run.proof.publicValueClaims⟩
      run.computeSponge = .ok run.inputs

/-- The points of the proof and the generators that the verifier takes into an operation. -/
structure UsedPointsOnCurve (proof : DecodedProof) (gens : PedersenGens)
    (desc : DAGCircuitDescription) : Prop where
  compute : ComputeOnCurve proof.gkrProof desc gens
  inputs : ∀ i < desc.numInputLayers, InputOnCurve desc gens
    ⟨proof.embeddedPubInputs, proof.dagInputProofs, proof.publicValueClaims⟩ i (inputProofIdx desc i)

/-- The points of an accepted run are valid at every operation exactly when those that come from the
bytes are. -/
theorem precompilesAccept_iff {proofData gensData circuitDescData : List UInt8} {run : ZkmlRun}
    (h : tryVerifyRun proofData gensData circuitDescData = .ok run) :
    PrecompilesAccept run ↔ UsedPointsOnCurve run.proof run.gens run.desc := by
  obtain ⟨-, -, -, -, hcompute, hinputs⟩ := runPhases_eq_ok.mp (runPhases_of_tryVerifyRun h)
  rw [PrecompilesAccept, verifyComputeLayers_eq_ok_iff, verifyInputLayers_eq_ok_iff]
  constructor
  · rintro ⟨⟨-, hlayers⟩, -, honInputs⟩
    exact ⟨hlayers, honInputs⟩
  · intro hon
    exact ⟨⟨hcompute, hon.compute⟩, hinputs, hon.inputs⟩

private theorem noRound_accepted {output : G1Point}
    (hdecode : decodeProofForDag (tryReader ((noRoundProofData output).drop 4)) =
      .ok (noRoundProof output))
    (haccept : okAnd (runPhases (noRoundProof output) noGens noRoundDesc noRoundSponge)
      (fun _ => true) = true) :
    ∃ run, tryVerifyRun (noRoundProofData output) [] noRoundDescData = .ok run ∧
      run.proof = noRoundProof output ∧ run.gens = noGens ∧ run.desc = noRoundDesc := by
  have hdesc : (decodeCircuitDescription (tryReader noRoundDescData)
      (tryReadUsizeFrom noRoundDescData) (· % 2 ^ 64)).run 0 = .ok (noRoundDesc, 672) := by
    decide +kernel
  obtain ⟨run, hrun, -⟩ := okAnd_eq_true.mp haccept
  obtain ⟨hproof, hgens, hdesc', -⟩ := runPhases_eq_ok.mp hrun
  refine ⟨run, ?_, hproof, hgens, hdesc'⟩
  rw [tryVerifyRun_noRound output hdecode hdesc, hrun]
  rfl

private theorem noRound_layerOnCurve {lp : CommittedLayerProof}
    (hlp : (noRoundProof G1Point.INFINITY).gkrProof.layerProofs[0]? = some lp) :
    LayerOnCurve 0 (noRoundProof G1Point.INFINITY).gkrProof noRoundDesc noGens lp := by
  cases hlp
  refine ⟨?_, ?_, rfl, ?_, ⟨⟨?_, rfl, rfl⟩, rfl, rfl⟩, ?_⟩
  · intro atoms hatoms atom hatom
    cases hatoms
    cases hatom
  · intro prodStart prodEnd hstart hend j hj
    cases hstart
    cases hend
    cases hj
  · intro p hp
    cases hp
  · intro p hp
    cases hp
  · intro j pop hpop
    cases hpop

/-- With all points at infinity the precompiles accept too. -/
theorem noRound_precompilesAccept : ∃ run,
    tryVerifyRun (noRoundProofData G1Point.INFINITY) [] noRoundDescData = .ok run ∧
      PrecompilesAccept run := by
  obtain ⟨run, hrun, hproof, hgens, hdesc⟩ := @noRound_accepted G1Point.INFINITY
    (by decide +kernel) (by decide)
  refine ⟨run, hrun, (precompilesAccept_iff hrun).mpr ?_⟩
  rw [hproof, hgens, hdesc]
  refine ⟨⟨?_, ?_⟩, ?_⟩
  · intro _ p hp
    cases hp
    rfl
  · intro i hi lp hlp
    obtain rfl : i = 0 := Nat.lt_one_iff.mp hi
    exact noRound_layerOnCurve hlp
  · intro i hi
    obtain rfl : i = 0 := Nat.lt_one_iff.mp hi
    refine ⟨fun hcommitted => (by cases hcommitted), ?_⟩
    intro _ atoms _ _
    exact ⟨rfl, rfl⟩

/-- A point off the curve is multiplied, and the proof is accepted. -/
theorem noRound_not_precompilesAccept : ∃ run,
    tryVerifyRun (noRoundProofData ⟨1, 3⟩) [] noRoundDescData = .ok run ∧
      isOnCurve ⟨1, 3⟩ = false ∧ ¬ PrecompilesAccept run := by
  obtain ⟨run, hrun, hproof, hgens, hdesc⟩ := @noRound_accepted ⟨1, 3⟩
    (by decide +kernel) (by decide +kernel)
  refine ⟨run, hrun, by decide, ?_⟩
  rintro ⟨hcompute, -⟩
  have hon := (verifyComputeLayers_eq_ok_iff.mp hcompute).2
  rw [hproof, hgens, hdesc] at hon
  exact absurd (hon.output (by decide) _ rfl) (by decide)

end WorldZk.PointValidity
