import WorldZk.HybridVerifier

/-!
# The hybrid checks and the full ones

The curve equations of a hybrid check are those of the full check with the inner product taken from
outside. At the true inner product the two accept the same proofs.
-/

namespace WorldZk.HybridVerifier

open CheckedRuns PoseidonSponge ProofTypes VerifierBackend CommittedSumcheck DagLayers
open SolidityVerifier

private theorem hybridMsm_eq_ok {allGens : List G1Point} {scalars : List ℕ} {p : G1Point} :
    hybridMsm allGens scalars = .ok p ↔
      scalars.length ≤ allGens.length ∧ msmWithTruncatedGens solBackend allGens scalars = .ok p := by
  simp only [hybridMsm, msmWithTruncatedGens, bind_eq_ok, require_eq_ok, decide_eq_true_eq]
  constructor
  · rintro ⟨_, hlen, hmsm⟩
    exact ⟨hlen, (), hlen, hmsm⟩
  · rintro ⟨hlen, _, -, hmsm⟩
    exact ⟨(), hlen, hmsm⟩

/-- A dot-product proof is accepted exactly when the hybrid check accepts it with its true inner
product. -/
theorem verifyPodp_true_iff_podpChecks (eq1Failed eq2Failed : VerifyError) {podp : PODPProof}
    {c : ℕ} {comX comY : G1Point} {aVector : List ℕ} {gens : PedersenGens} :
    verifyPodp solBackend podp c comX comY aVector gens = .ok true ↔
      ∃ zDot, innerProduct solBackend podp.zVector aVector = .ok zDot ∧
        podpChecks eq1Failed eq2Failed podp comX comY c zDot gens = .ok () := by
  rw [verifyPodp_true]
  simp only [podpRhs, podpChecks, bind_eq_ok, require_eq_ok, pure_eq_ok, hybridMsm_eq_ok,
    decide_eq_true_eq, beq_iff_eq]
  constructor
  · rintro ⟨_, ⟨_, hlen, _, hgens, zDot, hdot, msm, hmsm, zDelta, hdelta, comZ, hcomZ, zg, hzg, zb, hzb,
      comZDotA, hsum, rfl⟩, hlhs1, hlhs2⟩
    exact ⟨zDot, hdot, comZ, hlhs1, msm, ⟨hgens, hmsm⟩, zDelta, hdelta, comZ, hcomZ, (), rfl, comZDotA,
      hlhs2, zg, hzg, zb, hzb, comZDotA, hsum, rfl⟩
  · rintro ⟨zDot, hdot, lhs1, hlhs1, msm, ⟨hgens, hmsm⟩, zDelta, hdelta, comZ, hcomZ, _, rfl, lhs2,
      hlhs2, zg, hzg, zb, hzb, comZDotA, hsum, rfl⟩
    have hlen : podp.zVector.length = aVector.length := by
      simp only [innerProduct, bind_eq_ok, require_eq_ok, beq_iff_eq] at hdot
      exact hdot.choose_spec.1
    exact ⟨(lhs1, lhs2), ⟨(), hlen, (), hgens, zDot, hdot, msm, hmsm, zDelta, hdelta, lhs1, hcomZ, zg,
      hzg, zb, hzb, lhs2, hsum, rfl⟩, hlhs1, hlhs2⟩

theorem productsHold_true_iff {commitments : List G1Point} {gens : PedersenGens}
    {pops : List ProofOfProduct} {cs : List ℕ} {commitIdx : ℕ} :
    productsHold solBackend commitments gens commitIdx pops cs = .ok true ↔
      verifyLayerPoPs commitments gens commitIdx (pops.zip cs) = .ok true := by
  induction pops generalizing cs commitIdx with
  | nil => simp [productsHold, verifyLayerPoPs]
  | cons pop pops ih =>
    cases cs with
    | nil => simp [productsHold, verifyLayerPoPs]
    | cons c cs =>
      simp only [productsHold, verifyLayerPoPs, List.zip_cons_cons, bind_eq_ok, require_eq_ok]
      refine exists_congr fun _ => and_congr_right fun _ => exists_congr fun _ =>
        and_congr_right fun _ => exists_congr fun _ => and_congr_right fun _ => exists_congr fun _ =>
        and_congr_right fun _ => exists_congr fun valid => and_congr_right fun _ => ?_
      cases valid with
      | false => rfl
      | true => simpa only [↓reduceIte] using ih

end WorldZk.HybridVerifier
