import WorldZk.VerifierBackend

/-!
# The committed sumcheck and its two sigma protocols

`sumcheck.rs` and the scalar-product part of `ec.rs`; in Solidity
`CommittedSumcheckVerifier` and the proof checks of `HyraxVerifier`.
-/

namespace WorldZk.CommittedSumcheck

open CheckedRuns PoseidonSponge ProofTypes VerifierBackend

variable (b : Backend)

/-- `multi_scalar_mul`: the first term, then one addition for each further term. -/
def multiScalarMul (points : List G1Point) (scalars : List ℕ) : Checked G1Point := do
  require (points.length == scalars.length) .msmLengthMismatch
  match points.zip scalars with
  | [] => pure G1Point.INFINITY
  | (p, s) :: rest => do
    let first ← b.ecMul p s
    rest.foldlM (fun acc ps => do b.ecAdd acc (← b.ecMul ps.1 ps.2)) first

/-- The first generators, as many as there are scalars. -/
def msmWithTruncatedGens (allGens : List G1Point) (scalars : List ℕ) : Checked G1Point := do
  require (decide (scalars.length ≤ allGens.length)) .notEnoughGeneratorsForPODP
  multiScalarMul b (allGens.take scalars.length) scalars

def innerProduct (as bs : List ℕ) : Checked ℕ := do
  require (as.length == bs.length) .innerProductLengthMismatch
  pure ((as.zip bs).foldl (fun acc p => b.add acc (b.mul p.1 p.2)) 0)

/-- One row of `compute_j_star`: the powers of the binding from degree `d` on. -/
def jStarRow (gammaInv rho rhoNext binding : ℕ) : ℕ → ℕ → ℕ → Checked (List ℕ)
  | 0, _, _ => pure []
  | k + 1, d, bindingPower => do
    let coeff := if d = 0 then 2 else 1
    let term1 := b.mul rho coeff
    let term2 := b.mul rhoNext bindingPower
    let diff ← b.sub term1 term2
    let rest ← jStarRow gammaInv rho rhoNext binding k (d + 1) (b.mul bindingPower binding)
    pure (b.mul gammaInv diff :: rest)

/-- `compute_j_star`: one row of `degree + 1` entries for each round. -/
def computeJStar (rhos gammas bindings : List ℕ) (degree n : ℕ) : Checked (List ℕ) := do
  let rows ← (List.range n).mapM fun i => do
    let gammaInv ← b.inv (← getIdx gammas i)
    jStarRow b gammaInv (← getIdx rhos i) (← getIdx rhos (i + 1)) (← getIdx bindings i)
      (degree + 1) 0 1
  pure rows.flatten

/-- `sum * rho0 + oracle_eval * (-rhoN)`. -/
def computeDotProduct (sum oracleEval : G1Point) (rho0 rhoN : ℕ) : Checked G1Point := do
  let term1 ← b.ecMul sum rho0
  let term2 ← b.ecMul oracleEval (← b.neg rhoN)
  b.ecAdd term1 term2

/-- The two equations of the dot-product proof. -/
def verifyPodp (podp : PODPProof) (challenge : ℕ) (comX comY : G1Point) (aVector : List ℕ)
    (gens : PedersenGens) : Checked Bool := do
  require (podp.zVector.length == aVector.length) .podpVectorLengthMismatch
  require (decide (podp.zVector.length ≤ gens.messageGens.length)) .notEnoughGeneratorsForPODP
  let zDotA ← innerProduct b podp.zVector aVector
  let msm ← msmWithTruncatedGens b gens.messageGens podp.zVector
  let comZ ← b.ecAdd msm (← b.ecMul gens.blindingGen podp.zDelta)
  let comZDotA ← b.ecAdd (← b.ecMul gens.scalarGen zDotA) (← b.ecMul gens.blindingGen podp.zBeta)
  let lhs1 ← b.ecAdd (← b.ecMul comX challenge) podp.commitD
  if lhs1 ≠ comZ then pure false
  else
    let lhs2 ← b.ecAdd (← b.ecMul comY challenge) podp.commitDDotA
    pure (decide (lhs2 = comZDotA))

/-- The transcript of a dot-product proof: its two commitments, the challenge, its responses. -/
def absorbPodp (podp : PODPProof) (s : Sponge) : ℕ × Sponge :=
  let s := absorbPoint b (absorbPoint b s podp.commitD) podp.commitDDotA
  let c := challenge b s
  let s := absorbWords b c.2 podp.zVector
  (c.1, absorb b.ops (absorb b.ops s podp.zDelta) podp.zBeta)

def verifyPodpWithTranscript (podp : PODPProof) (comX comY : G1Point) (aVector : List ℕ)
    (gens : PedersenGens) (s : Sponge) : Checked (Bool × Sponge) := do
  let t := absorbPodp b podp s
  let valid ← verifyPodp b podp t.1 comX comY aVector gens
  pure (valid, t.2)

/-- `sumcheck::verify`. -/
def verify (proof : CommittedSumcheckProof) (oracleEval : G1Point) (degree : ℕ)
    (bindings : List ℕ) (gens : PedersenGens) (s : Sponge) : Checked (Bool × Sponge) := do
  let n := proof.messages.length
  require (bindings.length == n) .bindingsLengthMismatch
  let (rhos, s) := challenges b (n + 1) s
  let (gammas, s) := challenges b n s
  let alpha ← multiScalarMul b proof.messages gammas
  let jStar ← computeJStar b rhos gammas bindings degree n
  let dotProduct ← computeDotProduct b proof.sum oracleEval (← getIdx rhos 0) (← getIdx rhos n)
  verifyPodpWithTranscript b proof.podp alpha dotProduct jStar gens s

/-- The transcript of a product proof. -/
def absorbPop (pop : ProofOfProduct) (s : Sponge) : ℕ × Sponge :=
  let s := absorbPoint b (absorbPoint b (absorbPoint b s pop.alpha) pop.beta) pop.delta
  let c := challenge b s
  (c.1, absorbWords b c.2 [pop.z1, pop.z2, pop.z3, pop.z4, pop.z5])

/-- The three equations of the product proof. -/
def popCheckEquations (pop : ProofOfProduct) (comX comY comZ : G1Point) (gens : PedersenGens)
    (c : ℕ) : Checked Bool := do
  let lhs1 ← b.ecAdd pop.alpha (← b.ecMul comX c)
  let rhs1 ← b.ecAdd (← b.ecMul gens.scalarGen pop.z1) (← b.ecMul gens.blindingGen pop.z2)
  if lhs1 ≠ rhs1 then pure false
  else
    let lhs2 ← b.ecAdd pop.beta (← b.ecMul comY c)
    let rhs2 ← b.ecAdd (← b.ecMul gens.scalarGen pop.z3) (← b.ecMul gens.blindingGen pop.z4)
    if lhs2 ≠ rhs2 then pure false
    else
      let lhs3 ← b.ecAdd pop.delta (← b.ecMul comZ c)
      let rhs3 ← b.ecAdd (← b.ecMul comX pop.z3) (← b.ecMul gens.blindingGen pop.z5)
      pure (decide (lhs3 = rhs3))

def verifyProofOfProduct (pop : ProofOfProduct) (comX comY comZ : G1Point) (gens : PedersenGens)
    (s : Sponge) : Checked (Bool × Sponge) := do
  let t := absorbPop b pop s
  let valid ← popCheckEquations b pop comX comY comZ gens t.1
  pure (valid, t.2)

/-! ## The equations of the dot-product proof -/

/-- The left side of either equation: a commitment scaled by the challenge, plus a mask. -/
def podpLhs (com : G1Point) (challenge : ℕ) (mask : G1Point) : Checked G1Point := do
  b.ecAdd (← b.ecMul com challenge) mask

/-- The right sides of the two equations, which depend on the responses only. -/
def podpRhs (podp : PODPProof) (aVector : List ℕ) (gens : PedersenGens) :
    Checked (G1Point × G1Point) := do
  require (podp.zVector.length == aVector.length) .podpVectorLengthMismatch
  require (decide (podp.zVector.length ≤ gens.messageGens.length)) .notEnoughGeneratorsForPODP
  let zDotA ← innerProduct b podp.zVector aVector
  let msm ← msmWithTruncatedGens b gens.messageGens podp.zVector
  let comZ ← b.ecAdd msm (← b.ecMul gens.blindingGen podp.zDelta)
  let comZDotA ← b.ecAdd (← b.ecMul gens.scalarGen zDotA) (← b.ecMul gens.blindingGen podp.zBeta)
  pure (comZ, comZDotA)

/-- An accepted dot-product proof satisfies both equations. -/
theorem verifyPodp_true {podp : PODPProof} {c : ℕ} {comX comY : G1Point} {aVector : List ℕ}
    {gens : PedersenGens} :
    verifyPodp b podp c comX comY aVector gens = .ok true ↔
      ∃ rhs, podpRhs b podp aVector gens = .ok rhs ∧
        podpLhs b comX c podp.commitD = .ok rhs.1 ∧
        podpLhs b comY c podp.commitDDotA = .ok rhs.2 := by
  simp only [verifyPodp, podpRhs, podpLhs, bind_eq_ok, pure_eq_ok]
  constructor
  · rintro ⟨u, hu, v, hv, zDotA, hz, msm, hmsm, zh, hzh, comZ, hcomZ, zg, hzg, zb, hzb, comZDotA,
      hdot, cx, hcx, lhs1, hlhs1, h⟩
    by_cases heq : lhs1 = comZ
    · rw [if_neg (not_not.mpr heq)] at h
      simp only [bind_eq_ok, pure_eq_ok, decide_eq_true_eq] at h
      obtain ⟨cy, hcy, lhs2, hlhs2, heq2⟩ := h
      subst heq heq2
      exact ⟨(lhs1, lhs2), ⟨u, hu, v, hv, zDotA, hz, msm, hmsm, zh, hzh, lhs1, hcomZ, zg, hzg, zb,
        hzb, lhs2, hdot, rfl⟩, ⟨cx, hcx, hlhs1⟩, cy, hcy, hlhs2⟩
    · rw [if_pos heq, pure_eq_ok] at h
      exact absurd h (by simp)
  · rintro ⟨_, ⟨u, hu, v, hv, zDotA, hz, msm, hmsm, zh, hzh, comZ, hcomZ, zg, hzg, zb, hzb,
      comZDotA, hdot, rfl⟩, ⟨cx, hcx, hlhs1⟩, cy, hcy, hlhs2⟩
    refine ⟨u, hu, v, hv, zDotA, hz, msm, hmsm, zh, hzh, comZ, hcomZ, zg, hzg, zb, hzb, comZDotA,
      hdot, cx, hcx, comZ, hlhs1, ?_⟩
    simp only [ne_eq, not_true_eq_false, if_false, bind_eq_ok, pure_eq_ok, decide_eq_true_eq]
    exact ⟨cy, hcy, comZDotA, hlhs2, rfl⟩

end WorldZk.CommittedSumcheck
