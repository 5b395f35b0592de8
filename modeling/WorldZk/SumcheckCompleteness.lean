import WorldZk.GroupBackends
import WorldZk.RoundPolynomials

/-!
# Completeness of the committed sumcheck

A prover that knows the round polynomials of a valid sumcheck commits to their coefficients, one
block of generators for each round, and makes the dot-product proof for the vector `j_star`. The
verifier accepts it, whatever the blindings and the masks, for all challenges among which those
that scale the rounds are not zero.
-/

namespace WorldZk.SumcheckCompleteness

open CheckedRuns Bn254Moduli FieldArithmetic PoseidonSponge ProofTypes VerifierBackend
open CommittedSumcheck TensorProducts PedersenCommitments GroupBackends RoundPolynomials
open Polynomial
open scoped NamedInstances

/-- The scalar at an index of a list of words. -/
def scalarAt (r : ℕ) (ws : List ℕ) (i : ℕ) : ZMod r := (ws.getD i 0 : ℕ)

theorem getIdx_getD {ws : List ℕ} {i : ℕ} (hi : i < ws.length) :
    getIdx ws i = .ok (ws.getD i 0) := by
  rw [getIdx_eq_ok]
  simp [hi]

theorem map_scalarAt {r : ℕ} {ws : List ℕ} {n : ℕ} (hlen : ws.length = n) :
    (List.range n).map (scalarAt r ws) = scalars r ws := by
  apply List.ext_getElem
  · simp [hlen]
  · intro i hi hi'
    have hlt : i < ws.length := by simpa using hi'
    simp [scalarAt, scalars, hlt]

/-! ## What the prover does -/

/-- What the prover of a sumcheck knows and chooses: the round polynomials, the claimed sum and the
final value, with the blindings of their commitments, and the masks of the dot-product proof. -/
structure SumcheckWitness (r : ℕ) where
  rounds : ℕ
  poly : ℕ → (ZMod r)[X]
  blinds : ℕ → ZMod r
  claimedSum : ZMod r
  sumBlind : ZMod r
  finalValue : ZMod r
  finalBlind : ZMod r
  masks : List (ZMod r)
  maskBlind : ZMod r
  dotBlind : ZMod r

section Prover

variable (b : Backend) {r : ℕ} [Fact r.Prime] {G : Type*} [AddCommGroup G] [Module (ZMod r) G]
  (encode : G → G1Point) (gs : List G) (g h : G) (degree : ℕ) (bindings : List ℕ)
  (w : SumcheckWitness r) (s : Sponge)

/-- The weights of the claims, with the sponge after them. -/
def rhoChallenges : List ℕ × Sponge := challenges b (w.rounds + 1) s

/-- The factors of the rounds, with the sponge after them. -/
def gammaChallenges : List ℕ × Sponge := challenges b w.rounds (rhoChallenges b w s).2

/-- The vector that the combined messages commit to. -/
def proverVector : List (ZMod r) :=
  stacked degree (scalarAt r (gammaChallenges b w s).1) w.poly w.rounds

/-- The vector `j_star`. -/
def publicVector : List (ZMod r) :=
  weights degree (scalarAt r (gammaChallenges b w s).1) (scalarAt r (rhoChallenges b w s).1)
    (scalarAt r bindings) w.rounds

/-- The blinding of the dot-product commitment. -/
def valueBlind : ZMod r :=
  scalarAt r (rhoChallenges b w s).1 0 * w.sumBlind -
    scalarAt r (rhoChallenges b w s).1 w.rounds * w.finalBlind

/-- The challenge of the dot-product proof, after its two commitments. -/
def podpChallenge : ℕ :=
  (challenge b (absorbPoint b (absorbPoint b (gammaChallenges b w s).2
    (encode (commitVector gs h w.masks w.maskBlind)))
    (encode (commit g h (dot w.masks (publicVector b degree bindings w s)) w.dotBlind)))).1

/-- The proof of an honest prover. -/
def honestSumcheck : CommittedSumcheckProof where
  sum := encode (commit g h w.claimedSum w.sumBlind)
  messages := (List.range w.rounds).map fun i =>
    encode (roundCommitment gs h degree w.poly w.blinds i)
  podp := honestPodp encode gs g h (publicVector b degree bindings w s)
    (podpChallenge b encode gs g h degree bindings w s) (proverVector b degree w s) w.masks
    (dot (scalars r (gammaChallenges b w s).1) ((List.range w.rounds).map w.blinds))
    w.maskBlind (valueBlind b w s) w.dotBlind

end Prover

/-! ## The vector `j_star` -/

section Vector

variable {b : Backend} {r : ℕ} [Fact r.Prime] {G : Type*} [AddCommGroup G]
  {encode : G → G1Point} (hb : ComputesIn b r encode)

include hb

theorem jStarRow_eq (gammaInv rho rhoNext binding k d bindingPower : ℕ)
    (hpower : (bindingPower : ZMod r) = (binding : ZMod r) ^ d) :
    ∃ row, jStarRow b gammaInv rho rhoNext binding k d bindingPower = .ok row ∧
      scalars r row = (List.range' d k).map fun e =>
        (gammaInv : ZMod r) *
          (rho * (if e = 0 then 2 else 1) - rhoNext * (binding : ZMod r) ^ e) := by
  induction k generalizing d bindingPower with
  | zero => exact ⟨[], rfl, rfl⟩
  | succ k ih =>
    have hnext : ((b.mul bindingPower binding : ℕ) : ZMod r) = (binding : ZMod r) ^ (d + 1) := by
      rw [hb.cast_mul, hpower, pow_succ]
    obtain ⟨rest, hrest, hscalars⟩ := ih (d + 1) _ hnext
    obtain ⟨diff, -, hdiff, hcast⟩ := hb.sub_eq (hb.mul_lt rho (if d = 0 then 2 else 1))
      (hb.mul_lt rhoNext bindingPower)
    refine ⟨b.mul gammaInv diff :: rest, ?_, ?_⟩
    · simp only [jStarRow, hdiff, hrest, ok_bind]
      rfl
    · rw [scalars_cons, hscalars, List.range'_succ, List.map_cons, hb.cast_mul, hcast, hb.cast_mul,
        hb.cast_mul, hpower]
      congr 4
      split <;> simp

/-- `compute_j_star` returns the weights of the rounds. -/
theorem computeJStar_eq {rhos gammas bindings : List ℕ} {n : ℕ} (hrhos : rhos.length = n + 1)
    (hgammas : gammas.length = n) (hbindings : bindings.length = n)
    (hne : ∀ gamma ∈ gammas, gamma < r ∧ gamma ≠ 0) (degree : ℕ) :
    ∃ js, computeJStar b rhos gammas bindings degree n = .ok js ∧
      scalars r js =
        weights degree (scalarAt r gammas) (scalarAt r rhos) (scalarAt r bindings) n := by
  have hrow : ∀ i ∈ List.range n, ∃ row, (do
      let gammaInv ← b.inv (← getIdx gammas i)
      jStarRow b gammaInv (← getIdx rhos i) (← getIdx rhos (i + 1)) (← getIdx bindings i)
        (degree + 1) 0 1) = (.ok row : Checked (List ℕ)) ∧
      scalars r row = roundWeights degree (scalarAt r gammas i) (scalarAt r rhos i)
        (scalarAt r rhos (i + 1)) (scalarAt r bindings i) := by
    intro i hi
    rw [List.mem_range] at hi
    have hmem : gammas.getD i 0 ∈ gammas := by
      rw [← hgammas] at hi
      simp [hi]
    obtain ⟨hlt, hzero⟩ := hne _ hmem
    obtain ⟨gammaInv, -, hinv, hcast⟩ := hb.inv _ hlt hzero
    obtain ⟨row, hjs, hscalars⟩ := jStarRow_eq hb gammaInv (rhos.getD i 0) (rhos.getD (i + 1) 0)
      (bindings.getD i 0) (degree + 1) 0 1 (by simp)
    refine ⟨row, ?_, ?_⟩
    · simp only [getIdx_getD (hi.trans_eq hgammas.symm), ok_bind, hinv,
        getIdx_getD (hi.trans_eq hbindings.symm), getIdx_getD (by omega : i < rhos.length),
        getIdx_getD (by omega : i + 1 < rhos.length), hjs]
    · rw [hscalars, hcast, roundWeights, List.range_eq_range']
      rfl
  obtain ⟨rows, hrows, hmap⟩ := exists_mapM_ok hrow
  refine ⟨rows.flatten, ?_, ?_⟩
  · simp only [computeJStar, hrows, ok_bind]
    rfl
  · rw [scalars, List.map_flatten, weights, List.flatMap_def, ← hmap]
    rfl

end Vector

/-! ## The honest prover is accepted -/

/-- A run of `verify`, step by step. -/
theorem verify_eq_ok {b : Backend} {r : ℕ} {w : SumcheckWitness r} {proof : CommittedSumcheckProof}
    {oracleEval alpha dotProduct : G1Point} {degree : ℕ} {bindings js : List ℕ}
    {gens : PedersenGens} {s t : Sponge} (hmessages : proof.messages.length = w.rounds)
    (hbindings : bindings.length = w.rounds)
    (halpha : multiScalarMul b proof.messages (gammaChallenges b w s).1 = .ok alpha)
    (hjs : computeJStar b (rhoChallenges b w s).1 (gammaChallenges b w s).1 bindings degree
      w.rounds = .ok js)
    (hdot : computeDotProduct b proof.sum oracleEval ((rhoChallenges b w s).1.getD 0 0)
      ((rhoChallenges b w s).1.getD w.rounds 0) = .ok dotProduct)
    (hpodp : verifyPodpWithTranscript b proof.podp alpha dotProduct js gens
      (gammaChallenges b w s).2 = .ok (true, t)) :
    verify b proof oracleEval degree bindings gens s = .ok (true, t) := by
  have hrhos : (rhoChallenges b w s).1.length = w.rounds + 1 := length_challenges b _ _
  have hlength : (bindings.length == w.rounds) = true := beq_iff_eq.mpr hbindings
  simp only [verify, hmessages, hlength, require_true, ok_bind]
  change (do
    let alpha ← multiScalarMul b proof.messages (gammaChallenges b w s).1
    let jStar ← computeJStar b (rhoChallenges b w s).1 (gammaChallenges b w s).1 bindings degree
      w.rounds
    let dotProduct ← computeDotProduct b proof.sum oracleEval (← getIdx (rhoChallenges b w s).1 0)
      (← getIdx (rhoChallenges b w s).1 w.rounds)
    verifyPodpWithTranscript b proof.podp alpha dotProduct jStar gens (gammaChallenges b w s).2) = _
  have hfirst : 0 < (rhoChallenges b w s).1.length := by omega
  have hlast : w.rounds < (rhoChallenges b w s).1.length := by omega
  simp only [halpha, hjs, ok_bind, getIdx_getD hfirst, getIdx_getD hlast, hdot, hpodp]

section Completeness

variable {b : Backend} {r : ℕ} [Fact r.Prime] {G : Type*} [AddCommGroup G] [Module (ZMod r) G]
  {encode : G → G1Point} (hb : ComputesIn b r encode)

include hb

theorem computeDotProduct_eq (g h : G) (x rx v rv : ZMod r) {rho0 rhoN : ℕ} (h0 : rho0 < r)
    (hN : rhoN < r) :
    computeDotProduct b (encode (commit g h x rx)) (encode (commit g h v rv)) rho0 rhoN =
      .ok (encode (commit g h (rho0 * x - rhoN * v) (rho0 * rx - rhoN * rv))) := by
  obtain ⟨neg, hlt, hneg, hcast⟩ := hb.neg_eq hN
  rw [computeDotProduct, hb.ecMul_cast _ (h0.trans hb.lt_word), ok_bind, hneg, ok_bind,
    hb.ecMul_cast _ (hlt.trans hb.lt_word), ok_bind, hb.ecAdd, hcast]
  congr 2
  simp only [commit]
  module

omit [Module (ZMod r) G] in
theorem challenges_ne_zero {w : SumcheckWitness r} {s : Sponge}
    (hgammas : ∀ gamma ∈ (gammaChallenges b w s).1, gamma ≠ 0) (i : ℕ) (hi : i < w.rounds) :
    scalarAt r (gammaChallenges b w s).1 i ≠ 0 := by
  have hlength : (gammaChallenges b w s).1.length = w.rounds := length_challenges b _ _
  have hmem : (gammaChallenges b w s).1.getD i 0 ∈ (gammaChallenges b w s).1 := by
    rw [← hlength] at hi
    simp [hi]
  intro hzero
  rw [scalarAt, ZMod.natCast_eq_zero_iff] at hzero
  exact hgammas _ hmem (Nat.eq_zero_of_dvd_of_lt hzero (hb.mem_challenges_lt hmem))

/-- The combined messages commit to the prover's vector. -/
theorem multiScalarMul_messages (gs : List G) (g h : G) (degree : ℕ) (bindings : List ℕ)
    (w : SumcheckWitness r) (s : Sponge) :
    multiScalarMul b (honestSumcheck b encode gs g h degree bindings w s).messages
        (gammaChallenges b w s).1 =
      .ok (encode (commitVector gs h (proverVector b degree w s)
        (dot (scalars r (gammaChallenges b w s).1) ((List.range w.rounds).map w.blinds)))) := by
  have hlength : (gammaChallenges b w s).1.length = w.rounds := length_challenges b _ _
  have hmessages : (honestSumcheck b encode gs g h degree bindings w s).messages =
      ((List.range w.rounds).map (roundCommitment gs h degree w.poly w.blinds)).map encode := by
    rw [honestSumcheck, List.map_map]
    rfl
  have hwords : Words (gammaChallenges b w s).1 :=
    fun gamma hgamma => (hb.mem_challenges_lt hgamma).trans hb.lt_word
  rw [hmessages, hb.multiScalarMul_eq (by simp [hlength]) hwords, ← map_scalarAt hlength,
    combine_roundCommitments]
  rfl

omit [Fact r.Prime] [Module (ZMod r) G] in
theorem rhoChallenge_lt (w : SumcheckWitness r) (s : Sponge) {i : ℕ} (hi : i ≤ w.rounds) :
    (rhoChallenges b w s).1.getD i 0 < r := by
  have hlength : (rhoChallenges b w s).1.length = w.rounds + 1 := length_challenges b _ _
  refine hb.mem_challenges_lt (n := w.rounds + 1) (s := s) ?_
  change _ ∈ (rhoChallenges b w s).1
  simp [hlength, Nat.lt_succ_of_le hi]

/-- The dot-product proof of the prover is accepted for the value that it commits to. -/
theorem verifyPodp_honestSumcheck (gs : List G) (g h : G) (degree : ℕ) {bindings : List ℕ}
    {w : SumcheckWitness r} {s : Sponge} {js : List ℕ}
    (hjs : scalars r js = publicVector b degree bindings w s)
    (hgens : w.rounds * (degree + 1) ≤ gs.length)
    (hmasks : w.masks.length = w.rounds * (degree + 1)) :
    verifyPodp b (honestSumcheck b encode gs g h degree bindings w s).podp
      (podpChallenge b encode gs g h degree bindings w s)
      (encode (commitVector gs h (proverVector b degree w s)
        (dot (scalars r (gammaChallenges b w s).1) ((List.range w.rounds).map w.blinds))))
      (encode (commit g h (dot (proverVector b degree w s)
        (publicVector b degree bindings w s)) (valueBlind b w s)))
      js ⟨gs.map encode, encode g, encode h⟩ = .ok true := by
  have hjsLength : js.length = w.rounds * (degree + 1) := by
    rw [← length_scalars r js, hjs, publicVector, length_weights]
  have hvectorLength : (proverVector b degree w s).length = js.length := by
    rw [proverVector, length_stacked, hjsLength]
  have hmasksLength : w.masks.length = js.length := by rw [hmasks, hjsLength]
  have hpodp := hb.verifyPodp_honest g h
    (c := podpChallenge b encode gs g h degree bindings w s)
    ((hb.challenge_lt _).trans hb.lt_word) hvectorLength hmasksLength (hjsLength.trans_le hgens)
    (dot (scalars r (gammaChallenges b w s).1) ((List.range w.rounds).map w.blinds)) w.maskBlind
    (valueBlind b w s) w.dotBlind
  rw [hjs] at hpodp
  exact hpodp

/-- The prover of a valid sumcheck is accepted, and its dot-product proof is about the combination
of the claimed sum and the final value. -/
theorem verify_honest (gs : List G) (g h : G) (degree : ℕ) {bindings : List ℕ}
    {w : SumcheckWitness r} (hbindings : bindings.length = w.rounds)
    (hdegree : ∀ i < w.rounds, (w.poly i).natDegree ≤ degree)
    (hvalid : ValidSumcheck w.poly (scalarAt r bindings) w.rounds w.claimedSum w.finalValue)
    (hgens : w.rounds * (degree + 1) ≤ gs.length)
    (hmasks : w.masks.length = w.rounds * (degree + 1)) {s : Sponge}
    (hgammas : ∀ gamma ∈ (gammaChallenges b w s).1, gamma ≠ 0) :
    ∃ js value, computeJStar b (rhoChallenges b w s).1 (gammaChallenges b w s).1 bindings degree
        w.rounds = .ok js ∧
      value = scalarAt r (rhoChallenges b w s).1 0 * w.claimedSum -
        scalarAt r (rhoChallenges b w s).1 w.rounds * w.finalValue ∧
      dot (proverVector b degree w s) (scalars r js) = value ∧
      computeDotProduct b (encode (commit g h w.claimedSum w.sumBlind))
        (encode (commit g h w.finalValue w.finalBlind)) ((rhoChallenges b w s).1.getD 0 0)
        ((rhoChallenges b w s).1.getD w.rounds 0) =
          .ok (encode (commit g h value (valueBlind b w s))) ∧
      ∃ t, verify b (honestSumcheck b encode gs g h degree bindings w s)
        (encode (commit g h w.finalValue w.finalBlind)) degree bindings
        ⟨gs.map encode, encode g, encode h⟩ s = .ok (true, t) := by
  have hrhos : (rhoChallenges b w s).1.length = w.rounds + 1 := length_challenges b _ _
  have hlength : (gammaChallenges b w s).1.length = w.rounds := length_challenges b _ _
  obtain ⟨js, hjs, hscalars⟩ := computeJStar_eq hb hrhos hlength hbindings
    (fun gamma hgamma => ⟨hb.mem_challenges_lt hgamma, hgammas gamma hgamma⟩) degree
  have hvector : scalars r js = publicVector b degree bindings w s := hscalars
  have hvalue : dot (proverVector b degree w s) (publicVector b degree bindings w s) =
      scalarAt r (rhoChallenges b w s).1 0 * w.claimedSum -
        scalarAt r (rhoChallenges b w s).1 w.rounds * w.finalValue :=
    dot_stacked_weights (scalarAt r (rhoChallenges b w s).1) (challenges_ne_zero hb hgammas)
      hdegree hvalid
  have hdot : computeDotProduct b (encode (commit g h w.claimedSum w.sumBlind))
      (encode (commit g h w.finalValue w.finalBlind)) ((rhoChallenges b w s).1.getD 0 0)
      ((rhoChallenges b w s).1.getD w.rounds 0) =
        .ok (encode (commit g h (scalarAt r (rhoChallenges b w s).1 0 * w.claimedSum -
          scalarAt r (rhoChallenges b w s).1 w.rounds * w.finalValue) (valueBlind b w s))) :=
    computeDotProduct_eq hb g h w.claimedSum w.sumBlind w.finalValue w.finalBlind
      (rhoChallenge_lt hb w s (Nat.zero_le w.rounds)) (rhoChallenge_lt hb w s le_rfl)
  refine ⟨js, _, hjs, rfl, by rw [hvector, hvalue], hdot, ?_⟩
  have hpodp := verifyPodp_honestSumcheck hb gs g h degree hvector hgens hmasks
  rw [hvalue] at hpodp
  have hmessages : (honestSumcheck b encode gs g h degree bindings w s).messages.length =
      w.rounds := by simp [honestSumcheck]
  refine ⟨_, verify_eq_ok (t := (absorbPodp b
    (honestSumcheck b encode gs g h degree bindings w s).podp (gammaChallenges b w s).2).2)
    hmessages hbindings (multiScalarMul_messages hb gs g h degree bindings w s) hjs hdot ?_⟩
  have hchallenge : (absorbPodp b (honestSumcheck b encode gs g h degree bindings w s).podp
    (gammaChallenges b w s).2).1 = podpChallenge b encode gs g h degree bindings w s := rfl
  simp only [verifyPodpWithTranscript, hchallenge]
  change (verifyPodp b _ _ _ _ js _ >>= _) = _
  rw [hpodp]
  rfl

end Completeness

/-! ## On the curve -/

section Native

open NativeCurve ZkmlVerifier

/-- `verify` of the Rust crate accepts the prover of a valid sumcheck, with any number of rounds,
any degree and any blindings and masks, when no factor of a round is zero. The product of its
vector with `j_star` is the combination of the claimed sum and the final value that the dot-product
commitment is for. -/
theorem committed_sumcheck_complete (gs : List G1) (g h : G1) (degree : ℕ) {bindings : List ℕ}
    {w : SumcheckWitness FR_MOD} (hbindings : bindings.length = w.rounds)
    (hdegree : ∀ i < w.rounds, (w.poly i).natDegree ≤ degree)
    (hvalid : ValidSumcheck w.poly (scalarAt FR_MOD bindings) w.rounds w.claimedSum w.finalValue)
    (hgens : w.rounds * (degree + 1) ≤ gs.length)
    (hmasks : w.masks.length = w.rounds * (degree + 1)) {s : Sponge}
    (hgammas : ∀ gamma ∈ (gammaChallenges zkmlBackend w s).1, gamma ≠ 0) :
    (∃ t, verify zkmlBackend (honestSumcheck zkmlBackend encode gs g h degree bindings w s)
      (encode (commit g h w.finalValue w.finalBlind)) degree bindings
      ⟨gs.map encode, encode g, encode h⟩ s = .ok (true, t)) ∧
    ∃ js value, computeJStar zkmlBackend (rhoChallenges zkmlBackend w s).1
        (gammaChallenges zkmlBackend w s).1 bindings degree w.rounds = .ok js ∧
      dot (proverVector zkmlBackend degree w s) (scalars FR_MOD js) = value ∧
      value = scalarAt FR_MOD (rhoChallenges zkmlBackend w s).1 0 * w.claimedSum -
        scalarAt FR_MOD (rhoChallenges zkmlBackend w s).1 w.rounds * w.finalValue ∧
      computeDotProduct zkmlBackend (encode (commit g h w.claimedSum w.sumBlind))
        (encode (commit g h w.finalValue w.finalBlind))
        ((rhoChallenges zkmlBackend w s).1.getD 0 0)
        ((rhoChallenges zkmlBackend w s).1.getD w.rounds 0) =
          .ok (encode (commit g h value (valueBlind zkmlBackend w s))) := by
  obtain ⟨js, value, hjs, hvalue, hproduct, hdot, haccept⟩ := verify_honest zkml_computesIn gs g h
    degree hbindings hdegree hvalid hgens hmasks hgammas
  exact ⟨haccept, js, value, hjs, hproduct, hvalue, hdot⟩

/-- One round with the polynomial `X`. -/
noncomputable def linearRound : SumcheckWitness FR_MOD where
  rounds := 1
  poly := fun _ => X
  blinds := fun _ => 4
  claimedSum := 1
  sumBlind := 5
  finalValue := 9
  finalBlind := 6
  masks := [7, 8]
  maskBlind := 2
  dotBlind := 3

theorem linearRound_accepted :
    ∃ t, verify zkmlBackend (honestSumcheck zkmlBackend encode [generator, 2 • generator]
        (3 • generator) (4 • generator) 1 [9] linearRound init)
      (encode (commit (3 • generator) (4 • generator) (9 : ZMod FR_MOD) 6)) 1 [9]
      ⟨[generator, 2 • generator].map encode, encode (3 • generator), encode (4 • generator)⟩ init =
        .ok (true, t) := by
  have hvalid : ValidSumcheck linearRound.poly (scalarAt FR_MOD [9]) 1 (1 : ZMod FR_MOD) 9 := by
    refine ⟨fun i => if i = 0 then 1 else 9, rfl, rfl, fun i hi => ?_⟩
    obtain rfl := Nat.lt_one_iff.mp hi
    simp [linearRound, scalarAt]
  have hgammas : ∀ gamma ∈ (gammaChallenges zkmlBackend linearRound init).1, gamma ≠ 0 := by
    have hall : (challenges zkmlBackend 1 (challenges zkmlBackend 2 init).2).1.all (· != 0) =
        true := by
      decide +kernel
    intro gamma hgamma
    exact bne_iff_ne.mp (List.all_eq_true.mp hall gamma hgamma)
  exact (committed_sumcheck_complete [generator, 2 • generator] (3 • generator) (4 • generator) 1
    (w := linearRound) rfl (fun _ _ => natDegree_X_le) hvalid le_rfl rfl
    hgammas).1

end Native

end WorldZk.SumcheckCompleteness
