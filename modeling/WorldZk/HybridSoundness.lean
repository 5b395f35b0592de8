import WorldZk.Groth16Layout
import WorldZk.HybridChecks
import WorldZk.HybridOutputs
import WorldZk.LayeredBinding

/-!
# What the hybrid checks leave out

A proof that the curve equations of `GKRDAGHybridVerifier` accept at the true values of its
transcript is accepted by `verifyDAGProof` exactly when it also passes the checks that the hybrid
verifier does not make: those of the layers without rounds, the combination of the claims on a
layer, the number of rows of a committed input, and the number of claims on a public one.
-/

namespace WorldZk.HybridSoundness

open CheckedRuns PoseidonSponge ProofTypes VerifierBackend CommittedSumcheck DagLayers InputLayers
open Bn254Moduli FieldArithmetic FlatArrays NativeCurve ProofDecoding SolidityVerifier Transcript
open HybridVerifier Groth16Layout
open LayeredBinding (scalarMul_eq_ok ecAdd_eq_ok mem_challenges_lt noGens)

/-! ## The claims on a layer -/

/-- The commitments of the claims on a layer are points of the curve. -/
structure ClaimsOnCurve (proof : GKRProof) (desc : DAGCircuitDescription) (outputEval : G1Point)
    (layerIdx : ℕ) : Prop where
  output : layerIdx = 0 → isOnCurve outputEval = true
  atoms : ∀ atoms, routedAtoms desc layerIdx layerIdx = .ok atoms → ∀ ja ∈ atoms,
    ∃ p, atomCommitment proof desc ja = .ok p ∧ isOnCurve p = true

section Claims

variable {proof : GKRProof} {desc : DAGCircuitDescription} {ctx : VerifyContext}
  {bindings rlcCoeffs : List ℕ}

/-- The commitment half of a step is defined for curve points, the scalar half is the step of the
weight. -/
private theorem rlcStep_eq_ok {st st' : RlcState} {ja : ℕ × ℕ}
    (hst : isOnCurve st.rlcEval = true) (hcoeffs : ∀ c ∈ rlcCoeffs, c < WORD) :
    rlcStep solBackend proof desc ctx bindings rlcCoeffs st ja = .ok st' ↔
      ∃ p coeff, atomCommitment proof desc ja = .ok p ∧ isOnCurve p = true ∧
        rlcCoeffs[st.coeffIdx]? = some coeff ∧
        rlcBetaStep desc ctx.allBindings bindings rlcCoeffs ⟨st.rlcBeta, st.coeffIdx⟩ ja =
          .ok ⟨st'.rlcBeta, st'.coeffIdx⟩ ∧
        st'.rlcEval = NativeCurve.ecAdd st.rlcEval (NativeCurve.ecMul p coeff) := by
  have hadd : ∀ p q, solBackend.ecAdd p q = SolidityVerifier.ecAdd p q := fun _ _ => rfl
  have hmul : ∀ p k, solBackend.ecMul p k = scalarMul p k := fun _ _ => rfl
  simp only [rlcStep, rlcBetaStep, atomCommitment, bind_eq_ok, getIdx_eq_ok, pure_eq_ok, hadd, hmul,
    scalarMul_eq_ok, ecAdd_eq_ok]
  constructor
  · rintro ⟨commitIdx, hidx, source, hsource, p, hp, bs, hbs, point, hpoint, beta, hbeta, coeff,
      hcoeff, q, ⟨hon, rfl⟩, e, ⟨-, -, rfl⟩, rfl⟩
    exact ⟨p, coeff, ⟨source, hsource, commitIdx, hidx, hp⟩, hon, hcoeff,
      ⟨bs, hbs, point, hpoint, beta, hbeta, coeff, hcoeff, rfl⟩, rfl⟩
  · rintro ⟨p, coeff, ⟨source, hsource, commitIdx, hidx, hp⟩, hon, hcoeff, ⟨bs, hbs, point, hpoint,
      beta, hbeta, coeff', hcoeff', hstate⟩, heval⟩
    obtain rfl : coeff = coeff' := Option.some.inj (hcoeff.symm.trans hcoeff')
    obtain ⟨hsum, hnext⟩ := RlcBetaState.mk.inj hstate
    refine ⟨commitIdx, hidx, source, hsource, p, hp, bs, hbs, point, hpoint, beta, hbeta, coeff,
      hcoeff, _, ⟨hon, rfl⟩, _, ⟨hst, isOnCurve_ecMul hon ?_, rfl⟩, ?_⟩
    · exact hcoeffs coeff (List.mem_of_getElem? hcoeff)
    · rw [← heval, hsum, hnext]

private theorem isOnCurve_rlcStep {st st' : RlcState} {ja : ℕ × ℕ}
    (hst : isOnCurve st.rlcEval = true) (hcoeffs : ∀ c ∈ rlcCoeffs, c < WORD)
    (h : rlcStep solBackend proof desc ctx bindings rlcCoeffs st ja = .ok st') :
    isOnCurve st'.rlcEval = true := by
  obtain ⟨p, coeff, -, hon, hcoeff, -, heval⟩ := (rlcStep_eq_ok hst hcoeffs).mp h
  rw [heval]
  exact isOnCurve_ecAdd hst (isOnCurve_ecMul hon (hcoeffs coeff (List.mem_of_getElem? hcoeff)))

private theorem foldlM_rlcStep {atoms : List (ℕ × ℕ)} {st : RlcState} {beta coeffIdx : ℕ}
    (hst : isOnCurve st.rlcEval = true) (hcoeffs : ∀ c ∈ rlcCoeffs, c < WORD) :
    (∃ e, atoms.foldlM (rlcStep solBackend proof desc ctx bindings rlcCoeffs) st =
        .ok ⟨e, beta, coeffIdx⟩) ↔
      atoms.foldlM (rlcBetaStep desc ctx.allBindings bindings rlcCoeffs)
          ⟨st.rlcBeta, st.coeffIdx⟩ = .ok ⟨beta, coeffIdx⟩ ∧
        ∀ ja ∈ atoms, ∃ p, atomCommitment proof desc ja = .ok p ∧ isOnCurve p = true := by
  induction atoms generalizing st with
  | nil =>
    simp only [List.foldlM_nil, pure_eq_ok, List.not_mem_nil, false_implies, implies_true, and_true]
    obtain ⟨e, b, k⟩ := st
    simp
  | cons ja atoms ih =>
    simp only [List.foldlM_cons, bind_eq_ok, List.forall_mem_cons]
    constructor
    · rintro ⟨e, st', hstep, hrest⟩
      obtain ⟨p, coeff, hp, hon, -, hbeta, -⟩ := (rlcStep_eq_ok hst hcoeffs).mp hstep
      obtain ⟨hfold, hall⟩ := (ih (isOnCurve_rlcStep hst hcoeffs hstep)).mp ⟨e, hrest⟩
      exact ⟨⟨_, hbeta, hfold⟩, ⟨p, hp, hon⟩, hall⟩
    · rintro ⟨⟨⟨b', k'⟩, hbeta, hfold⟩, ⟨p, hp, hon⟩, hall⟩
      obtain ⟨coeff, hcoeff⟩ : ∃ coeff, rlcCoeffs[st.coeffIdx]? = some coeff := by
        simp only [rlcBetaStep, bind_eq_ok, getIdx_eq_ok] at hbeta
        obtain ⟨_, -, _, -, _, -, coeff, hcoeff, -⟩ := hbeta
        exact ⟨coeff, hcoeff⟩
      have hstep : rlcStep solBackend proof desc ctx bindings rlcCoeffs st ja =
          .ok ⟨NativeCurve.ecAdd st.rlcEval (NativeCurve.ecMul p coeff), b', k'⟩ :=
        (rlcStep_eq_ok hst hcoeffs).mpr ⟨p, coeff, hp, hon, hcoeff, hbeta, rfl⟩
      obtain ⟨e, hrest⟩ := (ih (isOnCurve_rlcStep hst hcoeffs hstep)).mpr ⟨hfold, hall⟩
      exact ⟨e, _, hstep, hrest⟩

/-- The combination of the claims on a layer exists exactly when the weight does and the claims are
curve points. -/
theorem computeRlcEvalAndBeta_iff {layerIdx beta : ℕ} (hcoeffs : ∀ c ∈ rlcCoeffs, c < WORD) :
    (∃ e, computeRlcEvalAndBeta solBackend layerIdx proof desc ctx bindings rlcCoeffs =
        .ok (e, beta)) ↔
      HybridVerifier.computeRlcBeta layerIdx desc ctx.allBindings ctx.outputChallenges bindings
          rlcCoeffs = .ok beta ∧
        ClaimsOnCurve proof desc ctx.outputEval layerIdx := by
  have hmul : ∀ p k, solBackend.ecMul p k = scalarMul p k := fun _ _ => rfl
  -- the state before the atoms: on the curve, and with the weight of the output claim
  have hstart : ∀ b k, (∃ e, rlcStart solBackend layerIdx ctx bindings rlcCoeffs = .ok ⟨e, b, k⟩) ↔
      rlcBetaStart layerIdx ctx.outputChallenges bindings rlcCoeffs = .ok ⟨b, k⟩ ∧
        (layerIdx = 0 → isOnCurve ctx.outputEval = true) := by
    intro b k
    by_cases h0 : layerIdx = 0
    · simp only [rlcStart, rlcBetaStart, if_pos h0, bind_eq_ok, getIdx_eq_ok, pure_eq_ok, hmul,
        scalarMul_eq_ok]
      constructor
      · rintro ⟨e, coeff, hcoeff, _, ⟨hon, -⟩, beta, hbeta, hst⟩
        obtain ⟨-, rfl, rfl⟩ := RlcState.mk.inj hst
        exact ⟨⟨coeff, hcoeff, beta, hbeta, rfl⟩, fun _ => hon⟩
      · rintro ⟨⟨coeff, hcoeff, beta, hbeta, hst⟩, hon⟩
        obtain ⟨rfl, rfl⟩ := RlcBetaState.mk.inj hst
        exact ⟨_, coeff, hcoeff, _, ⟨hon h0, rfl⟩, beta, hbeta, rfl⟩
    · simp only [rlcStart, rlcBetaStart, if_neg h0, pure_eq_ok]
      constructor
      · rintro ⟨e, hst⟩
        obtain ⟨-, rfl, rfl⟩ := RlcState.mk.inj hst
        exact ⟨rfl, fun h => absurd h h0⟩
      · rintro ⟨hst, -⟩
        obtain ⟨rfl, rfl⟩ := RlcBetaState.mk.inj hst
        exact ⟨G1Point.INFINITY, rfl⟩
  have hcurve : ∀ st, rlcStart solBackend layerIdx ctx bindings rlcCoeffs = .ok st →
      isOnCurve st.rlcEval = true := by
    intro st hst
    by_cases h0 : layerIdx = 0
    · simp only [rlcStart, if_pos h0, bind_eq_ok, getIdx_eq_ok, pure_eq_ok, hmul,
        scalarMul_eq_ok] at hst
      obtain ⟨coeff, hcoeff, _, ⟨hon, rfl⟩, _, -, rfl⟩ := hst
      exact isOnCurve_ecMul hon (hcoeffs coeff (List.mem_of_getElem? hcoeff))
    · simp only [rlcStart, if_neg h0, pure_eq_ok] at hst
      subst hst
      exact isOnCurve_infinity
  simp only [computeRlcEvalAndBeta, HybridVerifier.computeRlcBeta, bind_eq_ok, pure_eq_ok,
    Prod.mk.injEq]
  constructor
  · rintro ⟨e, ⟨e₀, b₀, k₀⟩, hst, atoms, hatoms, ⟨e₁, b₁, k₁⟩, hfold, rfl, rfl⟩
    obtain ⟨hbeta, hon⟩ := (hstart b₀ k₀).mp ⟨e₀, hst⟩
    obtain ⟨hbetas, hall⟩ := (foldlM_rlcStep (hcurve _ hst) hcoeffs).mp ⟨e₁, hfold⟩
    refine ⟨⟨_, hbeta, atoms, hatoms, _, hbetas, rfl⟩, hon, fun atoms' hatoms' => ?_⟩
    obtain rfl : atoms = atoms' := Except.ok.inj (hatoms.symm.trans hatoms')
    exact hall
  · rintro ⟨⟨⟨b₀, k₀⟩, hbeta, atoms, hatoms, ⟨b₁, k₁⟩, hbetas, rfl⟩, hclaims⟩
    obtain ⟨e₀, hst⟩ := (hstart b₀ k₀).mpr ⟨hbeta, hclaims.output⟩
    obtain ⟨e₁, hfold⟩ := (foldlM_rlcStep (hcurve _ hst) hcoeffs).mpr
      ⟨hbetas, hclaims.atoms atoms hatoms⟩
    exact ⟨e₁, _, hst, atoms, hatoms, _, hfold, rfl, rfl⟩

end Claims

/-! ## The layer loop at replayed challenges -/

private theorem layerAccepted_congr {layerIdx : ℕ} {proof : GKRProof} {desc : DAGCircuitDescription}
    {gens : PedersenGens} {ctx ctx' : VerifyContext} {lp : CommittedLayerProof} {ch : LayerChallenges}
    {run : LayerRun} (hchallenges : ctx.outputChallenges = ctx'.outputChallenges)
    (heval : ctx.outputEval = ctx'.outputEval)
    (hbindings : ctx.allBindings.take layerIdx = ctx'.allBindings.take layerIdx)
    (h : LayerAccepted solBackend layerIdx proof desc gens ctx lp ch run) :
    LayerAccepted solBackend layerIdx proof desc gens ctx' lp ch run :=
  ⟨h.rlcCoeffs_eq, h.bindings_eq,
    (computeRlcEvalAndBeta_congr solBackend hchallenges heval hbindings _ _).symm.trans h.rlc,
    h.oracle, h.sumcheck, h.products⟩

/-- The context after the layers with challenges `chs`. -/
def ctxAfter (ctx : VerifyContext) (chs : List LayerChallenges) : VerifyContext :=
  { ctx with allBindings := ctx.allBindings ++ chs.map (·.bindings) }

private theorem ctxAfter_cons {ctx : VerifyContext} {ch : LayerChallenges}
    {chs : List LayerChallenges} :
    ctxAfter { ctx with allBindings := ctx.allBindings ++ [ch.bindings] } chs =
      ctxAfter ctx (ch :: chs) := by
  simp [ctxAfter]

/-- The layer loop accepts exactly when every layer does at its replayed challenges, and it ends
where the replay ends. -/
theorem processLayers_iff {proof : GKRProof} {desc : DAGCircuitDescription} {gens : PedersenGens}
    {n k : ℕ} {ctx : VerifyContext} (hk : ctx.allBindings.length = k) {s s₁ : Sponge}
    {chs : List LayerChallenges}
    (hreplay : replayLayers proof desc (List.range' k n) s = .ok (chs, s₁)) :
    (∃ runs, processLayers solBackend proof desc gens (List.range' k n) ctx s =
        .ok (runs, ctxAfter ctx chs, s₁)) ↔
      ∀ j ch, chs[j]? = some ch → ∃ lp run, proof.layerProofs[k + j]? = some lp ∧
        LayerAccepted solBackend (k + j) proof desc gens (ctxAfter ctx chs) lp ch run := by
  induction n generalizing k ctx s chs with
  | zero =>
    obtain ⟨rfl, rfl⟩ := Prod.mk.inj (pure_eq_ok.mp hreplay)
    simp [processLayers, ctxAfter, pure_eq_ok]
  | succ n ih =>
    rw [List.range'_succ] at hreplay ⊢
    simp only [replayLayers, bind_eq_ok, getIdx_eq_ok, pure_eq_ok, replayOneLayer] at hreplay
    obtain ⟨lp, hlp, ⟨rest, s₂⟩, hrest, hout⟩ := hreplay
    obtain ⟨rfl, rfl⟩ := Prod.mk.inj hout
    generalize hch : layerChallenges solBackend (numLayerClaims desc k) lp s = ch at hrest ⊢
    have hnext : ({ ctx with allBindings := ctx.allBindings ++ [ch.bindings] } :
        VerifyContext).allBindings.length = k + 1 := by simp [hk]
    have hih := @ih (k + 1) _ hnext ch.sponge rest hrest
    rw [ctxAfter_cons] at hih
    have htake : ctx.allBindings.take k = (ctxAfter ctx (ch :: rest)).allBindings.take k := by
      rw [ctxAfter, ← hk, List.take_left, List.take_length]
    have hchallenges : ctx.outputChallenges = (ctxAfter ctx (ch :: rest)).outputChallenges := rfl
    have heval : ctx.outputEval = (ctxAfter ctx (ch :: rest)).outputEval := rfl
    constructor
    · rintro ⟨runs, hruns⟩ j ch' hch'
      obtain ⟨run, s', runs', hrun, hrest', -⟩ := (processLayers_cons solBackend).mp hruns
      obtain ⟨lp', hlp', haccepted, rfl⟩ := (processOneLayer_eq_ok solBackend).mp hrun
      obtain rfl : lp = lp' := Option.some.inj (hlp.symm.trans hlp')
      rw [hch] at haccepted hrest'
      rw [haccepted.bindings_eq] at hrest'
      cases j with
      | zero =>
        obtain rfl : ch = ch' := Option.some.inj hch'
        exact ⟨lp, run, hlp, layerAccepted_congr hchallenges heval htake haccepted⟩
      | succ j =>
        have hj : k + (j + 1) = k + 1 + j := by omega
        rw [hj]
        exact hih.mp ⟨runs', hrest'⟩ j ch' hch'
    · intro h
      obtain ⟨lp', run, hlp', haccepted⟩ := h 0 ch rfl
      obtain rfl : lp = lp' := Option.some.inj (hlp.symm.trans hlp')
      have haccepted' := layerAccepted_congr hchallenges.symm heval.symm htake.symm haccepted
      obtain ⟨runs, hruns⟩ := hih.mpr fun j ch' hch' => by
        have hj : k + 1 + j = k + (j + 1) := by omega
        rw [hj]
        exact h (j + 1) ch' hch'
      refine ⟨run :: runs, (processLayers_cons solBackend).mpr ⟨run, ch.sponge, runs, ?_, ?_, rfl⟩⟩
      · exact (processOneLayer_eq_ok solBackend).mpr ⟨lp, hlp, hch ▸ haccepted', hch ▸ rfl⟩
      · rw [haccepted'.bindings_eq]
        exact hruns

/-- An accepted loop ends where the replay ends. -/
theorem processLayers_end {proof : GKRProof} {desc : DAGCircuitDescription} {gens : PedersenGens}
    {is : List ℕ} {ctx : VerifyContext} {s s₁ : Sponge} {chs : List LayerChallenges}
    (hreplay : replayLayers proof desc is s = .ok (chs, s₁))
    {out : List LayerRun × VerifyContext × Sponge}
    (h : processLayers solBackend proof desc gens is ctx s = .ok out) :
    out.2 = (ctxAfter ctx chs, s₁) := by
  induction is generalizing ctx s chs out with
  | nil =>
    obtain ⟨rfl, rfl⟩ := Prod.mk.inj (pure_eq_ok.mp hreplay)
    rw [(processLayers_nil solBackend).mp h]
    simp [ctxAfter]
  | cons i is ih =>
    simp only [replayLayers, bind_eq_ok, getIdx_eq_ok, pure_eq_ok, replayOneLayer] at hreplay
    obtain ⟨lp, hlp, ⟨rest, s₂⟩, hrest, hout⟩ := hreplay
    obtain ⟨rfl, rfl⟩ := Prod.mk.inj hout
    obtain ⟨run, s', runs, hrun, hruns, -⟩ := (processLayers_cons solBackend).mp h
    obtain ⟨lp', hlp', haccepted, rfl⟩ := (processOneLayer_eq_ok solBackend).mp hrun
    obtain rfl : lp = lp' := Option.some.inj (hlp.symm.trans hlp')
    have hend := ih hrest hruns
    rw [haccepted.bindings_eq, ctxAfter_cons] at hend
    exact hend

/-! ## One layer -/

/-- The oracle evaluation, the sumcheck and the product proofs of a layer at the weight `rlcBeta` of
its claims. -/
def LayerHolds (desc : DAGCircuitDescription) (gens : PedersenGens) (layerIdx : ℕ)
    (lp : CommittedLayerProof) (ch : LayerChallenges) (rlcBeta : ℕ) : Prop :=
  ∃ oracleEval layerType,
    computeOracleEval solBackend lp.commitments layerIdx rlcBeta desc = .ok oracleEval ∧
    desc.layerTypes[layerIdx]? = some layerType ∧
    sumcheckHolds solBackend lp.sumcheckProof.sum lp.sumcheckProof oracleEval
      (layerDegree layerType) ch gens = .ok true ∧
    productsHold solBackend lp.commitments gens 0 lp.pops ch.popChallenges = .ok true

section OneLayer

variable {proof : GKRProof} {desc : DAGCircuitDescription} {gens : PedersenGens} {layerIdx : ℕ}
  {lp : CommittedLayerProof} {ch : LayerChallenges}

theorem layerAccepted_iff {ctx : VerifyContext} (hcoeffs : ∀ c ∈ ch.rlcCoeffs, c < WORD) :
    (∃ run, LayerAccepted solBackend layerIdx proof desc gens ctx lp ch run) ↔
      ∃ rlcBeta, HybridVerifier.computeRlcBeta layerIdx desc ctx.allBindings ctx.outputChallenges
          ch.bindings ch.rlcCoeffs = .ok rlcBeta ∧
        ClaimsOnCurve proof desc ctx.outputEval layerIdx ∧
        LayerHolds desc gens layerIdx lp ch rlcBeta := by
  constructor
  · rintro ⟨run, h⟩
    obtain ⟨hbeta, hclaims⟩ := (computeRlcEvalAndBeta_iff hcoeffs).mp ⟨run.rlcEval, h.rlc⟩
    obtain ⟨layerType, htype, hsum⟩ := h.sumcheck
    exact ⟨run.rlcBeta, hbeta, hclaims, run.oracleEval, layerType, h.oracle, htype, hsum, h.products⟩
  · rintro ⟨rlcBeta, hbeta, hclaims, oracleEval, layerType, horacle, htype, hsum, hprod⟩
    obtain ⟨e, hrlc⟩ := (computeRlcEvalAndBeta_iff hcoeffs).mpr ⟨hbeta, hclaims⟩
    exact ⟨⟨ch.rlcCoeffs, ch.bindings, e, rlcBeta, oracleEval⟩, rfl, rfl, hrlc, horacle,
      ⟨layerType, htype, hsum⟩, hprod⟩

/-- The values of a layer, at its own proof and challenges. -/
theorem layerValues_eq_ok {challenges : DAGTranscriptChallenges} {v : ℕ × ℕ}
    (hlp : proof.layerProofs[layerIdx]? = some lp) (hch : challenges.layers[layerIdx]? = some ch) :
    layerValues proof desc challenges layerIdx = .ok v ↔
      HybridVerifier.computeRlcBeta layerIdx desc challenges.allBindings challenges.outputChallenges
          ch.bindings ch.rlcCoeffs = .ok v.1 ∧
        (lp.sumcheckProof.messages.length = 0 → v.2 = 0) ∧
        (lp.sumcheckProof.messages.length ≠ 0 → ∃ layerType jStar,
          desc.layerTypes[layerIdx]? = some layerType ∧
          computeJStar solBackend ch.rhos ch.gammas ch.bindings (layerDegree layerType)
            lp.sumcheckProof.messages.length = .ok jStar ∧
          innerProduct solBackend lp.sumcheckProof.podp.zVector jStar = .ok v.2) := by
  simp only [layerValues, bind_eq_ok, getIdx_eq_ok, hlp, hch, Option.some.injEq, exists_eq_left']
  obtain ⟨beta, zDot⟩ := v
  by_cases hn : lp.sumcheckProof.messages.length = 0
  · simp only [hn, ↓reduceIte, pure_eq_ok, Prod.mk.injEq, ne_eq, not_true_eq_false, false_implies,
      and_true, true_implies]
    constructor
    · rintro ⟨b, hb, rfl, rfl⟩
      exact ⟨hb, rfl⟩
    · rintro ⟨hb, rfl⟩
      exact ⟨beta, hb, rfl, rfl⟩
  · simp only [hn, ↓reduceIte, bind_eq_ok, getIdx_eq_ok, pure_eq_ok, Prod.mk.injEq, false_implies,
      true_and, ne_eq, not_false_eq_true, true_implies]
    constructor
    · rintro ⟨b, hb, layerType, htype, jStar, hj, z, hz, rfl, rfl⟩
      exact ⟨hb, layerType, jStar, htype, hj, hz⟩
    · rintro ⟨hb, layerType, jStar, htype, hj, hz⟩
      exact ⟨beta, hb, layerType, htype, jStar, hj, zDot, hz, rfl, rfl⟩

/-- With rounds, the curve equations at the true values are the checks of the layer. -/
theorem verifyComputeLayerEC_iff {challenges : DAGTranscriptChallenges} {v : ℕ × ℕ}
    (hlp : proof.layerProofs[layerIdx]? = some lp) (hch : challenges.layers[layerIdx]? = some ch)
    (hv : layerValues proof desc challenges layerIdx = .ok v)
    (hn : lp.sumcheckProof.messages.length ≠ 0) :
    verifyComputeLayerEC layerIdx lp ch v.1 v.2 desc gens = .ok () ↔
      LayerHolds desc gens layerIdx lp ch v.1 := by
  obtain ⟨layerType, jStar, htype, hj, hz⟩ := ((layerValues_eq_ok hlp hch).mp hv).2.2 hn
  simp only [verifyComputeLayerEC, if_neg hn, LayerHolds, sumcheckHolds, bind_eq_ok, getIdx_eq_ok,
    require_eq_ok, verifyLayerPODPChecks, productsHold_true_iff,
    verifyPodp_true_iff_podpChecks .podpEq1Failed .podpEq2Failed, htype, Option.some.injEq]
  constructor
  · rintro ⟨alpha, halpha, oracleEval, horacle, rho0, h0, rhoN, hN, dot, hdot, _, hpodp, valid, hprod,
      rfl⟩
    exact ⟨oracleEval, layerType, horacle, rfl, ⟨alpha, halpha, jStar, hj, rho0, h0, rhoN, hN, dot,
      hdot, v.2, hz, hpodp⟩, hprod⟩
  · rintro ⟨oracleEval, _, horacle, rfl, ⟨alpha, halpha, jStar', hj', rho0, h0, rhoN, hN, dot, hdot, z,
      hz', hpodp⟩, hprod⟩
    obtain rfl : jStar = jStar' := Except.ok.inj (hj.symm.trans hj')
    obtain rfl : v.2 = z := Except.ok.inj (hz.symm.trans hz')
    exact ⟨alpha, halpha, oracleEval, horacle, rho0, h0, rhoN, hN, dot, hdot, (), hpodp, true, hprod,
      rfl⟩

end OneLayer

/-! ## Row coefficients -/

theorem claimTensor_eq_ok {lHalfLen : ℕ} {rlcCoeffs : List ℕ} {pc : List ℕ × ℕ} {tensor : List ℕ}
    (h : claimTensor lHalfLen rlcCoeffs pc = .ok tensor) :
    lHalfLen < 64 ∧ tensor.length = 2 ^ lHalfLen ∧ ∀ x ∈ tensor, x < FR_MOD := by
  simp only [claimTensor, initializeTensor, bind_eq_ok, require_eq_ok, decide_eq_true_eq,
    pure_eq_ok] at h
  obtain ⟨_, hle, table, ⟨_, hfits, htable⟩, coeff, -, rfl⟩ := h
  have hlen : (pc.1.take lHalfLen).length = lHalfLen := List.length_take_of_le hle
  rw [hlen] at hfits
  refine ⟨of_decide_eq_true hfits, ?_, ?_⟩
  · rw [List.length_map, length_tensorTable solBackend htable, hlen]
  · intro x hx
    obtain ⟨y, -, rfl⟩ := List.mem_map.mp hx
    exact Nat.mod_lt _ FR_MOD_prime.pos

/-- The sum of the tensors, entry by entry. -/
def sumTensors (size : ℕ) (tensors : List (List ℕ)) : List ℕ :=
  tensors.foldl (fun acc tensor => acc.zipWith solBackend.add tensor) (List.replicate size 0)

private theorem foldlM_claimTensor {lHalfLen : ℕ} {rlcCoeffs : List ℕ} {pcs : List (List ℕ × ℕ)}
    {acc out : List ℕ} :
    pcs.foldlM (fun result pc => (do
        require (decide (lHalfLen ≤ pc.1.length)) .indexOutOfBounds
        let tensor ← initializeTensor solBackend (pc.1.take lHalfLen)
        let coeff ← getIdx rlcCoeffs pc.2
        pure ((result.zip tensor).map fun rt => solBackend.add rt.1 (solBackend.mul rt.2 coeff)) :
        Checked (List ℕ))) acc = .ok out ↔
      ∃ tensors, pcs.mapM (claimTensor lHalfLen rlcCoeffs) = .ok tensors ∧
        tensors.foldl (fun acc tensor => acc.zipWith solBackend.add tensor) acc = out := by
  induction pcs generalizing acc with
  | nil =>
    simp only [List.foldlM_nil, List.mapM_nil, pure_eq_ok]
    constructor
    · rintro rfl
      exact ⟨[], rfl, rfl⟩
    · rintro ⟨_, rfl, rfl⟩
      rfl
  | cons pc pcs ih =>
    simp only [List.foldlM_cons, List.mapM_cons, bind_eq_ok, pure_eq_ok, ih, claimTensor]
    have hzip : ∀ tensor coeff, (acc.zip tensor).map
        (fun rt => solBackend.add rt.1 (solBackend.mul rt.2 coeff)) =
          acc.zipWith solBackend.add (tensor.map fun t => solBackend.mul t coeff) := by
      intro tensor coeff
      rw [List.zipWith_map_right, List.zip, List.map_zipWith]
    constructor
    · rintro ⟨_, ⟨_, hle, tensor, htensor, coeff, hcoeff, rfl⟩, tensors, htensors, rfl⟩
      refine ⟨_, ⟨_, ⟨(), hle, tensor, htensor, coeff, hcoeff, rfl⟩, tensors, htensors, rfl⟩, ?_⟩
      rw [List.foldl_cons, hzip]
    · rintro ⟨_, ⟨_, ⟨_, hle, tensor, htensor, coeff, hcoeff, rfl⟩, tensors, htensors, rfl⟩, rfl⟩
      refine ⟨_, ⟨(), hle, tensor, htensor, coeff, hcoeff, rfl⟩, tensors, htensors, ?_⟩
      rw [List.foldl_cons, hzip]

/-- The combined tensor of a group is the sum of its claims' tensors. -/
theorem computeRlcTensor_iff {points : List (List ℕ)} {lHalfLen : ℕ} {rlcCoeffs lCoeffs : List ℕ} :
    computeRlcTensor solBackend points lHalfLen rlcCoeffs = .ok lCoeffs ↔
      ∃ tensors, (points.zip (List.range points.length)).mapM (claimTensor lHalfLen rlcCoeffs) =
          .ok tensors ∧
        sumTensors (solBackend.shl1 lHalfLen) tensors = lCoeffs :=
  foldlM_claimTensor

theorem length_sumTensors {size : ℕ} {tensors : List (List ℕ)}
    (h : ∀ tensor ∈ tensors, tensor.length = size) : (sumTensors size tensors).length = size := by
  have hfold : ∀ acc : List ℕ, acc.length = size →
      (tensors.foldl (fun acc tensor => acc.zipWith solBackend.add tensor) acc).length = size := by
    induction tensors with
    | nil => exact fun acc hacc => hacc
    | cons tensor tensors ih =>
      obtain ⟨htensor, hrest⟩ := List.forall_mem_cons.mp h
      intro acc hacc
      rw [List.foldl_cons]
      refine ih hrest _ ?_
      rw [List.length_zipWith, hacc, htensor, min_self]
  exact hfold _ List.length_replicate

private theorem zipWith_add_replicate {size : ℕ} {tensor : List ℕ} (hlen : tensor.length = size)
    (hlt : ∀ x ∈ tensor, x < FR_MOD) :
    (List.replicate size 0).zipWith solBackend.add tensor = tensor := by
  refine List.ext_getElem (by simp [hlen]) fun i h₁ h₂ => ?_
  rw [List.getElem_zipWith, List.getElem_replicate]
  have hx := hlt tensor[i] (List.getElem_mem h₂)
  show (0 + tensor[i]) % FR_MOD = tensor[i]
  rw [Nat.zero_add, Nat.mod_eq_of_lt hx]

private theorem chunks_flatten {size : ℕ} (tensors : List (List ℕ))
    (h : ∀ tensor ∈ tensors, tensor.length = size) :
    (List.range tensors.length).map (fun ci => (tensors.flatten.drop (ci * size)).take size) =
      tensors := by
  induction tensors with
  | nil => rfl
  | cons tensor tensors ih =>
    obtain ⟨rfl, hrest⟩ := List.forall_mem_cons.mp h
    rw [List.length_cons, List.range_succ_eq_map, List.map_cons, List.map_map, Nat.zero_mul,
      List.drop_zero, List.flatten_cons, List.take_left]
    congr 1
    refine Eq.trans (List.map_congr_left fun ci _ => ?_) (ih hrest)
    simp only [Function.comp_apply, Nat.succ_eq_add_one, Nat.add_mul, Nat.one_mul]
    rw [Nat.add_comm, List.drop_append, List.drop_eq_nil_of_le (by omega), List.nil_append,
      Nat.add_sub_cancel_left]

/-- Folding the flat tensors of a group gives their sum, for tensors with an entry for every row. -/
theorem foldLTensor_flatten {size : ℕ} (hsize : size ≠ 0) {tensors : List (List ℕ)}
    (hlen : ∀ tensor ∈ tensors, tensor.length = size)
    (hlt : ∀ tensor ∈ tensors, ∀ x ∈ tensor, x < FR_MOD) :
    foldLTensor tensors.flatten size = .ok (sumTensors size tensors) := by
  have htotal : tensors.flatten.length = tensors.length * size := by
    rw [List.length_flatten, List.map_congr_left hlen, List.map_const', List.sum_replicate,
      smul_eq_mul]
  by_cases hone : tensors.length = 1
  · obtain ⟨tensor, rfl⟩ := List.length_eq_one_iff.mp hone
    rw [foldLTensor, if_pos (by rw [htotal, hone, Nat.one_mul]), sumTensors, List.foldl_cons,
      List.foldl_nil, zipWith_add_replicate (hlen tensor (by simp)) (hlt tensor (by simp))]
    simp only [List.flatten_cons, List.flatten_nil, List.append_nil]
    rfl
  · have hne : tensors.flatten.length ≠ size := by
      rw [htotal]
      intro heq
      exact hone (Nat.eq_of_mul_eq_mul_right (Nat.pos_of_ne_zero hsize) (heq.trans (Nat.one_mul _).symm))
    rw [foldLTensor, if_neg hne, htotal, Nat.mul_div_cancel _ (Nat.pos_of_ne_zero hsize), sumTensors,
      bne_iff_ne.mpr hsize, require_true, ok_bind]
    nth_rewrite 3 [← chunks_flatten tensors hlen]
    rw [List.foldl_map]
    rfl

/-! ## One eval group -/

/-- The curve equations of a group at given values. -/
def groupEC (dagProof : DAGInputLayerProof) (evalIdx : ℕ) (podpChallenge : ℕ)
    (values : List ℕ × ℕ) (gens : PedersenGens) : Checked Unit := do
  let lTensor ← foldLTensor values.1 dagProof.commitmentRows.length
  let comX ← multiScalarMul solBackend dagProof.commitmentRows lTensor
  let comY ← getIdx dagProof.comEvals evalIdx
  let podp ← getIdx dagProof.podps evalIdx
  verifyInputPODPChecks podp comX comY podpChallenge values.2 gens

section OneGroup

variable {dagProof : DAGInputLayerProof} {claimPoints : List (List ℕ)} {plan : EvalPlan}
  {gens : PedersenGens} {group : List ℕ} {g : ℕ} {s s₁ : Sponge} {hc : DAGInputGroupChallenges}
  {values : List ℕ × ℕ}

theorem replayOneGroup_eq_ok
    (h : replayOneGroup dagProof claimPoints plan group g s = .ok (hc, s₁)) :
    ∃ comEval podp, dagProof.comEvals[g]? = some comEval ∧ dagProof.podps[g]? = some podp ∧
      hc.rlcCoeffs = (groupChallenges solBackend group.length comEval podp s).rlcCoeffs ∧
      hc.podpChallenge = (groupChallenges solBackend group.length comEval podp s).podpChallenge ∧
      s₁ = (groupChallenges solBackend group.length comEval podp s).sponge ∧
      hc.lBindings.length = plan.lHalfLen := by
  simp only [replayOneGroup, bind_eq_ok, getIdx_eq_ok, pure_eq_ok] at h
  obtain ⟨comEval, hcom, podp, hpodp, _, -, _, -, lBindings, hl, _, -, hout⟩ := h
  obtain ⟨rfl, rfl⟩ := Prod.mk.inj hout
  refine ⟨comEval, podp, hcom, hpodp, rfl, rfl, rfl, ?_⟩
  rw [← (mapM_eq_ok.mp hl).length_eq, List.length_range]

/-- The values of a group, and its row and column coefficients. -/
private theorem groupValues_eq_ok {rlcCoeffs : List ℕ}
    (h : groupValues dagProof claimPoints plan group g rlcCoeffs = .ok values) :
    ∃ points tensors rCoeffs podp, group.mapM (getIdx claimPoints) = .ok points ∧
      points.length = group.length ∧
      (points.zip (List.range points.length)).mapM (claimTensor plan.lHalfLen rlcCoeffs) =
        .ok tensors ∧
      tensors.length = group.length ∧ values.1 = tensors.flatten ∧ tensors ≠ [] ∧
      dagProof.podps[g]? = some podp ∧
      innerProduct solBackend podp.zVector rCoeffs = .ok values.2 ∧
      ∀ lCoeffs rCoeffs', groupTensors solBackend claimPoints plan.lHalfLen plan.logNCols group
          rlcCoeffs = .ok (lCoeffs, rCoeffs') ↔
        lCoeffs = sumTensors (solBackend.shl1 plan.lHalfLen) tensors ∧ rCoeffs' = rCoeffs := by
  simp only [groupValues, bind_eq_ok, getIdx_eq_ok, pure_eq_ok] at h
  obtain ⟨points, hpoints, tensors, htensors, first, hfirst, rVars, hvars, rCoeffs, hr, podp, hpodp,
    zDotR, hz, rfl⟩ := h
  have hlen : points.length = group.length := (mapM_eq_ok.mp hpoints).length_eq.symm
  have htlen : tensors.length = group.length := by
    rw [← (mapM_eq_ok.mp htensors).length_eq, List.length_zip, List.length_range, min_self, hlen]
  refine ⟨points, tensors, rCoeffs, podp, hpoints, hlen, htensors, htlen, rfl, ?_, hpodp, hz, ?_⟩
  · rintro rfl
    have hpos := (List.getElem?_eq_some_iff.mp hfirst).1
    rw [List.length_nil] at htlen
    omega
  · intro lCoeffs rCoeffs'
    simp only [groupTensors, hpoints, ok_bind, bind_eq_ok, computeRlcTensor_iff, htensors,
      getIdx_eq_ok, hfirst, Option.some.injEq, exists_eq_left', hvars, hr, Except.ok.injEq, pure_eq_ok,
      Prod.mk.injEq]
    exact and_congr eq_comm eq_comm

/-- With as many rows as the tensors have entries, a group is accepted exactly when its curve
equations hold at its true values. -/
theorem verifyOneEvalGroup_iff
    (hreplay : replayOneGroup dagProof claimPoints plan group g s = .ok (hc, s₁))
    (hvalues : groupValues dagProof claimPoints plan group g hc.rlcCoeffs = .ok values) :
    (∃ run, verifyOneEvalGroup solBackend dagProof claimPoints plan.lHalfLen plan.logNCols gens g
        group s = .ok (run, s₁)) ↔
      dagProof.commitmentRows.length = 2 ^ plan.lHalfLen ∧
        groupEC dagProof g hc.podpChallenge values gens = .ok () := by
  obtain ⟨comEval, podp, hcom, hpodp, hcoeffs, hchallenge, hsponge, -⟩ := replayOneGroup_eq_ok hreplay
  obtain ⟨points, tensors, rCoeffs, podp', -, -, htensors, -, hflat, hne, hpodp', hz, hgroup⟩ :=
    groupValues_eq_ok hvalues
  obtain rfl : podp = podp' := Option.some.inj (hpodp.symm.trans hpodp')
  have hentries : ∀ tensor ∈ tensors, plan.lHalfLen < 64 ∧ tensor.length = 2 ^ plan.lHalfLen ∧
      ∀ x ∈ tensor, x < FR_MOD :=
    mapM_forall htensors fun pc tensor _ h => claimTensor_eq_ok h
  obtain ⟨tensor, htensor⟩ := List.exists_mem_of_ne_nil _ hne
  have hsize : solBackend.shl1 plan.lHalfLen = 2 ^ plan.lHalfLen :=
    if_pos (lt_trans (hentries tensor htensor).1 (by decide))
  have hpow : 2 ^ plan.lHalfLen ≠ 0 := Nat.pos_iff_ne_zero.mp (Nat.two_pow_pos _)
  have hlength := length_sumTensors fun tensor h => (hentries tensor h).2.1
  have hfold := foldLTensor_flatten hpow (fun tensor h => (hentries tensor h).2.1)
    fun tensor h => (hentries tensor h).2.2
  rw [hcoeffs] at hgroup
  simp only [verifyOneEvalGroup_eq_ok, hcom, hpodp, Option.some.injEq]
  constructor
  · rintro ⟨run, _, _, rfl, rfl, -, hopened, -⟩
    obtain ⟨hl, hr⟩ := (hgroup _ _).mp hopened.tensors
    have hopening := hopened.opening
    simp only [openingHolds, bind_eq_ok] at hopening
    obtain ⟨_, hcheck, comX, hmsm, hpodpOk⟩ := hopening
    rw [hl, hsize] at hmsm
    have hrows : dagProof.commitmentRows.length = 2 ^ plan.lHalfLen := by
      simp only [multiScalarMul, bind_eq_ok, require_eq_ok, beq_iff_eq] at hmsm
      rw [hmsm.choose_spec.1, hlength]
    obtain ⟨z, hz', hchecks⟩ :=
      (verifyPodp_true_iff_podpChecks .inputPODPEq1Failed .inputPODPEq2Failed).mp hpodpOk
    rw [hr] at hz'
    obtain rfl : values.2 = z := Except.ok.inj (hz.symm.trans hz')
    refine ⟨hrows, ?_⟩
    rw [groupEC, hflat, hrows, hfold, ok_bind, hmsm, ok_bind, getIdx_eq_ok.mpr hcom, ok_bind,
      getIdx_eq_ok.mpr hpodp, ok_bind, hchallenge]
    exact hchecks
  · rintro ⟨hrows, hec⟩
    simp only [groupEC, bind_eq_ok, getIdx_eq_ok, hcom, hpodp, Option.some.injEq,
      exists_eq_left', verifyInputPODPChecks] at hec
    obtain ⟨lTensor, hl, comX, hmsm, hchecks⟩ := hec
    rw [hflat, hrows, hfold] at hl
    obtain rfl := Except.ok.inj hl
    have hpodpOk := (verifyPodp_true_iff_podpChecks .inputPODPEq1Failed .inputPODPEq2Failed).mpr
      ⟨values.2, hz, hchecks⟩
    have hzlen : podp.zVector.length = rCoeffs.length := by
      simp only [innerProduct, bind_eq_ok, require_eq_ok, beq_iff_eq] at hz
      exact hz.choose_spec.1
    refine ⟨⟨group, comEval, (groupChallenges solBackend group.length comEval podp s).rlcCoeffs,
      sumTensors (2 ^ plan.lHalfLen) tensors, rCoeffs,
      (groupChallenges solBackend group.length comEval podp s).podpChallenge⟩, comEval, podp, rfl,
      rfl, rfl, ⟨rfl, rfl, rfl, (hgroup _ _).mpr ⟨by rw [hsize], rfl⟩, ?_⟩, hsponge⟩
    simp only [openingHolds, bind_eq_ok]
    refine ⟨(), ?_, comX, hmsm, hchallenge ▸ hpodpOk⟩
    simp [solBackend, hrows, hlength, hzlen, bne_iff_ne.mpr hpow]

private theorem sponge_of_replayOneGroup
    (hreplay : replayOneGroup dagProof claimPoints plan group g s = .ok (hc, s₁)) {run : GroupRun}
    {s' : Sponge} (h : verifyOneEvalGroup solBackend dagProof claimPoints plan.lHalfLen plan.logNCols
      gens g group s = .ok (run, s')) : s' = s₁ := by
  obtain ⟨comEval, podp, hcom, hpodp, -, -, hs, -⟩ := replayOneGroup_eq_ok hreplay
  obtain ⟨comEval', podp', hcom', hpodp', -, -, rfl⟩ := (verifyOneEvalGroup_eq_ok solBackend).mp h
  obtain rfl : comEval = comEval' := Option.some.inj (hcom.symm.trans hcom')
  obtain rfl : podp = podp' := Option.some.inj (hpodp.symm.trans hpodp')
  exact hs.symm

theorem length_groupValues
    (hreplay : replayOneGroup dagProof claimPoints plan group g s = .ok (hc, s₁))
    (hvalues : groupValues dagProof claimPoints plan group g hc.rlcCoeffs = .ok values) :
    values.1.length = lTensorSize hc := by
  obtain ⟨comEval, podp, -, -, hcoeffs, -, -, hbindings⟩ := replayOneGroup_eq_ok hreplay
  obtain ⟨points, tensors, rCoeffs, podp', -, -, htensors, hlen, hflat, hne, -⟩ :=
    groupValues_eq_ok hvalues
  have hentries : ∀ tensor ∈ tensors, plan.lHalfLen < 64 ∧ tensor.length = 2 ^ plan.lHalfLen :=
    mapM_forall htensors fun pc tensor _ h => ⟨(claimTensor_eq_ok h).1, (claimTensor_eq_ok h).2.1⟩
  obtain ⟨tensor, htensor⟩ := List.exists_mem_of_ne_nil _ hne
  have hsize : solBackend.shl1 plan.lHalfLen = 2 ^ plan.lHalfLen :=
    if_pos (lt_trans (hentries tensor htensor).1 (by decide))
  have hcount : hc.rlcCoeffs.length = group.length := by
    rw [hcoeffs]
    exact length_challenges solBackend _ _
  rw [lTensorSize, hcount, hbindings, hsize, hflat, List.length_flatten,
    List.map_congr_left fun tensor h => (hentries tensor h).2, List.map_const', List.sum_replicate,
    smul_eq_mul, hlen]

end OneGroup

/-! ## The groups of an input -/

/-- The replay reads an evaluation proof for every group. -/
theorem replayGroups_lengths {dagProof : DAGInputLayerProof} {claimPoints : List (List ℕ)}
    {plan : EvalPlan} {groups : List (List ℕ)} {k : ℕ} {s : Sponge}
    {out : List DAGInputGroupChallenges × Sponge}
    (h : replayGroups dagProof claimPoints plan (groups.zipIdx k) s = .ok out) :
    out.1.length = groups.length ∧
      (k + groups.length ≤ dagProof.podps.length ∨ groups = []) := by
  induction groups generalizing k s out with
  | nil =>
    obtain rfl := pure_eq_ok.mp h
    exact ⟨rfl, .inr rfl⟩
  | cons group groups ih =>
    rw [List.zipIdx_cons] at h
    simp only [replayGroups, bind_eq_ok, pure_eq_ok] at h
    obtain ⟨⟨hc, s₂⟩, hone, ⟨rest, s₃⟩, hrest, rfl⟩ := h
    obtain ⟨hlen, hpodps⟩ := ih hrest
    obtain ⟨comEval, podp, -, hpodp, -⟩ := replayOneGroup_eq_ok hone
    have hlt := (List.getElem?_eq_some_iff.mp hpodp).1
    refine ⟨by simp only [List.length_cons, ← hlen], .inl ?_⟩
    rw [List.length_cons]
    rcases hpodps with hle | rfl
    · omega
    · simpa using hlt

theorem sizes_groupsValues {dagProof : DAGInputLayerProof} {claimPoints : List (List ℕ)}
    {plan : EvalPlan} {groups : List (List ℕ × ℕ)} {s s₁ : Sponge}
    {hcs more : List DAGInputGroupChallenges} {values : List (List ℕ × ℕ)}
    (hreplay : replayGroups dagProof claimPoints plan groups s = .ok (hcs, s₁))
    (hvalues : groupsValues dagProof claimPoints plan groups (hcs ++ more) = .ok values) :
    values.map (fun v => v.1.length) = hcs.map lTensorSize := by
  induction groups generalizing s hcs values with
  | nil =>
    obtain ⟨rfl, rfl⟩ := Prod.mk.inj (pure_eq_ok.mp hreplay)
    obtain rfl : [] = values := pure_eq_ok.mp hvalues
    rfl
  | cons group groups ih =>
    simp only [replayGroups, bind_eq_ok, pure_eq_ok] at hreplay
    obtain ⟨⟨hc, s₂⟩, hone, ⟨rest, s₃⟩, hrest, hout⟩ := hreplay
    obtain ⟨rfl, rfl⟩ := Prod.mk.inj hout
    simp only [List.cons_append, groupsValues, bind_eq_ok, pure_eq_ok] at hvalues
    obtain ⟨v, hv, others, hothers, rfl⟩ := hvalues
    rw [List.map_cons, List.map_cons, ih hrest hothers, length_groupValues hone hv]

/-- What the values of the groups of a committed input have to do with its replayed challenges, and
with the checks of the groups. -/
structure GroupsReplayed (dagProof : DAGInputLayerProof) (claimPoints : List (List ℕ))
    (plan : EvalPlan) (gens : PedersenGens) (groups : List (List ℕ)) (k : ℕ) (s s₁ : Sponge)
    (hcs : List DAGInputGroupChallenges) (values : List (List ℕ × ℕ)) : Prop where
  length_challenges : hcs.length = groups.length
  length_values : values.length = groups.length
  sponge : ∀ out, verifyGroups solBackend dagProof claimPoints plan gens (groups.zipIdx k) s =
    .ok out → out.2 = s₁
  checks : (∃ runs, verifyGroups solBackend dagProof claimPoints plan gens (groups.zipIdx k) s =
      .ok (runs, s₁)) ↔
    ∀ j hc v, hcs[j]? = some hc → values[j]? = some v →
      dagProof.commitmentRows.length = 2 ^ plan.lHalfLen ∧
        groupEC dagProof (k + j) hc.podpChallenge v gens = .ok ()

theorem groupsReplayed_of_replay {dagProof : DAGInputLayerProof} {claimPoints : List (List ℕ)}
    {plan : EvalPlan} {gens : PedersenGens} {groups : List (List ℕ)} {k : ℕ} {s s₁ : Sponge}
    {hcs more : List DAGInputGroupChallenges} {values : List (List ℕ × ℕ)}
    (hreplay : replayGroups dagProof claimPoints plan (groups.zipIdx k) s = .ok (hcs, s₁))
    (hvalues : groupsValues dagProof claimPoints plan (groups.zipIdx k) (hcs ++ more) = .ok values) :
    GroupsReplayed dagProof claimPoints plan gens groups k s s₁ hcs values := by
  induction groups generalizing k s hcs values with
  | nil =>
    obtain ⟨rfl, rfl⟩ := Prod.mk.inj (pure_eq_ok.mp hreplay)
    obtain rfl : [] = values := pure_eq_ok.mp hvalues
    refine ⟨rfl, rfl, ?_, ?_⟩
    · intro out hout
      rw [(verifyGroups_nil solBackend).mp hout]
    · simp [verifyGroups, pure_eq_ok]
  | cons group groups ih =>
    rw [List.zipIdx_cons] at hreplay hvalues
    simp only [replayGroups, bind_eq_ok, pure_eq_ok] at hreplay
    obtain ⟨⟨hc, s₂⟩, hone, ⟨rest, s₃⟩, hrest, hout⟩ := hreplay
    obtain ⟨rfl, rfl⟩ := Prod.mk.inj hout
    simp only [List.cons_append, groupsValues, bind_eq_ok, pure_eq_ok] at hvalues
    obtain ⟨v, hv, others, hothers, rfl⟩ := hvalues
    have hih := ih hrest hothers
    refine ⟨by simp [hih.length_challenges], by simp [hih.length_values], ?_, ?_⟩
    · intro out hruns
      rw [List.zipIdx_cons] at hruns
      obtain ⟨run, s', runs', hrun, hrest', -⟩ := (verifyGroups_cons solBackend).mp hruns
      obtain rfl := sponge_of_replayOneGroup hone hrun
      exact hih.sponge (runs', out.2) hrest'
    · rw [List.zipIdx_cons]
      have hgroup := @verifyOneEvalGroup_iff dagProof claimPoints plan gens group k s s₂ hc v hone hv
      constructor
      · rintro ⟨runs, hruns⟩ j hc' v' hhc' hv'
        obtain ⟨run, s', runs', hrun, hrest', -⟩ := (verifyGroups_cons solBackend).mp hruns
        obtain rfl := sponge_of_replayOneGroup hone hrun
        cases j with
        | zero =>
          obtain rfl : hc = hc' := Option.some.inj hhc'
          obtain rfl : v = v' := Option.some.inj hv'
          exact hgroup.mp ⟨run, hrun⟩
        | succ j =>
          have hj : k + (j + 1) = k + 1 + j := by omega
          rw [hj]
          exact hih.checks.mp ⟨runs', hrest'⟩ j hc' v' hhc' hv'
      · intro h
        obtain ⟨run, hrun⟩ := hgroup.mpr (h 0 hc v rfl rfl)
        obtain ⟨runs, hruns⟩ := hih.checks.mpr fun j hc' v' hhc' hv' => by
          have hj : k + 1 + j = k + (j + 1) := by omega
          rw [hj]
          exact h (j + 1) hc' v' hhc' hv'
        exact ⟨run :: runs, (verifyGroups_cons solBackend).mpr ⟨run, s₂, runs, hrun, hruns, rfl⟩⟩

/-! ## Counting the evaluation proofs -/

/-- The evaluation proofs of the committed inputs in the list. -/
def podpCount (desc : DAGCircuitDescription) (dagInputProofs : List DAGInputLayerProof) :
    List ℕ → ℕ → ℕ
  | [], _ => 0
  | i :: is, dagInputIdx =>
    if desc.inputIsCommitted[i]? = some true then
      (dagInputProofs[dagInputIdx]?).elim 0 (·.podps.length) +
        podpCount desc dagInputProofs is (dagInputIdx + 1)
    else podpCount desc dagInputProofs is dagInputIdx

section Counting

variable {desc : DAGCircuitDescription} {dagInputProofs : List DAGInputLayerProof} {is : List ℕ}
  {dagInputIdx : ℕ}

/-- The curve equations read challenges for every evaluation proof. -/
theorem podpCount_le {challenges : DAGTranscriptChallenges} {outputs : DAGGroth16Outputs}
    {gens : PedersenGens} {groupIdx : ℕ}
    (h : verifyInputLayersEC desc challenges outputs gens dagInputProofs is dagInputIdx groupIdx =
      .ok ()) :
    podpCount desc dagInputProofs is dagInputIdx = 0 ∨
      groupIdx + podpCount desc dagInputProofs is dagInputIdx ≤ challenges.inputGroups.length := by
  induction is generalizing dagInputIdx groupIdx with
  | nil => exact .inl rfl
  | cons i is ih =>
    simp only [verifyInputLayersEC, bind_eq_ok, getIdx_eq_ok] at h
    obtain ⟨committed, hcommitted, h⟩ := h
    cases committed with
    | false =>
      rw [podpCount, hcommitted, if_neg (by simp)]
      exact ih h
    | true =>
      simp only [↓reduceIte, bind_eq_ok, getIdx_eq_ok, forM_eq_ok, List.mem_range] at h
      obtain ⟨dagProof, hproof, _, hchecks, hrest⟩ := h
      rw [podpCount, hcommitted, if_pos rfl, hproof, Option.elim_some]
      have hlast : dagProof.podps.length ≠ 0 →
          groupIdx + dagProof.podps.length ≤ challenges.inputGroups.length := by
        intro hne
        have hcheck := hchecks (dagProof.podps.length - 1) (by omega)
        simp only [verifyOneInputGroupEC, bind_eq_ok, getIdx_eq_ok] at hcheck
        obtain ⟨_, -, _, -, _, -, _, -, _, -, group, hgroup, -⟩ := hcheck
        have hlt := (List.getElem?_eq_some_iff.mp hgroup).1
        omega
      rcases ih hrest with hzero | hle
      · rw [hzero, Nat.add_zero]
        by_cases hne : dagProof.podps.length = 0
        · exact .inl hne
        · exact .inr (hlast hne)
      · right
        omega

theorem length_le_podpCount {allBindings : List (List ℕ)} {s : Sponge}
    {chs : List DAGInputGroupChallenges} (h : replayInputLayersFull desc allBindings dagInputProofs is
      dagInputIdx s = .ok chs) : chs.length ≤ podpCount desc dagInputProofs is dagInputIdx := by
  induction is generalizing dagInputIdx s chs with
  | nil =>
    obtain rfl := pure_eq_ok.mp h
    exact Nat.le_refl 0
  | cons i is ih =>
    simp only [replayInputLayersFull, bind_eq_ok, getIdx_eq_ok] at h
    obtain ⟨committed, hcommitted, h⟩ := h
    cases committed with
    | false =>
      rw [podpCount, hcommitted, if_neg (by simp)]
      exact ih h
    | true =>
      simp only [↓reduceIte, bind_eq_ok, getIdx_eq_ok, pure_eq_ok] at h
      obtain ⟨claimPoints, -, dagProof, hproof, plan, -, ⟨cs, s₁⟩, hgroups, rest, hrest, rfl⟩ := h
      rw [podpCount, hcommitted, if_pos rfl, hproof, Option.elim_some, List.length_append]
      obtain ⟨hlen, hpodps⟩ := replayGroups_lengths hgroups
      have hle := ih hrest
      simp only at hlen ⊢
      rcases hpodps with hcount | hnil
      · omega
      · rw [hlen, hnil, List.length_nil]
        omega

end Counting

/-! ## The input loop -/

/-- What the full verifier asks of the inputs in the list beyond the curve equations: the rows of a
committed input are as many as a tensor has entries, and a public input has room for the claims that
the scan finds. -/
def InputsFit (desc : DAGCircuitDescription) (dagInputProofs : List DAGInputLayerProof) :
    List ℕ → ℕ → Prop
  | [], _ => True
  | i :: is, dagInputIdx =>
    if desc.inputIsCommitted[i]? = some true then
      (∀ dagProof, dagInputProofs[dagInputIdx]? = some dagProof →
        ∃ l, dagProof.commitmentRows.length = 2 ^ l) ∧
        InputsFit desc dagInputProofs is (dagInputIdx + 1)
    else
      (∀ atoms, routedAtoms desc (desc.numComputeLayers + i) desc.numComputeLayers = .ok atoms →
        atoms.length ≤ countClaimsFor (desc.numComputeLayers + i) desc) ∧
        InputsFit desc dagInputProofs is dagInputIdx

section Inputs

variable {proof : GKRProof} {desc : DAGCircuitDescription} {gens : PedersenGens}
  {allBindings : List (List ℕ)} {input : InputData}

theorem lHalfLen_eq {dagProof : DAGInputLayerProof} {claimPoints : List (List ℕ)} {plan : EvalPlan}
    (h : sortAndGroupClaims dagProof claimPoints = .ok plan) :
    0 < plan.groups.length ∧ (dagProof.commitmentRows.length = 2 ^ plan.lHalfLen ↔
      ∃ l, dagProof.commitmentRows.length = 2 ^ l) := by
  have hlen := length_sortAndGroupClaims h
  simp only [sortAndGroupClaims, bind_eq_ok, getIdx_eq_ok, log2, pure_eq_ok] at h
  obtain ⟨first, hfirst, lHalfLen, ⟨_, -, rfl⟩, _, -, groups, -, rfl⟩ := h
  refine ⟨?_, fun h => ⟨_, h⟩, ?_⟩
  · rw [hlen]
    exact (List.getElem?_eq_some_iff.mp hfirst).1
  · rintro ⟨l, hl⟩
    rw [hl, if_pos (Nat.two_pow_pos l), Nat.log2_two_pow]

/-- The hybrid check of a claim on a public input makes the checks of the full one. -/
private theorem verifyOnePublicClaim_of_EC {mleEval : List ℕ} {ja : ℕ × ℕ} {claimIdx : ℕ}
    (h : verifyOnePublicClaimEC proof desc allBindings input mleEval gens ja claimIdx = .ok ()) :
    ∃ bs point commitment, allBindings[ja.1]? = some bs ∧ resolvePoint desc ja.2 bs = .ok point ∧
      atomCommitment proof desc ja = .ok commitment ∧
      verifyOnePublicClaim solBackend point commitment claimIdx input.publicInputs
        input.publicValueClaims gens = .ok () := by
  simp only [verifyOnePublicClaimEC, bind_eq_ok, getIdx_eq_ok, require_eq_ok] at h
  obtain ⟨claim, hclaim, commitment, hcommitment, _, hsame, vg, hvg, bg, hbg, expected, hexpected, _,
    hopening, _, -, _, -, bs, hbs, point, hpoint, mle, hmle, hvalue⟩ := h
  refine ⟨bs, point, commitment, hbs, hpoint, hcommitment, ?_⟩
  simp only [verifyOnePublicClaim, bind_eq_ok, getIdx_eq_ok, require_eq_ok, decide_eq_true_eq]
  exact ⟨(), (List.getElem?_eq_some_iff.mp hclaim).1, claim, hclaim, (), of_decide_eq_true hsame, vg,
    hvg, bg, hbg, expected, hexpected, (), of_decide_eq_true hopening, mle, hmle, hvalue⟩

/-- The claim points of a public input, and the claims on it, under the hybrid checks. -/
private theorem publicInput_iff {mleEval : List ℕ} {targetLayer pubClaimIdx next : ℕ}
    (h : verifyPublicClaimsForLayer proof desc allBindings input mleEval gens targetLayer pubClaimIdx =
      .ok next) :
    (∃ claimPoints, collectClaimPoints solBackend desc allBindings targetLayer = .ok claimPoints ∧
        verifyPublicInputClaims solBackend proof desc gens claimPoints targetLayer pubClaimIdx
          input.publicInputs input.publicValueClaims = .ok next) ↔
      ∀ atoms, routedAtoms desc targetLayer desc.numComputeLayers = .ok atoms →
        atoms.length ≤ countClaimsFor targetLayer desc := by
  simp only [verifyPublicClaimsForLayer, bind_eq_ok, forM_eq_ok, pure_eq_ok] at h
  obtain ⟨atoms, hatoms, _, hchecks, rfl⟩ := h
  have hclaim : ∀ k ja, atoms[k]? = some ja → ∃ bs point commitment,
      allBindings[ja.1]? = some bs ∧ resolvePoint desc ja.2 bs = .ok point ∧
      atomCommitment proof desc ja = .ok commitment ∧
      verifyOnePublicClaim solBackend point commitment (pubClaimIdx + k) input.publicInputs
        input.publicValueClaims gens = .ok () := by
    intro k ja hja
    exact verifyOnePublicClaim_of_EC (hchecks (ja, k) (List.mem_zipIdx_iff_getElem?.mpr hja))
  have hpoint : ∀ ja ∈ atoms, ∃ point,
      (do resolvePoint desc ja.2 (← getIdx allBindings ja.1)) = .ok point := by
    intro ja hja
    obtain ⟨k, hk⟩ := List.getElem?_of_mem hja
    obtain ⟨bs, point, -, hbs, hpoint, -⟩ := hclaim k ja hk
    exact ⟨point, bind_eq_ok.mpr ⟨bs, getIdx_eq_ok.mpr hbs, hpoint⟩⟩
  choose! point hpoint using hpoint
  have hfill : ∀ claimPoints, collectClaimPoints solBackend desc allBindings targetLayer =
      .ok claimPoints ↔ atoms.length ≤ countClaimsFor targetLayer desc ∧
        claimPoints = atoms.map point ++
          List.replicate (countClaimsFor targetLayer desc - atoms.length) [] := by
    intro claimPoints
    simp only [collectClaimPoints, hatoms, mapM_of_ok hpoint, ok_bind, solBackend, bind_eq_ok,
      require_eq_ok, decide_eq_true_eq, pure_eq_ok, List.length_map]
    constructor
    · rintro ⟨_, hle, rfl⟩
      exact ⟨hle, rfl⟩
    · rintro ⟨hle, rfl⟩
      exact ⟨(), hle, rfl⟩
  constructor
  · rintro ⟨claimPoints, hpoints, -⟩ atoms' hatoms'
    obtain rfl : atoms = atoms' := Except.ok.inj (hatoms.symm.trans hatoms')
    exact ((hfill claimPoints).mp hpoints).1
  · intro hle
    refine ⟨_, (hfill _).mpr ⟨hle atoms hatoms, rfl⟩, ?_⟩
    simp only [verifyPublicInputClaims, hatoms, ok_bind, bind_eq_ok, forM_eq_ok, pure_eq_ok]
    refine ⟨(), ?_, trivial⟩
    rintro ⟨ja, k⟩ hmem
    have hja := List.mem_zipIdx_iff_getElem?.mp hmem
    obtain ⟨bs, p, commitment, hbs, hp, hcommitment, hcheck⟩ := hclaim k ja hja
    have hk : k < atoms.length := (List.getElem?_eq_some_iff.mp hja).1
    have hat := hpoint ja (List.mem_of_getElem? hja)
    obtain rfl : p = point ja := by
      rw [bind_eq_ok] at hat
      obtain ⟨bs', hbs', hp'⟩ := hat
      obtain rfl : bs = bs' := Option.some.inj (hbs.symm.trans (getIdx_eq_ok.mp hbs'))
      exact Except.ok.inj (hp.symm.trans hp')
    refine ⟨point ja, getIdx_eq_ok.mpr ?_, commitment, hcommitment, hcheck⟩
    rw [List.getElem?_append_left (by simpa using hk), List.getElem?_map, hja, Option.map_some]

/-- The outputs hold the values `allValues` of all groups, where the equations of a group look for
them. -/
structure ValuesRead (outputs : DAGGroth16Outputs) (allValues : List (List ℕ × ℕ)) : Prop where
  tensor : ∀ (idx : ℕ) (v : List ℕ × ℕ), allValues[idx]? = some v →
    readSlice VerifyError.indexOutOfBounds outputs.lTensorOffsets outputs.lTensorFlat idx = .ok v.1
  zDotR : ∀ (idx : ℕ) (v : List ℕ × ℕ), allValues[idx]? = some v → outputs.zDotR[idx]? = some v.2

private theorem verifyOneInputGroupEC_iff {challenges : DAGTranscriptChallenges}
    {outputs : DAGGroth16Outputs} {allValues : List (List ℕ × ℕ)}
    (hread : ValuesRead outputs allValues) {dagProof : DAGInputLayerProof}
    {evalIdx groupIdx : ℕ} {hc : DAGInputGroupChallenges} {v : List ℕ × ℕ}
    (hhc : challenges.inputGroups[groupIdx]? = some hc) (hv : allValues[groupIdx]? = some v) :
    verifyOneInputGroupEC dagProof evalIdx groupIdx challenges outputs gens = .ok () ↔
      groupEC dagProof evalIdx hc.podpChallenge v gens = .ok () := by
  simp only [verifyOneInputGroupEC, groupEC, hread.tensor groupIdx v hv, ok_bind, bind_eq_ok,
    getIdx_eq_ok, hhc, hread.zDotR groupIdx v hv, Option.some.injEq, exists_eq_left']

/-- The input loop under the hybrid checks of all inputs. -/
theorem inputLoop_iff {challenges : DAGTranscriptChallenges} {outputs : DAGGroth16Outputs}
    {allValues : List (List ℕ × ℕ)} (hread : ValuesRead outputs allValues) {is : List ℕ}
    {st : InputState} {groupIdx : ℕ} {chs : List DAGInputGroupChallenges}
    {values : List (List ℕ × ℕ)}
    (hreplay : replayInputLayersFull desc allBindings input.dagInputProofs is st.dagInputIdx
      st.sponge = .ok chs)
    (hvalues : inputValues desc allBindings input.dagInputProofs is st.dagInputIdx chs = .ok values)
    (hchs : challenges.inputGroups.drop groupIdx = chs) (hvs : allValues.drop groupIdx = values)
    (hec : verifyInputLayersEC desc challenges outputs gens input.dagInputProofs is st.dagInputIdx
      groupIdx = .ok ())
    (hpub : verifyPublicValueClaimsEC proof desc allBindings input outputs.mleEval gens is
      st.pubClaimIdx = .ok ()) :
    (∃ st', is.foldlM (verifyInputLayer solBackend proof desc gens allBindings input) st = .ok st') ↔
      InputsFit desc input.dagInputProofs is st.dagInputIdx := by
  induction is generalizing st groupIdx chs values with
  | nil => simp [InputsFit, pure_eq_ok]
  | cons i is ih =>
    have hcount := podpCount_le hec
    simp only [replayInputLayersFull, bind_eq_ok, getIdx_eq_ok] at hreplay
    obtain ⟨committed, hcommitted, hreplay⟩ := hreplay
    simp only [inputValues, bind_eq_ok, getIdx_eq_ok, hcommitted, Option.some.injEq,
      exists_eq_left'] at hvalues
    simp only [verifyInputLayersEC, bind_eq_ok, getIdx_eq_ok, hcommitted, Option.some.injEq,
      exists_eq_left'] at hec
    simp only [verifyPublicValueClaimsEC, bind_eq_ok, getIdx_eq_ok, hcommitted, Option.some.injEq,
      exists_eq_left'] at hpub
    simp only [List.foldlM_cons, bind_eq_ok, verifyInputLayer_eq_ok, hcommitted, InputsFit]
    cases committed with
    | false =>
      simp only [Bool.false_eq_true, ↓reduceIte, bind_eq_ok] at hreplay hvalues hec hpub
      obtain ⟨next, hnext, hpub⟩ := hpub
      have hpublic := publicInput_iff hnext
      have hrest := @ih ⟨st.dagInputIdx, next, st.groupRuns ++ [[]], st.sponge⟩ groupIdx chs values
        hreplay hvalues hchs hvs hec hpub
      rw [if_neg (by simp), ← hpublic, ← hrest]
      constructor
      · rintro ⟨st', st₁, ⟨claimPoints, hpoints, ⟨hfalse, -⟩ | ⟨-, next', hnext', rfl⟩⟩, hfold⟩
        · cases hfalse
        · obtain rfl : next = next' := by
            simp only [verifyPublicClaimsForLayer, verifyPublicInputClaims, bind_eq_ok,
              pure_eq_ok] at hnext hnext'
            obtain ⟨atoms, hatoms, _, -, rfl⟩ := hnext
            obtain ⟨atoms', hatoms', _, -, rfl⟩ := hnext'
            rw [Except.ok.inj (hatoms.symm.trans hatoms')]
          exact ⟨⟨claimPoints, hpoints, hnext'⟩, st', hfold⟩
      · rintro ⟨⟨claimPoints, hpoints, hclaims⟩, st', hfold⟩
        exact ⟨st', _, ⟨claimPoints, hpoints, .inr ⟨rfl, next, hclaims, rfl⟩⟩, hfold⟩
    | true =>
      simp only [↓reduceIte, bind_eq_ok, getIdx_eq_ok, pure_eq_ok, forM_eq_ok,
        List.mem_range] at hreplay hvalues hec hpub
      obtain ⟨claimPoints, hpoints, dagProof, hproof, plan, hplan, ⟨cs, s₁⟩, hgroups, rest, hrest,
        hsplit⟩ := hreplay
      obtain ⟨claimPoints', hpoints', dagProof', hproof', plan', hplan', vs, hvalues, vrest, hvrest,
        hvsplit⟩ := hvalues
      obtain ⟨dagProof'', hproof'', _, hchecks, hec⟩ := hec
      obtain rfl : claimPoints = claimPoints' := Except.ok.inj (hpoints.symm.trans hpoints')
      obtain rfl : dagProof = dagProof' := Option.some.inj (hproof.symm.trans hproof')
      obtain rfl : dagProof = dagProof'' := Option.some.inj (hproof.symm.trans hproof'')
      obtain rfl : plan = plan' := Except.ok.inj (hplan.symm.trans hplan')
      change cs ++ rest = chs at hsplit
      subst hsplit hvsplit
      have hreplayed := @groupsReplayed_of_replay dagProof claimPoints plan gens plan.groups 0
        st.sponge s₁ cs rest vs hgroups hvalues
      obtain ⟨hpos, hrows⟩ := lHalfLen_eq hplan
      have hcs := hreplayed.length_challenges
      have hvlen := hreplayed.length_values
      -- as many evaluation proofs as groups, since the later inputs have no challenges to spare
      have haligned : plan.groups.length = dagProof.podps.length := by
        have hle := length_le_podpCount hrest
        obtain ⟨-, hpodps⟩ := replayGroups_lengths hgroups
        have hlen := congrArg List.length hchs
        rw [List.length_drop, List.length_append] at hlen
        rw [podpCount, hcommitted, if_pos rfl, hproof, Option.elim_some] at hcount
        rcases hpodps with hpodps | hnil
        · omega
        · rw [hnil, List.length_nil] at hpos
          omega
      have hih : ∀ groupRuns, (∃ st', is.foldlM (verifyInputLayer solBackend proof desc gens allBindings
          input) ⟨st.dagInputIdx + 1, st.pubClaimIdx, groupRuns, s₁⟩ = .ok st') ↔
          InputsFit desc input.dagInputProofs is (st.dagInputIdx + 1) := by
        intro groupRuns
        refine @ih ⟨st.dagInputIdx + 1, st.pubClaimIdx, groupRuns, s₁⟩
          (groupIdx + dagProof.podps.length) rest vrest hrest ?_ ?_ ?_ hec hpub
        · rw [List.drop_left' hcs] at hvrest
          exact hvrest
        · rw [← List.drop_drop, hchs, ← haligned, List.drop_left' hcs]
        · rw [← List.drop_drop, hvs, ← haligned, List.drop_left' hvlen]
      have hgroup : ∀ j hc v, cs[j]? = some hc → vs[j]? = some v →
          groupEC dagProof j hc.podpChallenge v gens = .ok () := by
        intro j hc v hhc hv
        have hj : j < dagProof.podps.length := by
          rw [← haligned, ← hcs]
          exact (List.getElem?_eq_some_iff.mp hhc).1
        refine (verifyOneInputGroupEC_iff hread ?_ ?_).mp (hchecks j hj)
        · rw [← List.getElem?_drop, hchs, List.getElem?_append_left
            (List.getElem?_eq_some_iff.mp hhc).1, hhc]
        · rw [← List.getElem?_drop, hvs, List.getElem?_append_left
            (List.getElem?_eq_some_iff.mp hv).1, hv]
      rw [if_pos rfl]
      constructor
      · rintro ⟨st', st₁, ⟨points, hpoints'', ⟨-, dagProof', plan', runs, s', hproof', hplan', hruns,
          rfl⟩ | ⟨hfalse, -⟩⟩, hfold⟩
        · obtain rfl : claimPoints = points := Except.ok.inj (hpoints.symm.trans hpoints'')
          obtain rfl : dagProof = dagProof' := Option.some.inj (hproof.symm.trans hproof')
          obtain rfl : plan = plan' :=
            Except.ok.inj (hplan.symm.trans (evalPlan_eq_ok.mp hplan').1)
          obtain rfl : s' = s₁ := hreplayed.sponge _ hruns
          have hfirst := hreplayed.checks.mp ⟨runs, hruns⟩ 0 (cs.get ⟨0, hcs.symm ▸ hpos⟩)
            (vs.get ⟨0, hvlen.symm ▸ hpos⟩) (List.getElem?_eq_getElem _) (List.getElem?_eq_getElem _)
          refine ⟨fun dagProof' hdag => ?_, (hih _).mp ⟨st', hfold⟩⟩
          obtain rfl : dagProof = dagProof' := Option.some.inj (hproof.symm.trans hdag)
          exact hrows.mp hfirst.1
        · cases hfalse
      · rintro ⟨hpow, hfit⟩
        obtain ⟨runs, hruns⟩ := hreplayed.checks.mpr fun j hc v hhc hv =>
          ⟨hrows.mpr (hpow dagProof hproof), by rw [Nat.zero_add]; exact hgroup j hc v hhc hv⟩
        obtain ⟨st', hfold⟩ := (hih (st.groupRuns ++ [runs])).mpr hfit
        exact ⟨st', _, ⟨claimPoints, hpoints, .inl ⟨rfl, dagProof, plan, runs, s₁, hproof,
          evalPlan_eq_ok.mpr ⟨hplan, haligned⟩, hruns, rfl⟩⟩, hfold⟩

/-- The values of all groups have the sizes that the contract counts. -/
theorem sizes_inputValues {dagInputProofs : List DAGInputLayerProof} {is : List ℕ} {dagInputIdx : ℕ}
    {s : Sponge} {chs : List DAGInputGroupChallenges} {values : List (List ℕ × ℕ)}
    (hreplay : replayInputLayersFull desc allBindings dagInputProofs is dagInputIdx s = .ok chs)
    (hvalues : inputValues desc allBindings dagInputProofs is dagInputIdx chs = .ok values) :
    values.map (fun v => v.1.length) = chs.map lTensorSize := by
  induction is generalizing dagInputIdx s chs values with
  | nil =>
    obtain rfl := pure_eq_ok.mp hreplay
    obtain rfl := pure_eq_ok.mp hvalues
    rfl
  | cons i is ih =>
    simp only [replayInputLayersFull, bind_eq_ok, getIdx_eq_ok] at hreplay
    obtain ⟨committed, hcommitted, hreplay⟩ := hreplay
    simp only [inputValues, bind_eq_ok, getIdx_eq_ok, hcommitted, Option.some.injEq,
      exists_eq_left'] at hvalues
    cases committed with
    | false =>
      simp only [Bool.false_eq_true, ↓reduceIte] at hreplay hvalues
      exact ih hreplay hvalues
    | true =>
      simp only [↓reduceIte, bind_eq_ok, getIdx_eq_ok, pure_eq_ok] at hreplay hvalues
      obtain ⟨claimPoints, hpoints, dagProof, hproof, plan, hplan, ⟨cs, s₁⟩, hgroups, rest, hrest,
        hsplit⟩ := hreplay
      obtain ⟨claimPoints', hpoints', dagProof', hproof', plan', hplan', vs, hvs, vrest, hvrest,
        rfl⟩ := hvalues
      obtain rfl : claimPoints = claimPoints' := Except.ok.inj (hpoints.symm.trans hpoints')
      obtain rfl : dagProof = dagProof' := Option.some.inj (hproof.symm.trans hproof')
      obtain rfl : plan = plan' := Except.ok.inj (hplan.symm.trans hplan')
      change cs ++ rest = chs at hsplit
      subst hsplit
      have hlen : cs.length = plan.groups.length := (replayGroups_lengths hgroups).1
      rw [List.drop_left' hlen] at hvrest
      rw [List.map_append, List.map_append, sizes_groupsValues hgroups hvs, ih hrest hvrest]

/-- Offsets counted from the challenges and the flattened values are read back group by group. -/
theorem valuesRead_of_sizes {challenges : DAGTranscriptChallenges} {outputs : DAGGroth16Outputs}
    {values : List (List ℕ × ℕ)}
    (hsizes : values.map (fun v => v.1.length) = challenges.inputGroups.map lTensorSize)
    (hoffsets : outputs.lTensorOffsets = offsetsFrom 0 (challenges.inputGroups.map lTensorSize))
    (hflat : outputs.lTensorFlat = (values.map Prod.fst).flatten)
    (hdot : outputs.zDotR = values.map Prod.snd) : ValuesRead outputs values := by
  constructor
  · intro idx v hv
    have hlengths : challenges.inputGroups.map lTensorSize =
        (values.map Prod.fst).map List.length := by
      rw [← hsizes, List.map_map]
      rfl
    rw [hoffsets, hflat, hlengths]
    refine readSlice_flatten ?_
    rw [List.getElem?_map, hv, Option.map_some]
  · intro idx v hv
    rw [hdot, List.getElem?_map, hv, Option.map_some]

end Inputs

/-! ## The whole proof -/

/-- The checks of the full verifier that the hybrid one does not make, at replayed challenges. -/
structure FullChecks (decoded : DecodedProof) (desc : DAGCircuitDescription) (gens : PedersenGens)
    (challenges : DAGTranscriptChallenges) : Prop where
  /-- The checks of the layers without rounds. -/
  noRounds : ∀ i lp ch rlcBeta, i < desc.numComputeLayers →
    decoded.gkrProof.layerProofs[i]? = some lp → challenges.layers[i]? = some ch →
    lp.sumcheckProof.messages.length = 0 →
    HybridVerifier.computeRlcBeta i desc challenges.allBindings challenges.outputChallenges ch.bindings
      ch.rlcCoeffs = .ok rlcBeta →
    LayerHolds desc gens i lp ch rlcBeta
  /-- The claims on every layer can be combined. -/
  claims : ∀ i output, i < desc.numComputeLayers →
    decoded.gkrProof.outputClaimCommitments[0]? = some output →
    ClaimsOnCurve decoded.gkrProof desc output i
  inputs : InputsFit desc decoded.dagInputProofs (List.range desc.numInputLayers) 0

section WholeProof

variable {decoded : DecodedProof} {desc : DAGCircuitDescription} {gens : PedersenGens} {s : Sponge}
  {challenges : DAGTranscriptChallenges} {outputs : DAGGroth16Outputs}

private theorem rlcCoeffs_replayLayers {proof : GKRProof} {is : List ℕ}
    {out : List LayerChallenges × Sponge} (h : replayLayers proof desc is s = .ok out) :
    ∀ ch ∈ out.1, ∀ c ∈ ch.rlcCoeffs, c < WORD := by
  induction is generalizing s out with
  | nil =>
    obtain rfl := pure_eq_ok.mp h
    simp
  | cons i is ih =>
    simp only [replayLayers, bind_eq_ok, pure_eq_ok] at h
    obtain ⟨lp, -, ⟨rest, s₁⟩, hrest, rfl⟩ := h
    rw [List.forall_mem_cons]
    refine ⟨fun c hc => ?_, ih hrest⟩
    exact lt_trans (mem_challenges_lt hc) FR_MOD_lt_word

theorem length_replayLayers {proof : GKRProof} {is : List ℕ} {out : List LayerChallenges × Sponge}
    (h : replayLayers proof desc is s = .ok out) : out.1.length = is.length := by
  induction is generalizing s out with
  | nil =>
    obtain rfl := pure_eq_ok.mp h
    rfl
  | cons i is ih =>
    simp only [replayLayers, bind_eq_ok, pure_eq_ok] at h
    obtain ⟨lp, -, ⟨rest, s₁⟩, hrest, rfl⟩ := h
    rw [List.length_cons, List.length_cons, ih hrest]

/-- What the layers of the hybrid check and their true values say of layer `i`. -/
private theorem layer_of_hybrid
    (htrue : (List.range desc.numComputeLayers).mapM (layerValues decoded.gkrProof desc challenges) =
      .ok (outputs.rlcBeta.zip outputs.zDotJStar))
    (hec : ∀ i < desc.numComputeLayers, ∃ lp ch beta zDot,
      decoded.gkrProof.layerProofs[i]? = some lp ∧ challenges.layers[i]? = some ch ∧
      outputs.rlcBeta[i]? = some beta ∧ outputs.zDotJStar[i]? = some zDot ∧
      verifyComputeLayerEC i lp ch beta zDot desc gens = .ok ())
    {i : ℕ} (hi : i < desc.numComputeLayers) :
    ∃ lp ch v, decoded.gkrProof.layerProofs[i]? = some lp ∧ challenges.layers[i]? = some ch ∧
      layerValues decoded.gkrProof desc challenges i = .ok v ∧
      verifyComputeLayerEC i lp ch v.1 v.2 desc gens = .ok () := by
  obtain ⟨lp, ch, beta, zDot, hlp, hch, hbeta, hdot, hcheck⟩ := hec i hi
  obtain ⟨hlen, hall⟩ := List.forall₂_iff_get.mp (mapM_eq_ok.mp htrue)
  have hzip : i < (outputs.rlcBeta.zip outputs.zDotJStar).length := by
    rw [← hlen, List.length_range]
    exact hi
  have hv := hall i (by rw [List.length_range]; exact hi) hzip
  simp only [List.get_eq_getElem, List.getElem_range, List.getElem_zip] at hv
  rw [List.length_zip, lt_min_iff] at hzip
  obtain rfl : outputs.rlcBeta[i] = beta :=
    Option.some.inj ((List.getElem?_eq_getElem hzip.1).symm.trans hbeta)
  obtain rfl : outputs.zDotJStar[i] = zDot :=
    Option.some.inj ((List.getElem?_eq_getElem hzip.2).symm.trans hdot)
  exact ⟨lp, ch, _, hlp, hch, hv, hcheck⟩

/-- The parts of a replay. -/
structure ReplayParts (decoded : DecodedProof) (desc : DAGCircuitDescription) (s : Sponge)
    (challenges : DAGTranscriptChallenges) (ctx : VerifyContext) (s₀ s₁ : Sponge) : Prop where
  start : outputPhase solBackend decoded.gkrProof s = .ok (ctx, s₀)
  noBindings : ctx.allBindings = []
  output : decoded.gkrProof.outputClaimCommitments[0]? = some ctx.outputEval
  outputChallenges : challenges.outputChallenges = ctx.outputChallenges
  layers : replayLayers decoded.gkrProof desc (List.range desc.numComputeLayers) s₀ =
    .ok (challenges.layers, s₁)
  allBindings : challenges.allBindings = challenges.layers.map (·.bindings)
  inputs : replayInputLayersFull desc challenges.allBindings decoded.dagInputProofs
    (List.range desc.numInputLayers) 0 s₁ = .ok challenges.inputGroups

theorem replayParts_of_replay (h : replayDAGTranscriptFull decoded.gkrProof desc
    decoded.dagInputProofs s = .ok challenges) :
    ∃ ctx s₀ s₁, ReplayParts decoded desc s challenges ctx s₀ s₁ := by
  simp only [replayDAGTranscriptFull, bind_eq_ok, pure_eq_ok] at h
  obtain ⟨⟨ctx, s₀⟩, hstart, ⟨layers, s₁⟩, hlayers, inputGroups, hgroups, rfl⟩ := h
  have hctx := hstart
  simp only [outputPhase, bind_eq_ok, getIdx_eq_ok, pure_eq_ok] at hctx
  obtain ⟨first, -, output, houtput, hout⟩ := hctx
  obtain ⟨rfl, -⟩ := Prod.mk.inj hout
  exact ⟨_, s₀, s₁, hstart, rfl, houtput, rfl, hlayers, rfl, hgroups⟩

/-- The two phases, after the replay of their transcript. -/
private theorem verifyPhases_eq_ok {ctx : VerifyContext} {s₀ s₁ : Sponge}
    (h : ReplayParts decoded desc s challenges ctx s₀ s₁) :
    (∃ run, verifyPhases decoded desc gens s = .ok run) ↔
      (∀ i ch, challenges.layers[i]? = some ch → ∃ lp run,
        decoded.gkrProof.layerProofs[i]? = some lp ∧
        LayerAccepted solBackend i decoded.gkrProof desc gens (ctxAfter ctx challenges.layers) lp ch
          run) ∧
      ∃ st, (List.range desc.numInputLayers).foldlM (verifyInputLayer solBackend decoded.gkrProof desc
        gens challenges.allBindings (inputData decoded)) ⟨0, 0, [], s₁⟩ = .ok st := by
  have hlayers := h.layers
  rw [List.range_eq_range'] at hlayers
  have hbindings : (ctxAfter ctx challenges.layers).allBindings = challenges.allBindings := by
    rw [ctxAfter, h.noBindings, List.nil_append, h.allBindings]
  have hiff := @processLayers_iff decoded.gkrProof desc gens desc.numComputeLayers 0 ctx
    (by rw [h.noBindings, List.length_nil]) s₀ s₁ challenges.layers hlayers
  simp only [Nat.zero_add] at hiff
  simp only [verifyPhases, verifyComputeLayers, h.start, ok_bind, bind_eq_ok, verifyInputLayers]
  rw [← hiff, ← List.range_eq_range']
  constructor
  · rintro ⟨run, ⟨runs, ctx', s'⟩, hruns, st, hst, -⟩
    obtain ⟨rfl, rfl⟩ := Prod.mk.inj (processLayers_end h.layers hruns)
    rw [hbindings] at hst
    exact ⟨⟨runs, hruns⟩, st, hst⟩
  · rintro ⟨⟨runs, hruns⟩, st, hst⟩
    refine ⟨(runs, ctxAfter ctx challenges.layers, st), (runs, _, s₁), hruns, st, ?_, rfl⟩
    rw [hbindings]
    exact hst

/-- Under the hybrid checks at the true values, the two phases accept exactly when the remaining
checks pass. -/
theorem verifyPhases_iff
    (hreplay : replayDAGTranscriptFull decoded.gkrProof desc decoded.dagInputProofs s =
      .ok challenges)
    (hoffsets : outputs.lTensorOffsets = offsetsFrom 0 (challenges.inputGroups.map lTensorSize))
    (htrue : TrueOutputs decoded desc challenges outputs)
    (hec : verifyDAGECChecks decoded.gkrProof challenges outputs gens desc (inputData decoded) =
      .ok ()) :
    (∃ run, verifyPhases decoded desc gens s = .ok run) ↔
      FullChecks decoded desc gens challenges := by
  obtain ⟨ctx, s₀, s₁, hparts⟩ := replayParts_of_replay hreplay
  simp only [verifyDAGECChecks, bind_eq_ok, forM_eq_ok, List.mem_range, getIdx_eq_ok] at hec
  obtain ⟨_, hlayersEC, _, hinputsEC, hpublicEC⟩ := hec
  obtain ⟨values, hvalues, hflat, hdot⟩ := htrue.groups
  have hbindings : (ctxAfter ctx challenges.layers).allBindings = challenges.allBindings := by
    rw [ctxAfter, hparts.noBindings, List.nil_append, hparts.allBindings]
  have hlen := length_replayLayers hparts.layers
  rw [List.length_range] at hlen
  have hread := valuesRead_of_sizes (sizes_inputValues hparts.inputs hvalues) hoffsets hflat hdot
  have hinputs := @inputLoop_iff decoded.gkrProof desc gens challenges.allBindings (inputData decoded)
    challenges outputs values hread (List.range desc.numInputLayers) ⟨0, 0, [], s₁⟩ 0
    challenges.inputGroups values hparts.inputs hvalues rfl rfl hinputsEC hpublicEC
  have hlayer : ∀ i < desc.numComputeLayers, ∃ lp ch v,
      decoded.gkrProof.layerProofs[i]? = some lp ∧ challenges.layers[i]? = some ch ∧
      layerValues decoded.gkrProof desc challenges i = .ok v ∧
      verifyComputeLayerEC i lp ch v.1 v.2 desc gens = .ok () := by
    intro i hi
    refine layer_of_hybrid htrue.layers ?_ hi
    intro j hj
    obtain ⟨lp, hlp, ch, hch, beta, hbeta, zDot, hzDot, hcheck⟩ := hlayersEC j hj
    exact ⟨lp, ch, beta, zDot, hlp, hch, hbeta, hzDot, hcheck⟩
  have hcoeffs : ∀ (i : ℕ) (ch : LayerChallenges), challenges.layers[i]? = some ch →
      ∀ c ∈ ch.rlcCoeffs, c < WORD :=
    fun i ch hch => rlcCoeffs_replayLayers hparts.layers ch (List.mem_of_getElem? hch)
  rw [verifyPhases_eq_ok hparts, hinputs]
  constructor
  · rintro ⟨haccepted, hfit⟩
    refine ⟨?_, ?_, hfit⟩
    · intro i lp ch rlcBeta hi hlp hch hzero hbeta
      obtain ⟨lp', run, hlp', hrun⟩ := haccepted i ch hch
      obtain rfl : lp = lp' := Option.some.inj (hlp.symm.trans hlp')
      obtain ⟨beta', hbeta', -, hholds⟩ := (layerAccepted_iff (hcoeffs i ch hch)).mp ⟨run, hrun⟩
      rw [hbindings] at hbeta'
      obtain rfl : rlcBeta = beta' := by
        rw [hparts.outputChallenges] at hbeta
        exact Except.ok.inj (hbeta.symm.trans hbeta')
      exact hholds
    · intro i output hi houtput
      obtain rfl : ctx.outputEval = output :=
        Option.some.inj (hparts.output.symm.trans houtput)
      obtain ⟨lp, ch, v, -, hch, -⟩ := hlayer i hi
      obtain ⟨lp', run, -, hrun⟩ := haccepted i ch hch
      obtain ⟨_, -, hclaims, -⟩ := (layerAccepted_iff (hcoeffs i ch hch)).mp ⟨run, hrun⟩
      exact hclaims
  · intro hfull
    refine ⟨fun i ch hch => ?_, hfull.inputs⟩
    have hi : i < desc.numComputeLayers := hlen ▸ (List.getElem?_eq_some_iff.mp hch).1
    obtain ⟨lp, ch', v, hlp, hch', hv, hcheck⟩ := hlayer i hi
    obtain rfl : ch = ch' := Option.some.inj (hch.symm.trans hch')
    have hbeta := ((layerValues_eq_ok hlp hch).mp hv).1
    have hholds : LayerHolds desc gens i lp ch v.1 := by
      by_cases hzero : lp.sumcheckProof.messages.length = 0
      · exact hfull.noRounds i lp ch v.1 hi hlp hch hzero hbeta
      · exact (verifyComputeLayerEC_iff hlp hch hv hzero).mp hcheck
    rw [hparts.outputChallenges, ← hbindings] at hbeta
    have hclaims : ClaimsOnCurve decoded.gkrProof desc (ctxAfter ctx challenges.layers).outputEval i :=
      hfull.claims i _ hi hparts.output
    obtain ⟨run, hrun⟩ := (layerAccepted_iff (hcoeffs i ch hch)).mpr ⟨v.1, hbeta, hclaims, hholds⟩
    exact ⟨lp, run, hlp, hrun⟩

end WholeProof

/-! ## The contract -/

/-- The on-chain part of `verifyDAGWithGroth16` accepts: the replay, the layout of the outputs and
the curve equations. -/
structure OnChainAccepted (c : Contract) (innerProof : List UInt8) (circuitHash : ℕ)
    (gensData : List UInt8) (groth16Outputs : List ℕ) (call : Groth16Call) (gens : PedersenGens) :
    Prop where
  replay : groth16Call c innerProof circuitHash gensData groth16Outputs = .ok call
  generators : decodePedersenGens (calldataReader gensData) = .ok gens
  equations : verifyDAGECChecks call.decoded.gkrProof call.statement.challenges
    call.statement.outputs gens call.config.description (inputData call.decoded) = .ok ()

/-- An accepted call of the contract is accepted on chain, whatever the Groth16 verifier is. -/
theorem onChainAccepted_of_verifyDAGWithGroth16 {c : Contract}
    {groth16Verifiers : ℕ → Option Groth16Verifier} {innerProof publicInputs gensData : List UInt8}
    {circuitHash : ℕ} {groth16Proof groth16Outputs : List ℕ}
    (h : verifyDAGWithGroth16 c groth16Verifiers innerProof circuitHash publicInputs gensData
      groth16Proof groth16Outputs = .ok ()) :
    ∃ call gens, OnChainAccepted c innerProof circuitHash gensData groth16Outputs call gens := by
  rw [verifyDAGWithGroth16_eq_groth16Call, bind_eq_ok] at h
  obtain ⟨call, hcall, h⟩ := h
  cases hverifier : groth16Verifiers circuitHash with
  | none =>
    rw [hverifier] at h
    cases h
  | some verifier =>
    simp only [hverifier, bind_eq_ok, liftDecode_eq_ok, liftVerifier_eq_ok] at h
    obtain ⟨_, -, gens, hgens, hec⟩ := h
    exact ⟨call, gens, hcall, hgens, hec⟩

/-- A proof that the hybrid path accepts at the true values of its transcript is accepted by
`verifyDAGProof` exactly when it passes the checks that the hybrid path leaves out. -/
theorem verifyDAGProof_iff_fullChecks {c : Contract} {innerProof publicInputs gensData : List UInt8}
    {circuitHash : ℕ} {groth16Outputs : List ℕ} {call : Groth16Call} {gens : PedersenGens}
    (h : OnChainAccepted c innerProof circuitHash gensData groth16Outputs call gens)
    (htrue : TrueOutputs call.decoded call.config.description call.statement.challenges
      call.statement.outputs) :
    verifyDAGProof c innerProof circuitHash publicInputs gensData = .ok true ↔
      FullChecks call.decoded call.config.description gens call.statement.challenges := by
  have hcall := h.replay
  simp only [groth16Call, bind_eq_ok, require_eq_ok, Bool.not_eq_true', liftDecode_eq_ok,
    liftVerifier_eq_ok, pure_eq_ok] at hcall
  obtain ⟨_, hpaused, config, hconfig, _, hformat, _, hgenerators, decoded, hdecoded, challenges,
    hreplay, outputs, hparse, points, -, hout⟩ := hcall
  have hoffsets : outputs.lTensorOffsets =
      offsetsFrom 0 (challenges.inputGroups.map lTensorSize) := by
    simp only [parseDAGGroth16Outputs, computeLTensorOffsets, bind_eq_ok, pure_eq_ok] at hparse
    obtain ⟨_, -, _, -, _, ⟨_, -, rfl⟩, rfl⟩ := hparse
    rfl
  have hgens := h.generators
  have hec := h.equations
  subst hout
  rw [← verifyPhases_iff hreplay hoffsets htrue hec, verifyDAGProof_eq_ok]
  constructor
  · rintro ⟨-, -, config', decoded', gens', run, hconfig', -, -, hdecoded', hgens', hrun⟩
    obtain rfl : config = config' := Except.ok.inj (hconfig.symm.trans hconfig')
    obtain rfl : decoded = decoded' := Except.ok.inj (hdecoded.symm.trans hdecoded')
    obtain rfl : gens = gens' := Except.ok.inj (hgens.symm.trans hgens')
    exact ⟨run, hrun⟩
  · rintro ⟨run, hrun⟩
    exact ⟨rfl, hpaused, config, decoded, gens, run, hconfig, hformat, hgenerators, hdecoded, hgens,
      hrun⟩

/-! ## A layer without rounds -/

def zeroRoundConfig : DAGCircuitConfig where
  circuitHash := 1
  description := ⟨1, 1, [0], [0], [0, 0], [], [], [0], [], [false], [0, 0], [], []⟩
  active := true
  gensHash := 0
  hash_ne_zero := Nat.one_ne_zero
  hash_lt := one_lt_word
  abi := by decide
  checked := by decide

/-- A proof at infinity but for the mask of the layer's dot-product proof. -/
def zeroRoundProof (commitD : G1Point) : DecodedProof :=
  ⟨⟨[G1Point.INFINITY], [⟨⟨G1Point.INFINITY, [], ⟨commitD, G1Point.INFINITY, [], 0, 0⟩⟩, [], []⟩]⟩,
    [], [], []⟩

def zeroRoundWords (commitD : G1Point) : List ℕ :=
  [0, 0, 1, 0, 0, 1, 0, 0, 0, commitD.x, commitD.y] ++ List.replicate 11 0

def zeroRoundBytes (commitD : G1Point) : List UInt8 :=
  SELECTOR ++ (zeroRoundWords commitD).flatMap wordToBeBytes

/-- The weight of the layer, which is its only coefficient, and no inner product. -/
def zeroRoundOutputs : List ℕ :=
  [10535821783150471694958551651121300806281931634571478037974904894810247398096, 0]

/-- The sponge after the set-up, which does not read the mask. -/
private theorem setup_zeroRound (commitD : G1Point) :
    setupDagTranscript 1 (zeroRoundProof commitD) = absorbPair solOps (absorbPair solOps
      (absorbPair solOps init (hashToFqPair (wordToBeBytes 1))) (sha256HashChain []))
      (sha256HashChain []) := setupTranscript_nil solOps (wordToBeBytes 1)

private theorem accepted_zeroRound {commitD : G1Point} {s : Sponge}
    (hsetup : setupDagTranscript 1 (zeroRoundProof commitD) = s)
    (hdecoded : decodeProofForDag (calldataReader ((zeroRoundBytes commitD).drop 4)) =
      .ok (zeroRoundProof commitD)) {challenges : DAGTranscriptChallenges}
    {outputs : DAGGroth16Outputs}
    (hreplay : replayDAGTranscriptFull (zeroRoundProof commitD).gkrProof zeroRoundConfig.description []
      s = .ok challenges)
    (hparse : parseDAGGroth16Outputs zeroRoundOutputs zeroRoundConfig.description challenges =
      .ok outputs)
    (hpoints : collectPubClaimPoints zeroRoundConfig.description challenges.allBindings = .ok [])
    (hec : verifyDAGECChecks (zeroRoundProof commitD).gkrProof challenges outputs noGens
      zeroRoundConfig.description (inputData (zeroRoundProof commitD)) = .ok ()) :
    OnChainAccepted (Contract.single zeroRoundConfig) (zeroRoundBytes commitD) 1 [] zeroRoundOutputs
      ⟨zeroRoundConfig, zeroRoundProof commitD, hashToFqPair (wordToBeBytes 1), challenges, [], [],
        outputs⟩ noGens := by
  have hcircuit : activeCircuit (Contract.single zeroRoundConfig) 1 = .ok zeroRoundConfig :=
    activeCircuit_single rfl
  have hformat : checkProofFormat (zeroRoundBytes commitD) = .ok () := checkProofFormat_selector _
  refine ⟨?_, rfl, hec⟩
  simp only [groth16Call, bind_eq_ok, require_eq_ok, Bool.not_eq_true', liftDecode_eq_ok,
    liftVerifier_eq_ok, pure_eq_ok]
  exact ⟨(), rfl, zeroRoundConfig, hcircuit, (), hformat, (), rfl, zeroRoundProof commitD, hdecoded,
    challenges, hsetup ▸ hreplay, outputs, hparse, [], hpoints, rfl⟩

/-- The replay, the curve equations and the true values, as one computation. -/
def zeroRoundCheck (commitD : G1Point) (s : Sponge) : Bool :=
  let proof := zeroRoundProof commitD
  let desc := zeroRoundConfig.description
  okAnd (replayDAGTranscriptFull proof.gkrProof desc [] s) fun challenges =>
    okAnd (collectPubClaimPoints desc challenges.allBindings) (·.isEmpty) &&
    okAnd (parseDAGGroth16Outputs zeroRoundOutputs desc challenges) fun outputs =>
      okAnd (verifyDAGECChecks proof.gkrProof challenges outputs noGens desc (inputData proof))
        (fun _ => true) &&
      okAnd ((List.range 1).mapM (layerValues proof.gkrProof desc challenges))
        (· == outputs.rlcBeta.zip outputs.zDotJStar) &&
      okAnd (inputValues desc challenges.allBindings [] (List.range 1) 0 challenges.inputGroups)
        (fun values => outputs.lTensorFlat == (values.map Prod.fst).flatten &&
          outputs.zDotR == values.map Prod.snd) &&
      okAnd (publicValues desc challenges.allBindings []) (·.isEmpty)

private theorem trueOutputs_zeroRound {commitD : G1Point}
    (hdecoded : decodeProofForDag (calldataReader ((zeroRoundBytes commitD).drop 4)) =
      .ok (zeroRoundProof commitD))
    (hcheck : zeroRoundCheck commitD (setupDagTranscript 1 (zeroRoundProof commitD)) = true) :
    ∃ call, OnChainAccepted (Contract.single zeroRoundConfig) (zeroRoundBytes commitD) 1 []
        zeroRoundOutputs call noGens ∧
      TrueOutputs call.decoded call.config.description call.statement.challenges
        call.statement.outputs := by
  simp only [zeroRoundCheck, Bool.and_eq_true, okAnd_eq_true, beq_iff_eq, List.isEmpty_iff] at hcheck
  obtain ⟨challenges, hreplay, ⟨_, hpoints, rfl⟩, outputs, hparse, ⟨⟨⟨_, hec, -⟩, _, hlayers, rfl⟩,
    values, hvalues, hflat, hdot⟩, _, hpublic, rfl⟩ := hcheck
  exact ⟨_, accepted_zeroRound rfl hdecoded hreplay hparse hpoints hec, hlayers,
    ⟨values, hvalues, hflat, hdot⟩, [], hpublic, List.nil_prefix⟩

/-- With a generator of the curve as the mask, the dot-product proof fails. -/
theorem verifyPhases_zeroRound_generator :
    okAnd (verifyPhases (zeroRoundProof ⟨1, 2⟩) zeroRoundConfig.description noGens
      (setupDagTranscript 1 (zeroRoundProof ⟨1, 2⟩))) (fun _ => true) = false := by
  rw [setup_zeroRound, sha256HashChain_nil]
  decide +kernel

/-- No call whose proof decodes so is accepted on the full path. -/
theorem verifyDAGProof_zeroRound_generator {proofBytes publicInputs : List UInt8}
    (hdecoded : decodeProofForDag (calldataReader (proofBytes.drop 4)) =
      .ok (zeroRoundProof ⟨1, 2⟩)) :
    verifyDAGProof (Contract.single zeroRoundConfig) proofBytes 1 publicInputs [] ≠ .ok true := by
  intro h
  obtain ⟨-, -, config, decoded, gens, run, hconfig, -, -, hdecoded', hgens, hrun⟩ :=
    verifyDAGProof_eq_ok.mp h
  obtain rfl : zeroRoundConfig = config :=
    Except.ok.inj ((activeCircuit_single rfl).symm.trans hconfig)
  obtain rfl := Except.ok.inj (hdecoded.symm.trans hdecoded')
  obtain rfl : noGens = gens := Except.ok.inj hgens
  have haccept := (okAnd_eq_true (p := fun _ => true)).mpr ⟨run, hrun, rfl⟩
  rw [verifyPhases_zeroRound_generator] at haccept
  cases haccept

/-- With a generator of the curve as the mask, the curve equations are skipped on the hybrid path
and fail on the full one. -/
theorem zeroRound_hybrid_only :
    ∃ call gens, OnChainAccepted (Contract.single zeroRoundConfig) (zeroRoundBytes ⟨1, 2⟩) 1 []
        zeroRoundOutputs call gens ∧
      TrueOutputs call.decoded call.config.description call.statement.challenges
        call.statement.outputs ∧
      verifyDAGProof (Contract.single zeroRoundConfig) (zeroRoundBytes ⟨1, 2⟩) 1 [] [] ≠
        .ok true := by
  have hdecoded : decodeProofForDag (calldataReader ((zeroRoundBytes ⟨1, 2⟩).drop 4)) =
      .ok (zeroRoundProof ⟨1, 2⟩) := by
    have hdrop : (zeroRoundBytes ⟨1, 2⟩).drop 4 =
      (zeroRoundWords ⟨1, 2⟩).flatMap wordToBeBytes := rfl
    rw [hdrop, calldataReader_flatMap_wordToBeBytes (by decide)]
    decide
  have hcheck : zeroRoundCheck ⟨1, 2⟩ (setupDagTranscript 1 (zeroRoundProof ⟨1, 2⟩)) = true := by
    rw [setup_zeroRound, sha256HashChain_nil]
    decide +kernel
  obtain ⟨call, haccepted, htrue⟩ := trueOutputs_zeroRound hdecoded hcheck
  exact ⟨call, noGens, haccepted, htrue, verifyDAGProof_zeroRound_generator hdecoded⟩

/-- With the mask at infinity, the layer passes the checks that the hybrid path leaves out. -/
theorem zeroRound_fullChecks :
    ∃ call, OnChainAccepted (Contract.single zeroRoundConfig) (zeroRoundBytes G1Point.INFINITY) 1 []
        zeroRoundOutputs call noGens ∧
      FullChecks call.decoded call.config.description noGens call.statement.challenges := by
  have hdecoded : decodeProofForDag (calldataReader ((zeroRoundBytes G1Point.INFINITY).drop 4)) =
      .ok (zeroRoundProof G1Point.INFINITY) := by
    have hdrop : (zeroRoundBytes G1Point.INFINITY).drop 4 =
      (zeroRoundWords G1Point.INFINITY).flatMap wordToBeBytes := rfl
    rw [hdrop, calldataReader_flatMap_wordToBeBytes (by decide)]
    decide
  have hcheck : zeroRoundCheck G1Point.INFINITY
      (setupDagTranscript 1 (zeroRoundProof G1Point.INFINITY)) = true := by
    rw [setup_zeroRound, sha256HashChain_nil]
    decide +kernel
  have haccept : okAnd (verifyPhases (zeroRoundProof G1Point.INFINITY) zeroRoundConfig.description
      noGens (setupDagTranscript 1 (zeroRoundProof G1Point.INFINITY))) (fun _ => true) = true := by
    rw [setup_zeroRound, sha256HashChain_nil]
    decide +kernel
  obtain ⟨run, hrun, -⟩ := okAnd_eq_true.mp haccept
  have hverify : verifyDAGProof (Contract.single zeroRoundConfig) (zeroRoundBytes G1Point.INFINITY) 1 []
      [] = .ok true :=
    verifyDAGProof_eq_ok.mpr ⟨rfl, rfl, zeroRoundConfig, zeroRoundProof G1Point.INFINITY, noGens, run,
      activeCircuit_single rfl, checkProofFormat_selector _, rfl, hdecoded, rfl, hrun⟩
  obtain ⟨call, haccepted, htrue⟩ := trueOutputs_zeroRound hdecoded hcheck
  exact ⟨call, haccepted, (verifyDAGProof_iff_fullChecks haccepted htrue).mp hverify⟩

end WorldZk.HybridSoundness
