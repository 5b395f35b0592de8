import WorldZk.LayeredBinding
import WorldZk.LayeredHybrid

/-!
# The layered checks at replayed challenges

The layers of a proof draw the same challenges in `GKRVerifier` and in the replay of its hybrid, from
the same sponge. A layer with at most one product proof, and a committed input, pass in the one
exactly when the curve equations of the other accept them at their true values.
-/

namespace WorldZk.LayeredReplay

open CheckedRuns PoseidonSponge ProofTypes VerifierBackend CommittedSumcheck InputLayers
open Bn254Moduli NativeCurve Transcript ProofDecoding SolidityVerifier LayeredVerifier
open LayeredHybrid hiding LayerChallenges
open HybridVerifier hiding publicInputs replayLayers
open DagLayers hiding LayerRun computeOracleEval

/-! ## The replayed challenges of the layers -/

/-- What the replay keeps of a layer's challenges. -/
def hybridLayer (ch : LayerChallenges) : LayeredHybrid.LayerChallenges :=
  ⟨ch.bindings, ch.rhos, ch.gammas, ch.podpChallenge, ch.popChallenges.getLast?.getD 0⟩

/-- The coefficient drawn before a layer. -/
def coeffOf (ch : LayerChallenges) : ℕ := ch.rlcCoeffs.headD 0

private theorem foldl_absorbPop (pops : List ProofOfProduct) (c : ℕ) (s : Sponge) :
    pops.foldl (fun st pop => absorbPop solBackend pop st.2) (c, s) =
      ((popTranscript solBackend pops s).1.getLast?.getD c, (popTranscript solBackend pops s).2) := by
  induction pops generalizing c s with
  | nil => rfl
  | cons pop pops ih =>
    rw [List.foldl_cons, popTranscript, ih]
    simp only
    rw [List.getLast?_cons, Option.getD_some]

theorem replayLayer_eq (coeff : ℕ) (lp : CommittedLayerProof) (s : Sponge) :
    replayLayer lp s = (hybridLayer (chainedTranscript coeff lp s), (layerTranscript lp s).sponge) := by
  simp only [replayLayer, replayPops, foldl_absorbPop]
  rfl

theorem length_popTranscript (pops : List ProofOfProduct) (s : Sponge) :
    (popTranscript solBackend pops s).1.length = pops.length := by
  induction pops generalizing s with
  | nil => rfl
  | cons pop pops ih => simp [popTranscript, ih]

/-- What the transcripts of the layers are, layer by layer. -/
structure ChainDrawn (proof : GKRProof) (k : ℕ) (coeff : ℕ) (chs : List LayerChallenges) : Prop where
  coeff_eq : ∀ ch, chs.head? = some ch → coeffOf ch = coeff
  pops : ∀ j ch lp, chs[j]? = some ch → proof.layerProofs[k + j]? = some lp →
    ch.popChallenges.length = lp.pops.length

/-- The replay of the layers draws what the layered verifier draws, from the same sponge. -/
theorem replayLayers_eq {proof : GKRProof} {lps : List CommittedLayerProof} {k : ℕ}
    (hdrop : proof.layerProofs.drop k = lps) (coeff : ℕ) (s : Sponge) :
    ∃ chs s', chainTranscripts proof (List.range' k lps.length) coeff s = .ok (chs, s') ∧
      replayLayers lps s = (chs.map hybridLayer, (chs.map coeffOf).tail, s') ∧
      chs.length = lps.length ∧ ChainDrawn proof k coeff chs := by
  induction lps generalizing k coeff s with
  | nil => exact ⟨[], s, rfl, rfl, rfl, by simp, by simp⟩
  | cons lp lps ih =>
    have hlp : proof.layerProofs[k]? = some lp := by
      rw [← List.head?_drop, hdrop, List.head?_cons]
    have hrest : proof.layerProofs.drop (k + 1) = lps := by
      rw [← List.tail_drop, hdrop, List.tail_cons]
    have hpops : (chainedTranscript coeff lp s).popChallenges.length = lp.pops.length :=
      length_popTranscript _ _
    cases lps with
    | nil =>
      refine ⟨[chainedTranscript coeff lp s], (layerTranscript lp s).sponge,
        chainTranscripts_singleton.mpr ⟨lp, hlp, rfl⟩, ?_, rfl, ?_, ?_⟩
      · simp only [replayLayers, List.isEmpty_nil, ↓reduceIte, replayLayer_eq coeff]
        rfl
      · rintro ch ⟨⟩
        rfl
      · intro j ch lp' hch hlp'
        cases j with
        | succ j => simp at hch
        | zero =>
          obtain rfl : chainedTranscript coeff lp s = ch := Option.some.inj hch
          obtain rfl : lp = lp' := Option.some.inj (hlp.symm.trans hlp')
          exact hpops
    | cons next lps =>
      obtain ⟨chs, s', hchs, hreplay, hlen, hdrawn⟩ :=
        ih hrest (challenge solBackend (layerTranscript lp s).sponge).1
          (challenge solBackend (layerTranscript lp s).sponge).2
      refine ⟨chainedTranscript coeff lp s :: chs, s', ?_, ?_, by simp [hlen], ?_, ?_⟩
      · rw [List.length_cons, List.length_cons, List.range'_succ, List.range'_succ]
        rw [List.length_cons, List.range'_succ] at hchs
        exact chainTranscripts_cons_cons.mpr ⟨lp, chs, hlp, hchs, rfl⟩
      · have hcoeffs : (chs.map coeffOf) =
            (challenge solBackend (layerTranscript lp s).sponge).1 :: (chs.map coeffOf).tail := by
          cases chs with
          | nil => simp at hlen
          | cons ch chs => rw [List.map_cons, hdrawn.coeff_eq ch rfl, List.tail_cons]
        rw [replayLayers]
        simp only [List.isEmpty_cons, Bool.false_eq_true, ↓reduceIte, replayLayer_eq coeff, hreplay,
          List.map_cons, List.tail_cons]
        rw [← hcoeffs]
      · rintro ch ⟨⟩
        rfl
      · intro j ch lp' hch hlp'
        cases j with
        | zero =>
          obtain rfl : chainedTranscript coeff lp s = ch := Option.some.inj hch
          obtain rfl : lp = lp' := Option.some.inj (hlp.symm.trans hlp')
          exact hpops
        | succ j =>
          refine hdrawn.pops j ch lp' hch ?_
          rw [Nat.add_assoc, Nat.add_comm 1 j]
          exact hlp'

/-! ## One layer -/

/-- The checks of a layer hold at its challenges. -/
def LayerPasses (gens : PedersenGens) (lp : CommittedLayerProof) (layerType : ℕ)
    (claimPoint : List ℕ) (ch : LayerChallenges) : Prop :=
  ∃ rlcBeta oracleEval, computeRlcBeta ch.bindings claimPoint (coeffOf ch) = .ok rlcBeta ∧
    computeOracleEval lp.commitments layerType rlcBeta = .ok oracleEval ∧
    sumcheckHolds solBackend lp.sumcheckProof.sum lp.sumcheckProof oracleEval
      (layerDegree layerType) ch gens = .ok true ∧
    productsHold solBackend lp.commitments gens 0 lp.pops ch.popChallenges = .ok true

private theorem head_of_computeOracleEval {commitments : List G1Point} {layerType rlcBeta : ℕ}
    {p : G1Point} (h : computeOracleEval commitments layerType rlcBeta = .ok p) :
    ∃ first, commitments[0]? = some first := by
  cases commitments with
  | nil => cases h
  | cons first rest => exact ⟨first, rfl⟩

/-- A layer that passes is accepted, whatever claim it is given. -/
private theorem verifyOneLayer_of_passes {gens : PedersenGens} {lp : CommittedLayerProof}
    {layerType : ℕ} {claimPoint : List ℕ} {randomCoeff : ℕ} {s : Sponge} (claim : G1Point)
    (h : LayerPasses gens lp layerType claimPoint (chainedTranscript randomCoeff lp s)) :
    ∃ run, verifyOneLayer gens lp layerType claim claimPoint randomCoeff s =
      .ok (run, (layerTranscript lp s).sponge) := by
  obtain ⟨rlcBeta, oracleEval, hbeta, horacle, hsum, hprod⟩ := h
  obtain ⟨first, hfirst⟩ := head_of_computeOracleEval horacle
  refine ⟨⟨claim, claimPoint, randomCoeff, (layerTranscript lp s).bindings, rlcBeta, oracleEval,
    first⟩, verifyOneLayer_eq_ok.mpr ⟨?_, rfl⟩⟩
  exact ⟨rfl, rfl, rfl, rfl, hbeta, horacle, hsum, hprod, hfirst⟩

private theorem passes_of_verifyOneLayer {gens : PedersenGens} {lp : CommittedLayerProof}
    {layerType : ℕ} {claim : G1Point} {claimPoint : List ℕ} {randomCoeff : ℕ} {s : Sponge}
    {out : LayerRun × Sponge}
    (h : verifyOneLayer gens lp layerType claim claimPoint randomCoeff s = .ok out) :
    LayerPasses gens lp layerType claimPoint (chainedTranscript randomCoeff lp s) := by
  have hchecked := (verifyOneLayer_eq_ok.mp h).1
  exact ⟨out.1.rlcBeta, out.1.oracleEval, hchecked.beta, hchecked.oracle, hchecked.sumcheck,
    hchecked.products⟩

/-- Pairing the product proofs of a layer with the stored challenge, or with their own challenges,
is the same for at most one of them. -/
private theorem zip_popChallenges {pops : List ProofOfProduct} {cs : List ℕ}
    (hlen : cs.length = pops.length) (hone : pops.length ≤ 1) :
    pops.zip cs = pops.map fun pop => (pop, cs.getLast?.getD 0) := by
  match pops, cs, hlen, hone with
  | [], _, _, _ => rfl
  | [pop], [c], _, _ => rfl

/-- A layer with at most one product proof passes exactly when the hybrid check of the layer accepts
it at its true values. -/
theorem layerPasses_iff {gens : PedersenGens} {lp : CommittedLayerProof} {layerType : ℕ}
    {claimPoint : List ℕ} {ch : LayerChallenges} (hlen : ch.popChallenges.length = lp.pops.length)
    (hone : lp.pops.length ≤ 1) :
    LayerPasses gens lp layerType claimPoint ch ↔
      ∃ v, layerValue lp layerType (hybridLayer ch) claimPoint (coeffOf ch) = .ok v ∧
        verifyLayerEC lp (hybridLayer ch) v.1 v.2 layerType gens = .ok () := by
  have hpops : (lp.pops.map fun pop => (pop, (hybridLayer ch).popChallenge)) =
      lp.pops.zip ch.popChallenges := (zip_popChallenges hlen hone).symm
  simp only [LayerPasses, layerValue, verifyLayerEC, verifyLayerPODP, sumcheckHolds, bind_eq_ok,
    pure_eq_ok, require_eq_ok, productsHold_true_iff, hpops, verifyLayerPODPChecks,
    verifyPodp_true_iff_podpChecks .podpEq1Failed .podpEq2Failed]
  constructor
  · rintro ⟨rlcBeta, oracleEval, hbeta, horacle, ⟨alpha, halpha, jStar, hj, rho0, h0, rhoN, hN, dot,
      hdot, zDot, hz, hpodp⟩, hprod⟩
    exact ⟨(rlcBeta, zDot), ⟨rlcBeta, hbeta, jStar, hj, zDot, hz, rfl⟩, (), ⟨alpha, halpha, oracleEval,
      horacle, rho0, h0, rhoN, hN, dot, hdot, hpodp⟩, true, hprod, rfl⟩
  · rintro ⟨_, ⟨rlcBeta, hbeta, jStar, hj, zDot, hz, rfl⟩, _, ⟨alpha, halpha, oracleEval, horacle, rho0,
      h0, rhoN, hN, dot, hdot, hpodp⟩, valid, hprod, rfl⟩
    exact ⟨rlcBeta, oracleEval, hbeta, horacle, ⟨alpha, halpha, jStar, hj, rho0, h0, rhoN, hN, dot,
      hdot, zDot, hz, hpodp⟩, hprod⟩

/-! ## The layer loop -/

/-- Every layer passes, with the bindings of the layer above as its claim point. -/
def ChainPasses (gens : PedersenGens) (proof : GKRProof) (circuit : CircuitDescription) :
    ℕ → List ℕ → List LayerChallenges → Prop
  | _, _, [] => True
  | k, claimPoint, ch :: chs =>
    (∃ lp layerType, proof.layerProofs[k]? = some lp ∧
      circuit.layerTypes[circuit.numLayers - 1 - k]? = some layerType ∧
      LayerPasses gens lp layerType claimPoint ch) ∧
    ChainPasses gens proof circuit (k + 1) ch.bindings chs

/-- What the runs of an accepted loop have in common with the transcripts. -/
structure RunsDrawn (proof : GKRProof) (k n : ℕ) (chs : List LayerChallenges)
    (runs : List LayerRun) : Prop where
  length : runs.length = n
  bindings : runs.map (·.bindings) = chs.map (·.bindings)
  coeffs : runs.map (·.randomCoeff) = chs.map coeffOf
  last : ∀ run, runs.getLast? = some run → ∃ lp, proof.layerProofs[k + n - 1]? = some lp ∧
    lp.commitments[0]? = some run.nextClaim

/-- An accepted loop draws its transcripts, and every layer passes at them. -/
theorem passes_of_layerLoop {gens : PedersenGens} {proof : GKRProof} {circuit : CircuitDescription}
    {n k : ℕ} {claim : G1Point} {claimPoint : List ℕ} {randomCoeff : ℕ} {s s' : Sponge}
    {runs : List LayerRun}
    (h : layerLoop (verifyOneLayer gens) proof circuit (List.range' k n) claim claimPoint randomCoeff
      s = .ok (runs, s')) :
    ∃ chs, chainTranscripts proof (List.range' k n) randomCoeff s = .ok (chs, s') ∧
      ChainPasses gens proof circuit k claimPoint chs ∧ RunsDrawn proof k n chs runs := by
  induction n generalizing k claim claimPoint randomCoeff s runs with
  | zero =>
    obtain ⟨rfl, rfl⟩ := Prod.mk.inj (layerLoop_nil.mp h)
    exact ⟨[], rfl, trivial, rfl, rfl, rfl, by simp⟩
  | succ n ih =>
    rw [List.range'_succ] at h ⊢
    cases n with
    | zero =>
      obtain ⟨lp, layerType, run, s₁, hlp, htype, hrun, hout⟩ := layerLoop_singleton.mp h
      obtain ⟨rfl, rfl⟩ := Prod.mk.inj hout
      obtain ⟨hchecked, rfl⟩ := verifyOneLayer_eq_ok.mp hrun
      refine ⟨_, chainTranscripts_singleton.mpr ⟨lp, hlp, rfl⟩,
        ⟨⟨lp, layerType, hlp, htype, passes_of_verifyOneLayer hrun⟩, trivial⟩, rfl, ?_, ?_, ?_⟩
      · rw [List.map_singleton, hchecked.bindings_eq]
        rfl
      · rw [List.map_singleton, hchecked.randomCoeff_eq]
        rfl
      · intro run' hlast
        obtain rfl : run = run' := Option.some.inj hlast
        exact ⟨lp, hlp, hchecked.next⟩
    | succ n =>
      rw [List.range'_succ] at h ⊢
      obtain ⟨lp, layerType, run, s₁, rest, hlp, htype, hrun, hrest, hout⟩ :=
        layerLoop_cons_cons.mp h
      simp only at hout
      subst hout
      obtain ⟨hchecked, rfl⟩ := verifyOneLayer_eq_ok.mp hrun
      rw [← List.range'_succ, hchecked.bindings_eq] at hrest
      obtain ⟨chs, hchs, hpasses, hdrawn⟩ := ih hrest
      rw [List.range'_succ] at hchs
      refine ⟨_, chainTranscripts_cons_cons.mpr ⟨lp, chs, hlp, hchs, rfl⟩,
        ⟨⟨lp, layerType, hlp, htype, passes_of_verifyOneLayer hrun⟩, hpasses⟩, ?_, ?_, ?_, ?_⟩
      · rw [List.length_cons, hdrawn.length]
      · rw [List.map_cons, List.map_cons, hdrawn.bindings, hchecked.bindings_eq]
        rfl
      · rw [List.map_cons, List.map_cons, hdrawn.coeffs, hchecked.randomCoeff_eq]
        rfl
      · intro run' hlast
        have hne : rest ≠ [] := List.ne_nil_of_length_eq_add_one hdrawn.length
        rw [List.getLast?_cons_of_ne_nil hne] at hlast
        obtain ⟨lp', hlp', hcom⟩ := hdrawn.last run' hlast
        refine ⟨lp', ?_, hcom⟩
        rw [← hlp']
        congr 1
        omega

/-- A loop whose layers all pass at its transcripts is accepted. -/
theorem layerLoop_of_passes {gens : PedersenGens} {proof : GKRProof} {circuit : CircuitDescription}
    {n k : ℕ} (claim : G1Point) {claimPoint : List ℕ} {randomCoeff : ℕ} {s s' : Sponge}
    {chs : List LayerChallenges}
    (hchs : chainTranscripts proof (List.range' k n) randomCoeff s = .ok (chs, s'))
    (h : ChainPasses gens proof circuit k claimPoint chs) :
    ∃ runs, layerLoop (verifyOneLayer gens) proof circuit (List.range' k n) claim claimPoint
      randomCoeff s = .ok (runs, s') := by
  induction n generalizing k claim claimPoint randomCoeff s chs with
  | zero =>
    obtain ⟨-, rfl⟩ := Prod.mk.inj (pure_eq_ok.mp hchs)
    exact ⟨[], rfl⟩
  | succ n ih =>
    rw [List.range'_succ] at hchs ⊢
    cases n with
    | zero =>
      obtain ⟨lp, hlp, hout⟩ := chainTranscripts_singleton.mp hchs
      obtain ⟨rfl, rfl⟩ := Prod.mk.inj hout
      obtain ⟨⟨lp', layerType, hlp', htype, hpasses⟩, -⟩ := h
      obtain rfl : lp = lp' := Option.some.inj (hlp.symm.trans hlp')
      obtain ⟨run, hrun⟩ := verifyOneLayer_of_passes claim hpasses
      exact ⟨[run], layerLoop_singleton.mpr ⟨lp, layerType, run, _, hlp, htype, hrun, rfl⟩⟩
    | succ n =>
      rw [List.range'_succ] at hchs ⊢
      obtain ⟨lp, rest, hlp, hrest, hout⟩ := chainTranscripts_cons_cons.mp hchs
      simp only at hout
      subst hout
      obtain ⟨⟨lp', layerType, hlp', htype, hpasses⟩, hchain⟩ := h
      obtain rfl : lp = lp' := Option.some.inj (hlp.symm.trans hlp')
      obtain ⟨run, hrun⟩ := verifyOneLayer_of_passes claim hpasses
      have hbind : run.bindings = (chainedTranscript randomCoeff lp s).bindings :=
        (verifyOneLayer_eq_ok.mp hrun).1.bindings_eq
      rw [← hbind] at hchain
      obtain ⟨runs, hruns⟩ := ih run.nextClaim hrest hchain
      exact ⟨run :: runs, layerLoop_cons_cons.mpr
        ⟨lp, layerType, run, _, runs, hlp, htype, hrun, hruns, rfl⟩⟩

/-- Layer by layer, a chain passes when each layer passes at its claim point. -/
theorem chainPasses_iff {gens : PedersenGens} {proof : GKRProof} {circuit : CircuitDescription}
    {k : ℕ} {claimPoint : List ℕ} {chs : List LayerChallenges} :
    ChainPasses gens proof circuit k claimPoint chs ↔
      ∀ j ch, chs[j]? = some ch → ∃ lp layerType point,
        proof.layerProofs[k + j]? = some lp ∧
        circuit.layerTypes[circuit.numLayers - 1 - (k + j)]? = some layerType ∧
        (claimPoint :: chs.map (·.bindings))[j]? = some point ∧
        LayerPasses gens lp layerType point ch := by
  induction chs generalizing k claimPoint with
  | nil => simp [ChainPasses]
  | cons ch chs ih =>
    rw [ChainPasses, ih]
    constructor
    · rintro ⟨⟨lp, layerType, hlp, htype, hpasses⟩, hrest⟩ j ch' hch'
      cases j with
      | zero =>
        obtain rfl : ch = ch' := Option.some.inj hch'
        exact ⟨lp, layerType, claimPoint, hlp, htype, rfl, hpasses⟩
      | succ j =>
        have hj : k + (j + 1) = k + 1 + j := by omega
        rw [hj]
        exact hrest j ch' hch'
    · intro h
      constructor
      · obtain ⟨lp, layerType, point, hlp, htype, hpoint, hpasses⟩ := h 0 ch rfl
        obtain rfl : claimPoint = point := Option.some.inj hpoint
        exact ⟨lp, layerType, hlp, htype, hpasses⟩
      · intro j ch' hch'
        have hj : k + (j + 1) = k + 1 + j := by omega
        have hnext := h (j + 1) ch' hch'
        rw [hj] at hnext
        exact hnext

/-! ## The layers of the hybrid check -/

/-- The replayed challenges of the layers are those of the transcripts `chs`. -/
structure LayersReplayed (proof : GKRProof) (challenges : TranscriptChallenges)
    (chs : List LayerChallenges) : Prop where
  layers : challenges.layers = chs.map hybridLayer
  coeffs : challenges.claimAggCoeff :: challenges.interLayerCoeffs = chs.map coeffOf
  length : chs.length = proof.layerProofs.length
  pops : ∀ (j : ℕ) (ch : LayerChallenges) (lp : CommittedLayerProof), chs[j]? = some ch →
    proof.layerProofs[j]? = some lp → ch.popChallenges.length = lp.pops.length

private theorem map_bindings_hybridLayer (chs : List LayerChallenges) :
    (chs.map hybridLayer).map (·.bindings) = chs.map (·.bindings) := by
  rw [List.map_map]
  rfl

private theorem layerTypeAt_eq_ok {circuit : CircuitDescription} {i layerType : ℕ} :
    layerTypeAt circuit i = .ok layerType ↔ i < circuit.numLayers ∧
      circuit.layerTypes[circuit.numLayers - 1 - i]? = some layerType := by
  simp only [layerTypeAt, bind_eq_ok, require_eq_ok, decide_eq_true_eq, getIdx_eq_ok]
  constructor
  · rintro ⟨_, hi, htype⟩
    exact ⟨hi, htype⟩
  · rintro ⟨hi, htype⟩
    exact ⟨(), hi, htype⟩

section Layers

variable {gens : PedersenGens} {proof : GKRProof} {circuit : CircuitDescription}
  {challenges : TranscriptChallenges} {chs : List LayerChallenges}

private theorem layerValues_eq_ok (h : LayersReplayed proof challenges chs) {i : ℕ}
    {ch : LayerChallenges} (hch : chs[i]? = some ch) {v : ℕ × ℕ} :
    layerValues proof circuit challenges i = .ok v ↔ ∃ lp layerType point,
      proof.layerProofs[i]? = some lp ∧ layerTypeAt circuit i = .ok layerType ∧
      (challenges.outputChallenges :: chs.map (·.bindings))[i]? = some point ∧
      layerValue lp layerType (hybridLayer ch) point (coeffOf ch) = .ok v := by
  have hlayer : challenges.layers[i]? = some (hybridLayer ch) := by
    rw [h.layers, List.getElem?_map, hch, Option.map_some]
  have hcoeff : (challenges.claimAggCoeff :: challenges.interLayerCoeffs)[i]? =
      some (coeffOf ch) := by
    rw [h.coeffs, List.getElem?_map, hch, Option.map_some]
  have hpoints : challenges.layers.map (·.bindings) = chs.map (·.bindings) := by
    rw [h.layers, map_bindings_hybridLayer]
  simp only [LayeredHybrid.layerValues, bind_eq_ok, getIdx_eq_ok, hlayer, hcoeff, hpoints,
    Option.some.injEq, exists_eq_left']
  constructor
  · rintro ⟨lp, hlp, layerType, htype, point, hpoint, hv⟩
    exact ⟨lp, layerType, point, hlp, htype, hpoint, hv⟩
  · rintro ⟨lp, layerType, point, hlp, htype, hpoint, hv⟩
    exact ⟨lp, hlp, layerType, htype, point, hpoint, hv⟩

/-- One layer of the hybrid check at the true values of the layer. -/
private theorem layerEC_iff (h : LayersReplayed proof challenges chs)
    (hone : ∀ lp ∈ proof.layerProofs, lp.pops.length ≤ 1) {i : ℕ} {ch : LayerChallenges}
    (hch : chs[i]? = some ch) {v : ℕ × ℕ} (hv : layerValues proof circuit challenges i = .ok v) :
    (∃ lp layerType, proof.layerProofs[i]? = some lp ∧ layerTypeAt circuit i = .ok layerType ∧
        verifyLayerEC lp (hybridLayer ch) v.1 v.2 layerType gens = .ok ()) ↔
      ∃ lp layerType point, proof.layerProofs[i]? = some lp ∧
        layerTypeAt circuit i = .ok layerType ∧
        (challenges.outputChallenges :: chs.map (·.bindings))[i]? = some point ∧
        LayerPasses gens lp layerType point ch := by
  obtain ⟨lp, layerType, point, hlp, htype, hpoint, hvalue⟩ := (layerValues_eq_ok h hch).mp hv
  have hpasses := @layerPasses_iff gens lp layerType point ch (h.pops i ch lp hch hlp)
    (hone lp (List.mem_of_getElem? hlp))
  constructor
  · rintro ⟨lp', layerType', hlp', htype', hec⟩
    obtain rfl : lp = lp' := Option.some.inj (hlp.symm.trans hlp')
    obtain rfl : layerType = layerType' := Except.ok.inj (htype.symm.trans htype')
    exact ⟨lp, layerType, point, hlp, htype, hpoint, hpasses.mpr ⟨v, hvalue, hec⟩⟩
  · rintro ⟨lp', layerType', point', hlp', htype', hpoint', hpass⟩
    obtain rfl : lp = lp' := Option.some.inj (hlp.symm.trans hlp')
    obtain rfl : layerType = layerType' := Except.ok.inj (htype.symm.trans htype')
    obtain rfl : point = point' := Option.some.inj (hpoint.symm.trans hpoint')
    obtain ⟨v', hvalue', hec⟩ := hpasses.mp hpass
    obtain rfl : v = v' := Except.ok.inj (hvalue.symm.trans hvalue')
    exact ⟨lp, layerType, hlp, htype, hec⟩

/-- At the true values, the layers of the hybrid check accept exactly when the chain passes. -/
theorem verifyLayersEC_iff (h : LayersReplayed proof challenges chs)
    (hlen : proof.layerProofs.length = circuit.numLayers - 1) (hnum : circuit.numLayers ≠ 0)
    (hone : ∀ lp ∈ proof.layerProofs, lp.pops.length ≤ 1) {outputs : Groth16Outputs}
    (htrue : (List.range proof.layerProofs.length).mapM (layerValues proof circuit challenges) =
      .ok (outputs.rlcBeta.zip outputs.zDotJStar)) :
    verifyLayersEC proof challenges outputs gens circuit = .ok () ↔
      ChainPasses gens proof circuit 0 challenges.outputChallenges chs := by
  have hvalues := List.forall₂_iff_get.mp (mapM_eq_ok.mp htrue)
  have hat : ∀ i ch, chs[i]? = some ch → ∃ v, layerValues proof circuit challenges i = .ok v ∧
      outputs.rlcBeta[i]? = some v.1 ∧ outputs.zDotJStar[i]? = some v.2 := by
    intro i ch hch
    have hi : i < proof.layerProofs.length := h.length ▸ (List.getElem?_eq_some_iff.mp hch).1
    have hzip : i < (outputs.rlcBeta.zip outputs.zDotJStar).length := by
      rw [← hvalues.1, List.length_range]
      exact hi
    have hv := hvalues.2 i (by rw [List.length_range]; exact hi) hzip
    simp only [List.get_eq_getElem, List.getElem_range, List.getElem_zip] at hv
    rw [List.length_zip, lt_min_iff] at hzip
    exact ⟨_, hv, List.getElem?_eq_getElem hzip.1, List.getElem?_eq_getElem hzip.2⟩
  rw [verifyLayersEC, forM_eq_ok, chainPasses_iff]
  simp only [List.mem_range, Nat.zero_add, bind_eq_ok, getIdx_eq_ok]
  constructor
  · intro hec i ch hch
    obtain ⟨v, hv, hbeta, hdot⟩ := hat i ch hch
    have hi : i < proof.layerProofs.length := h.length ▸ (List.getElem?_eq_some_iff.mp hch).1
    obtain ⟨layerType, htype, lp, hlp, hc, hhc, a, ha, b, hb, hcheck⟩ := hec i hi
    obtain rfl : hybridLayer ch = hc := by
      rw [h.layers, List.getElem?_map, hch, Option.map_some] at hhc
      exact Option.some.inj hhc
    obtain rfl : v.1 = a := Option.some.inj (hbeta.symm.trans ha)
    obtain rfl : v.2 = b := Option.some.inj (hdot.symm.trans hb)
    obtain ⟨lp', layerType', point, hlp', htype', hpoint, hpass⟩ :=
      (layerEC_iff h hone hch hv).mp ⟨lp, layerType, hlp, htype, hcheck⟩
    exact ⟨lp', layerType', point, hlp', (layerTypeAt_eq_ok.mp htype').2, hpoint, hpass⟩
  · intro hpasses i hi
    have hi' : i < chs.length := h.length.symm ▸ hi
    have hch : chs[i]? = some chs[i] := List.getElem?_eq_getElem hi'
    obtain ⟨v, hv, hbeta, hdot⟩ := hat i _ hch
    obtain ⟨lp, layerType, point, hlp, htype, hpoint, hpass⟩ := hpasses i _ hch
    have htypeAt : layerTypeAt circuit i = .ok layerType := by
      refine layerTypeAt_eq_ok.mpr ⟨?_, htype⟩
      omega
    obtain ⟨lp', layerType', hlp', htype', hcheck⟩ :=
      (layerEC_iff h hone hch hv).mpr ⟨lp, layerType, point, hlp, htypeAt, hpoint, hpass⟩
    refine ⟨layerType', htype', lp', hlp', hybridLayer chs[i], ?_, v.1, hbeta, v.2, hdot, hcheck⟩
    rw [h.layers, List.getElem?_map, hch, Option.map_some]

/-- A chain that passes has true values. -/
theorem exists_layerValues (h : LayersReplayed proof challenges chs)
    (hlen : proof.layerProofs.length = circuit.numLayers - 1) (hnum : circuit.numLayers ≠ 0)
    (hone : ∀ lp ∈ proof.layerProofs, lp.pops.length ≤ 1)
    (hpasses : ChainPasses gens proof circuit 0 challenges.outputChallenges chs) :
    ∃ values, (List.range proof.layerProofs.length).mapM (layerValues proof circuit challenges) =
      .ok values := by
  have hat : ∀ i ∈ List.range proof.layerProofs.length, ∃ v,
      layerValues proof circuit challenges i = .ok v := by
    intro i hi
    have hi' : i < chs.length := h.length.symm ▸ List.mem_range.mp hi
    have hch : chs[i]? = some chs[i] := List.getElem?_eq_getElem hi'
    obtain ⟨lp, layerType, point, hlp, htype, hpoint, hpass⟩ := chainPasses_iff.mp hpasses i _ hch
    rw [Nat.zero_add] at hlp htype
    have htypeAt : layerTypeAt circuit i = .ok layerType := by
      refine layerTypeAt_eq_ok.mpr ⟨?_, htype⟩
      have := List.mem_range.mp hi
      omega
    obtain ⟨v, hvalue, -⟩ := (layerPasses_iff (h.pops i _ lp hch hlp)
      (hone lp (List.mem_of_getElem? hlp))).mp hpass
    exact ⟨v, (layerValues_eq_ok h hch).mpr ⟨lp, layerType, point, hlp, htypeAt, hpoint, hvalue⟩⟩
  choose! value hvalue using hat
  exact ⟨_, mapM_of_ok hvalue⟩

end Layers

/-! ## Input layers -/

/-- The committed inputs in the list are opened one after the other. -/
def InputsOpened (proof : LayeredProof) (circuit : CircuitDescription) (ctx : InputContext) :
    List ℕ → ℕ → Sponge → List InputRun → Prop
  | [], _, _, runs => runs = []
  | i :: is, hyraxProofIdx, s, runs => ∃ claimPoints inputProof run rest,
    inputClaimPoints circuit ctx.bindings i = .ok claimPoints ∧
    proof.inputProofs[hyraxProofIdx]? = some inputProof ∧
    InputOpened ctx.gens proofComEval i inputProof claimPoints
      (inputTranscript inputProof claimPoints s) run ∧
    InputsOpened proof circuit ctx is (hyraxProofIdx + 1)
      (inputTranscript inputProof claimPoints s).sponge rest ∧ runs = run :: rest

theorem length_inputsOpened {proof : LayeredProof} {circuit : CircuitDescription}
    {ctx : InputContext} {is : List ℕ} {hyraxProofIdx : ℕ} {s : Sponge} {runs : List InputRun}
    (h : InputsOpened proof circuit ctx is hyraxProofIdx s runs) : runs.length = is.length := by
  induction is generalizing hyraxProofIdx s runs with
  | nil =>
    cases h
    rfl
  | cons i is ih =>
    obtain ⟨claimPoints, inputProof, run, rest, -, -, -, hrest, rfl⟩ := h
    rw [List.length_cons, List.length_cons, ih hrest]

/-- The input loop opens the committed inputs and compares the public ones. -/
theorem inputLoop_iff {proof : LayeredProof} {circuit : CircuitDescription} {ctx : InputContext}
    {is : List ℕ} (htypes : ∀ i ∈ is, i < circuit.layerTypes.length)
    (hkinds : ∀ i ∈ is, i < circuit.isCommitted.length) {hyraxProofIdx : ℕ} {s : Sponge}
    {runs : List InputRun} :
    inputLoop proofComEval proof circuit ctx is hyraxProofIdx s = .ok runs ↔
      InputsOpened proof circuit ctx (is.filter (isInput circuit true)) hyraxProofIdx s runs ∧
      ∀ i ∈ is.filter (isInput circuit false),
        verifyPublicInput circuit ctx.publicInputs ctx.gens ctx.bindings ctx.claim i = .ok () := by
  induction is generalizing hyraxProofIdx s runs with
  | nil =>
    simp only [inputLoop, pure_eq_ok, List.filter_nil, InputsOpened, List.not_mem_nil,
      false_implies, implies_true, and_true]
    exact eq_comm
  | cons i is ih =>
    obtain ⟨hi, htypes⟩ := List.forall_mem_cons.mp htypes
    obtain ⟨hi', hkinds⟩ := List.forall_mem_cons.mp hkinds
    have htype : circuit.layerTypes[i]? = some circuit.layerTypes[i] := List.getElem?_eq_getElem hi
    have hkind : circuit.isCommitted[i]? = some circuit.isCommitted[i] :=
      List.getElem?_eq_getElem hi'
    rw [inputLoop_cons]
    simp only [htype, hkind, Option.some.injEq, exists_eq_left', List.filter_cons, isInput]
    by_cases hinput : circuit.layerTypes[i] = 3
    · cases hcommitted : circuit.isCommitted[i] with
      | true =>
        simp only [hinput, beq_self_eq_true, Bool.and_self, ↓reduceIte, ne_eq, not_true_eq_false,
          false_and, false_or, true_and, Bool.true_eq_false, or_false, InputsOpened, ih htypes hkinds,
          Option.some_beq_some, beq_false, Bool.not_true, Bool.and_false, Bool.false_eq_true]
        constructor
        · rintro ⟨claimPoints, inputProof, run, rest, hpoints, hproof, hopened, ⟨hrest, hpublic⟩, rfl⟩
          exact ⟨⟨claimPoints, inputProof, run, rest, hpoints, hproof, hopened, hrest, rfl⟩, hpublic⟩
        · rintro ⟨⟨claimPoints, inputProof, run, rest, hpoints, hproof, hopened, hrest, rfl⟩, hpublic⟩
          exact ⟨claimPoints, inputProof, run, rest, hpoints, hproof, hopened, ⟨hrest, hpublic⟩, rfl⟩
      | false =>
        simp only [hinput, beq_self_eq_true, Bool.and_self, ↓reduceIte, ne_eq, not_true_eq_false,
          false_and, false_or, true_and, Bool.false_eq_true, ih htypes hkinds,
          Option.some_beq_some, beq_true, Bool.and_false, List.forall_mem_cons]
        constructor
        · rintro ⟨hpublic, hopened, hrest⟩
          exact ⟨hopened, hpublic, hrest⟩
        · rintro ⟨hopened, hpublic, hrest⟩
          exact ⟨hpublic, hopened, hrest⟩
    · simp [hinput, ih htypes hkinds, isInput]

private theorem length_multiClaimTensors_zero {mulBindings rlcCoeffs : List ℕ}
    {tensors : List ℕ × List ℕ}
    (h : multiClaimTensors 0 (deriveInputClaimPoints mulBindings) rlcCoeffs = .ok tensors) :
    tensors.1.length = 1 := by
  have htensor : initializeTensor solBackend [] = .ok [1] := rfl
  simp only [multiClaimTensors, splitPoint, log2, computeRlcTensor, deriveInputClaimPoints, bind_eq_ok,
    pure_eq_ok] at h
  obtain ⟨_, -, _, ⟨_, hlog, _, -, rfl⟩, lCoeffs, hl, _, -, _, -, rfl⟩ := h
  obtain ⟨_, -, rfl⟩ := hlog
  have hzero : (if 0 < 0 then 0 else 1).log2 = 0 := rfl
  simp only [hzero, List.length_cons, List.length_nil, List.range_succ, List.range_zero,
    List.nil_append, List.singleton_append, List.zip_cons_cons, List.zip_nil_right,
    List.foldlM_cons, List.foldlM_nil, List.take_zero, htensor, ok_bind, bind_eq_ok, pure_eq_ok] at hl
  obtain ⟨r₁, ⟨_, -, c₁, -, rfl⟩, r₂, ⟨_, -, c₂, -, rfl⟩, rfl⟩ := hl
  rfl

/-- A committed input is opened exactly when the hybrid check accepts it at its true values. -/
theorem inputOpened_iff {gens : PedersenGens} {i : ℕ} {inputProof : EvalProof}
    {mulBindings : List ℕ} {ch : GroupChallenges} :
    (∃ run, InputOpened gens proofComEval i inputProof (deriveInputClaimPoints mulBindings) ch run) ↔
      ∃ tensors zDotR, multiClaimTensors inputProof.commitmentRows.length
          (deriveInputClaimPoints mulBindings) ch.rlcCoeffs = .ok tensors ∧
        innerProduct solBackend inputProof.podp.zVector tensors.2 = .ok zDotR ∧
        verifyInputHyrax inputProof ch.podpChallenge tensors.1 zDotR gens = .ok () := by
  simp only [verifyInputHyrax, verifyInputPODPChecks, bind_eq_ok]
  constructor
  · rintro ⟨run, h⟩
    obtain ⟨comY, hcomY, hopening⟩ := h.opening
    obtain rfl := pure_eq_ok.mp hcomY
    simp only [openingHolds, bind_eq_ok] at hopening
    obtain ⟨_, -, comX, hcomX, hpodp⟩ := hopening
    obtain ⟨zDotR, hdot, hchecks⟩ :=
      (verifyPodp_true_iff_podpChecks .inputPODPEq1Failed .inputPODPEq2Failed).mp hpodp
    exact ⟨(run.lCoeffs, run.rCoeffs), zDotR, h.tensors, hdot, comX, hcomX, hchecks⟩
  · rintro ⟨⟨lCoeffs, rCoeffs⟩, zDotR, htensors, hdot, comX, hcomX, hchecks⟩
    have hrows : inputProof.commitmentRows.length = lCoeffs.length := by
      simp only [multiScalarMul, bind_eq_ok, require_eq_ok, beq_iff_eq] at hcomX
      exact hcomX.choose_spec.1
    have hz : inputProof.podp.zVector.length = rCoeffs.length := by
      simp only [innerProduct, bind_eq_ok, require_eq_ok, beq_iff_eq] at hdot
      exact hdot.choose_spec.1
    have hpos : inputProof.commitmentRows.length ≠ 0 := by
      intro hzero
      rw [hzero] at htensors
      have hone := length_multiClaimTensors_zero htensors
      simp only at hone
      omega
    have hpodp := (verifyPodp_true_iff_podpChecks .inputPODPEq1Failed .inputPODPEq2Failed).mpr
      ⟨zDotR, hdot, hchecks⟩
    refine ⟨⟨i, inputProof.comEval, ch.rlcCoeffs, lCoeffs, rCoeffs, ch.podpChallenge⟩, rfl, rfl, rfl,
      rfl, htensors, inputProof.comEval, rfl, ?_⟩
    simp only [openingHolds, bind_eq_ok]
    refine ⟨(), ?_, comX, hcomX, hpodp⟩
    simp [solBackend, hrows.symm, hz, bne_iff_ne.mpr hpos]

/-! ## Public inputs -/

theorem verifyPublicInput_eq_ok {circuit : CircuitDescription} {pubInputs : List ℕ}
    {gens : PedersenGens} {bindings : List (List ℕ)} {claim : G1Point} {i : ℕ} :
    verifyPublicInput circuit pubInputs gens bindings claim i = .ok () ↔
      ∃ point mleEval, findReferringBindings i circuit bindings = .ok point ∧
        evaluateMLEFromData pubInputs point = .ok mleEval ∧
        scalarMul gens.scalarGen mleEval = .ok claim := by
  simp only [verifyPublicInput, bind_eq_ok, require_eq_ok, decide_eq_true_eq]
  constructor
  · rintro ⟨point, hpoint, mleEval, heval, expected, hexpected, rfl⟩
    exact ⟨point, mleEval, hpoint, heval, hexpected⟩
  · rintro ⟨point, mleEval, hpoint, heval, hexpected⟩
    exact ⟨point, hpoint, mleEval, heval, claim, hexpected, rfl⟩

theorem evaluateMLEFromData_nil (point : List ℕ) : evaluateMLEFromData [] point = .ok 0 := by
  simp [evaluateMLEFromData]

theorem scalarMul_zero {p : G1Point} (hp : isOnCurve p = true) :
    scalarMul p 0 = .ok G1Point.INFINITY := by
  obtain ⟨P, rfl⟩ := (isOnCurve_iff p).mp hp
  refine LayeredBinding.scalarMul_eq_ok.mpr ⟨hp, ?_⟩
  rw [ecMul_encode P (by decide), zero_nsmul, encode_zero]

theorem hasNonCommittedInputLayer_iff {circuit : CircuitDescription} :
    hasNonCommittedInputLayer circuit = true ↔ inputLayers circuit false ≠ [] := by
  rw [hasNonCommittedInputLayer, inputLayers, List.any_eq_true, ne_eq, List.filter_eq_nil_iff]
  push Not
  rfl

end WorldZk.LayeredReplay
