import WorldZk.DagLayers

/-!
# Transcript and checks of a layer, apart

A layer's challenges depend on the proof's messages, commitments and responses only, never on
the outcome of a check and never on the committed sum. Here a layer is split accordingly: its
challenges as a function of the sponge, and its checks as a function of the challenges.
-/

namespace WorldZk.DagLayers

open CheckedRuns PoseidonSponge ProofTypes VerifierBackend CommittedSumcheck

variable (b : Backend)

/-- The challenges of a layer's product proofs, and the sponge after them. -/
def popTranscript : List ProofOfProduct → Sponge → List ℕ × Sponge
  | [], s => ([], s)
  | pop :: pops, s =>
    let t := absorbPop b pop s
    let rest := popTranscript pops t.2
    (t.1 :: rest.1, rest.2)

/-- All challenges that one layer draws, and the sponge after it. -/
structure LayerChallenges where
  rlcCoeffs : List ℕ
  bindings : List ℕ
  rhos : List ℕ
  gammas : List ℕ
  podpChallenge : ℕ
  popChallenges : List ℕ
  sponge : Sponge
deriving DecidableEq, Repr

/-- The transcript of one layer. -/
def layerChallenges (numClaims : ℕ) (lp : CommittedLayerProof) (s : Sponge) : LayerChallenges :=
  let coeffs := challenges b numClaims s
  let bindings := absorbMessagesAndDeriveBindings b lp.sumcheckProof.messages coeffs.2
  let rhos := challenges b (lp.sumcheckProof.messages.length + 1)
    (absorbPoints b bindings.2 lp.commitments)
  let gammas := challenges b lp.sumcheckProof.messages.length rhos.2
  let podp := absorbPodp b lp.sumcheckProof.podp gammas.2
  let pops := popTranscript b lp.pops podp.2
  ⟨coeffs.1, bindings.1, rhos.1, gammas.1, podp.1, pops.1, pops.2⟩

/-- How many coefficients a layer draws. -/
def numLayerClaims (desc : DAGCircuitDescription) (layerIdx : ℕ) : ℕ :=
  countClaimsFor layerIdx desc + if layerIdx = 0 then 1 else 0

/-- The committed sumcheck of a layer at fixed challenges, for a commitment `sum`. -/
def sumcheckHolds (sum : G1Point) (proof : CommittedSumcheckProof) (oracleEval : G1Point)
    (degree : ℕ) (ch : LayerChallenges) (gens : PedersenGens) : Checked Bool := do
  let alpha ← multiScalarMul b proof.messages ch.gammas
  let jStar ← computeJStar b ch.rhos ch.gammas ch.bindings degree proof.messages.length
  let dotProduct ← computeDotProduct b sum oracleEval (← getIdx ch.rhos 0)
    (← getIdx ch.rhos proof.messages.length)
  verifyPodp b proof.podp ch.podpChallenge alpha dotProduct jStar gens

/-- The product proofs of a layer at fixed challenges. -/
def productsHold (commitments : List G1Point) (gens : PedersenGens) :
    ℕ → List ProofOfProduct → List ℕ → Checked Bool
  | commitIdx, pop :: pops, c :: cs => do
    require (decide (commitIdx + 2 < commitments.length)) .notEnoughCommitmentsForPoP
    let valid ← popCheckEquations b pop (← getIdx commitments commitIdx)
      (← getIdx commitments (commitIdx + 1)) (← getIdx commitments (commitIdx + 2)) gens c
    if valid then productsHold commitments gens (commitIdx + 1) pops cs else pure false
  | _, _, _ => pure true

theorem verify_eq_ok (ch : LayerChallenges) {proof : CommittedSumcheckProof}
    {oracleEval : G1Point} {degree : ℕ} {bindings : List ℕ} {gens : PedersenGens} {s : Sponge}
    {valid : Bool} {s' : Sponge} (hbind : ch.bindings = bindings)
    (hlen : bindings.length = proof.messages.length)
    (hrhos : ch.rhos = (challenges b (proof.messages.length + 1) s).1)
    (hgammas : ch.gammas = (challenges b proof.messages.length
      (challenges b (proof.messages.length + 1) s).2).1)
    (hpodp : ch.podpChallenge = (absorbPodp b proof.podp (challenges b proof.messages.length
      (challenges b (proof.messages.length + 1) s).2).2).1) :
    verify b proof oracleEval degree bindings gens s = .ok (valid, s') ↔
      sumcheckHolds b proof.sum proof oracleEval degree ch gens = .ok valid ∧
        s' = (absorbPodp b proof.podp (challenges b proof.messages.length
          (challenges b (proof.messages.length + 1) s).2).2).2 := by
  simp only [verify, sumcheckHolds, verifyPodpWithTranscript, hlen, hbind, hrhos, hgammas, hpodp,
    beq_self_eq_true, require_true, ok_bind, bind_eq_ok, pure_eq_ok, Prod.mk.injEq]
  constructor
  · rintro ⟨alpha, halpha, jStar, hj, rho0, h0, rhoN, hN, dot, hdot, v, hv, rfl, rfl⟩
    exact ⟨⟨alpha, halpha, jStar, hj, rho0, h0, rhoN, hN, dot, hdot, hv⟩, rfl⟩
  · rintro ⟨⟨alpha, halpha, jStar, hj, rho0, h0, rhoN, hN, dot, hdot, hv⟩, rfl⟩
    exact ⟨alpha, halpha, jStar, hj, rho0, h0, rhoN, hN, dot, hdot, valid, hv, rfl, rfl⟩

theorem verifyProducts_true {commitments : List G1Point} {gens : PedersenGens}
    {pops : List ProofOfProduct} {commitIdx : ℕ} {s s' : Sponge} :
    verifyProducts b commitments gens commitIdx pops s = .ok (true, s') ↔
      productsHold b commitments gens commitIdx pops (popTranscript b pops s).1 = .ok true ∧
        s' = (popTranscript b pops s).2 := by
  induction pops generalizing commitIdx s with
  | nil =>
    simp only [verifyProducts, popTranscript, productsHold, pure_eq_ok, Prod.mk.injEq, true_and]
    exact eq_comm
  | cons pop pops ih =>
    simp only [verifyProducts, verifyProofOfProduct, popTranscript, productsHold, bind_eq_ok,
      require_eq_ok, pure_eq_ok]
    constructor
    · rintro ⟨u, hu, x, hx, y, hy, z, hz, ⟨_, _⟩, ⟨valid, hvalid, hpair⟩, hrest⟩
      obtain ⟨rfl, rfl⟩ := Prod.mk.inj hpair
      cases valid with
      | false => simp [pure_eq_ok] at hrest
      | true =>
        simp only [↓reduceIte] at hrest
        obtain ⟨htrue, hs'⟩ := ih.mp hrest
        refine ⟨⟨u, hu, x, hx, y, hy, z, hz, true, hvalid, ?_⟩, hs'⟩
        simpa only [↓reduceIte] using htrue
    · rintro ⟨⟨u, hu, x, hx, y, hy, z, hz, valid, hvalid, hrest⟩, hs'⟩
      cases valid with
      | false => simp [pure_eq_ok] at hrest
      | true =>
        refine ⟨u, hu, x, hx, y, hy, z, hz, (true, (absorbPop b pop s).2),
          ⟨true, hvalid, rfl⟩, ?_⟩
        simp only [↓reduceIte] at hrest ⊢
        exact ih.mpr ⟨hrest, hs'⟩

/-- What an accepted layer amounts to: its checks at the challenges of its transcript. -/
structure LayerAccepted (layerIdx : ℕ) (proof : GKRProof) (desc : DAGCircuitDescription)
    (gens : PedersenGens) (ctx : VerifyContext) (lp : CommittedLayerProof)
    (ch : LayerChallenges) (run : LayerRun) : Prop where
  rlcCoeffs_eq : run.rlcCoeffs = ch.rlcCoeffs
  bindings_eq : run.bindings = ch.bindings
  rlc : computeRlcEvalAndBeta b layerIdx proof desc ctx ch.bindings ch.rlcCoeffs =
    .ok (run.rlcEval, run.rlcBeta)
  oracle : computeOracleEval b lp.commitments layerIdx run.rlcBeta desc = .ok run.oracleEval
  sumcheck : ∃ layerType, desc.layerTypes[layerIdx]? = some layerType ∧
    sumcheckHolds b lp.sumcheckProof.sum lp.sumcheckProof run.oracleEval
      (layerDegree layerType) ch gens = .ok true
  products : productsHold b lp.commitments gens 0 lp.pops ch.popChallenges = .ok true

/-- A layer is accepted exactly when its checks hold at the challenges of its transcript. -/
theorem processOneLayer_eq_ok {layerIdx : ℕ} {proof : GKRProof} {desc : DAGCircuitDescription}
    {gens : PedersenGens} {ctx : VerifyContext} {s s' : Sponge} {run : LayerRun} :
    processOneLayer b layerIdx proof desc gens ctx s = .ok (run, s') ↔
      ∃ lp, proof.layerProofs[layerIdx]? = some lp ∧
        LayerAccepted b layerIdx proof desc gens ctx lp
          (layerChallenges b (numLayerClaims desc layerIdx) lp s) run ∧
        s' = (layerChallenges b (numLayerClaims desc layerIdx) lp s).sponge := by
  constructor
  · intro h
    simp only [processOneLayer, bind_eq_ok, getIdx_eq_ok, require_eq_ok, pure_eq_ok] at h
    obtain ⟨lp, hlp, ⟨rlcEval, rlcBeta⟩, hrlc, oracleEval, horacle, layerType, htype,
      ⟨valid, s₁⟩, hverify, _, hvalid, ⟨popsValid, s₂⟩, hpops, _, hpopsValid, hrun⟩ := h
    simp only at hvalid hpopsValid hpops hrlc horacle
    subst hvalid hpopsValid
    obtain ⟨rfl, rfl⟩ := Prod.mk.inj hrun
    obtain ⟨hsum, rfl⟩ := (verify_eq_ok b (layerChallenges b (numLayerClaims desc layerIdx) lp s)
      rfl (length_bindings b _ _) rfl rfl rfl).mp hverify
    obtain ⟨hprod, rfl⟩ := (verifyProducts_true b).mp hpops
    exact ⟨lp, hlp, ⟨rfl, rfl, hrlc, horacle, ⟨layerType, htype, hsum⟩, hprod⟩, rfl⟩
  · rintro ⟨lp, hlp, ⟨hcoeffs, hbind, hrlc, horacle, ⟨layerType, htype, hsum⟩, hprod⟩, rfl⟩
    obtain ⟨rlcCoeffs, bindings, rlcEval, rlcBeta, oracleEval⟩ := run
    simp only at hcoeffs hbind hrlc horacle hsum
    subst hcoeffs hbind
    simp only [processOneLayer, bind_eq_ok, getIdx_eq_ok, require_eq_ok, pure_eq_ok]
    refine ⟨lp, hlp, (rlcEval, rlcBeta), hrlc, oracleEval, horacle, layerType, htype, (true, _),
      (verify_eq_ok b (layerChallenges b (numLayerClaims desc layerIdx) lp s) rfl
        (length_bindings b _ _) rfl rfl rfl).mpr ⟨hsum, rfl⟩, (), rfl, (true, _),
      (verifyProducts_true b).mpr ⟨hprod, rfl⟩, (), rfl, rfl⟩

/-- The challenges of the layers in `is`, one transcript after the other. -/
def layerTranscripts (proof : GKRProof) (desc : DAGCircuitDescription) :
    List ℕ → Sponge → List LayerChallenges
  | [], _ => []
  | i :: is, s =>
    match proof.layerProofs[i]? with
    | none => []
    | some lp =>
      let ch := layerChallenges b (numLayerClaims desc i) lp s
      ch :: layerTranscripts proof desc is ch.sponge

/-- The loop accepts a first layer and then the others. -/
theorem processLayers_cons {proof : GKRProof} {desc : DAGCircuitDescription} {gens : PedersenGens}
    {i : ℕ} {is : List ℕ} {ctx : VerifyContext} {s : Sponge}
    {out : List LayerRun × VerifyContext × Sponge} :
    processLayers b proof desc gens (i :: is) ctx s = .ok out ↔
      ∃ run s₁ runs, processOneLayer b i proof desc gens ctx s = .ok (run, s₁) ∧
        processLayers b proof desc gens is
          { ctx with allBindings := ctx.allBindings ++ [run.bindings] } s₁ = .ok (runs, out.2) ∧
        out.1 = run :: runs := by
  simp only [processLayers, bind_eq_ok, pure_eq_ok]
  constructor
  · rintro ⟨⟨run, s₁⟩, hrun, ⟨runs, ctx', s'⟩, hruns, rfl⟩
    exact ⟨run, s₁, runs, hrun, hruns, rfl⟩
  · rintro ⟨run, s₁, runs, hrun, hruns, hout⟩
    refine ⟨(run, s₁), hrun, (runs, out.2), hruns, ?_⟩
    rw [← hout]

theorem processLayers_nil {proof : GKRProof} {desc : DAGCircuitDescription} {gens : PedersenGens}
    {ctx : VerifyContext} {s : Sponge} {out : List LayerRun × VerifyContext × Sponge} :
    processLayers b proof desc gens [] ctx s = .ok out ↔ out = ([], ctx, s) := by
  rw [processLayers, pure_eq_ok]
  exact eq_comm

theorem length_processLayers {proof : GKRProof} {desc : DAGCircuitDescription}
    {gens : PedersenGens} {is : List ℕ} {ctx : VerifyContext} {s : Sponge}
    {out : List LayerRun × VerifyContext × Sponge}
    (h : processLayers b proof desc gens is ctx s = .ok out) : out.1.length = is.length := by
  induction is generalizing ctx s out with
  | nil => rw [(processLayers_nil b).mp h]; rfl
  | cons i is ih =>
    obtain ⟨run, s₁, runs, -, hruns, hout⟩ := (processLayers_cons b).mp h
    rw [hout, List.length_cons, List.length_cons, ih hruns]

/-- The loop over two lists of layers is one loop after the other. -/
theorem processLayers_append {proof : GKRProof} {desc : DAGCircuitDescription}
    {gens : PedersenGens} {is js : List ℕ} {ctx : VerifyContext} {s : Sponge}
    {out : List LayerRun × VerifyContext × Sponge} :
    processLayers b proof desc gens (is ++ js) ctx s = .ok out ↔
      ∃ runs ctx₁ s₁ runs', processLayers b proof desc gens is ctx s = .ok (runs, ctx₁, s₁) ∧
        processLayers b proof desc gens js ctx₁ s₁ = .ok (runs', out.2) ∧
        out.1 = runs ++ runs' := by
  induction is generalizing ctx s out with
  | nil =>
    rw [List.nil_append]
    constructor
    · exact fun h => ⟨[], ctx, s, out.1, rfl, h, rfl⟩
    · rintro ⟨runs, ctx₁, s₁, runs', hnil, h, hout⟩
      obtain ⟨rfl, rfl, rfl⟩ : runs = [] ∧ ctx₁ = ctx ∧ s₁ = s := by
        simpa using (processLayers_nil b).mp hnil
      rw [List.nil_append] at hout
      rw [h, ← hout]
  | cons i is ih =>
    rw [List.cons_append, processLayers_cons]
    constructor
    · rintro ⟨run, s₁, rest, hrun, hrest, hout⟩
      obtain ⟨runs, ctx₂, s₂, runs', his, hjs, happ⟩ := ih.mp hrest
      refine ⟨run :: runs, ctx₂, s₂, runs', ?_, hjs, ?_⟩
      · exact (processLayers_cons b).mpr ⟨run, s₁, runs, hrun, his, rfl⟩
      · rw [hout, List.cons_append]
        exact congrArg (run :: ·) happ
    · rintro ⟨runs₀, ctx₂, s₂, runs', hcons, hjs, hout⟩
      obtain ⟨run, s₁, runs, hrun, his, rfl⟩ := (processLayers_cons b).mp hcons
      exact ⟨run, s₁, runs ++ runs', hrun, ih.mpr ⟨runs, ctx₂, s₂, runs', his, hjs, rfl⟩, hout⟩

/-- The loop only appends bindings, one list for each layer. -/
theorem processLayers_ctx {proof : GKRProof} {desc : DAGCircuitDescription} {gens : PedersenGens}
    {is : List ℕ} {ctx : VerifyContext} {s : Sponge}
    {out : List LayerRun × VerifyContext × Sponge}
    (h : processLayers b proof desc gens is ctx s = .ok out) :
    out.2.1 = { ctx with allBindings := ctx.allBindings ++ out.1.map (·.bindings) } := by
  induction is generalizing ctx s out with
  | nil =>
    rw [(processLayers_nil b).mp h]
    simp
  | cons i is ih =>
    obtain ⟨run, s₁, runs, -, hruns, hout⟩ := (processLayers_cons b).mp h
    have hctx := ih hruns
    simp only at hctx
    rw [hctx, hout]
    simp

/-! ## A layer sees the bindings before it -/

theorem routedAtoms_lt {desc : DAGCircuitDescription} {targetLayer n : ℕ} {atoms : List (ℕ × ℕ)}
    (h : routedAtoms desc targetLayer n = .ok atoms) : ∀ ja ∈ atoms, ja.1 < n := by
  simp only [routedAtoms, bind_eq_ok, pure_eq_ok] at h
  obtain ⟨perLayer, hperLayer, rfl⟩ := h
  have hlayers : ∀ layer ∈ perLayer, ∀ ja ∈ layer, ja.1 < n := by
    refine mapM_forall hperLayer ?_
    intro j layer hj hlayer ja hja
    simp only [bind_eq_ok, pure_eq_ok] at hlayer
    obtain ⟨atoms, -, rfl⟩ := hlayer
    obtain ⟨a, -, rfl⟩ := List.mem_map.mp hja
    exact List.mem_range.mp hj
  intro ja hja
  obtain ⟨layer, hlayer, hmem⟩ := List.mem_flatten.mp hja
  exact hlayers layer hlayer ja hmem

/-- Two contexts with the same output claim and the same bindings of the earlier layers give the
same commitment and weight. -/
theorem computeRlcEvalAndBeta_congr {layerIdx : ℕ} {proof : GKRProof} {desc : DAGCircuitDescription}
    {ctx ctx' : VerifyContext} (hchallenges : ctx.outputChallenges = ctx'.outputChallenges)
    (heval : ctx.outputEval = ctx'.outputEval)
    (hbindings : ctx.allBindings.take layerIdx = ctx'.allBindings.take layerIdx)
    (bindings rlcCoeffs : List ℕ) :
    computeRlcEvalAndBeta b layerIdx proof desc ctx bindings rlcCoeffs =
      computeRlcEvalAndBeta b layerIdx proof desc ctx' bindings rlcCoeffs := by
  have hstart : rlcStart b layerIdx ctx bindings rlcCoeffs =
      rlcStart b layerIdx ctx' bindings rlcCoeffs := by
    rw [rlcStart, rlcStart, hchallenges, heval]
  unfold computeRlcEvalAndBeta
  rw [hstart]
  cases hatoms : routedAtoms desc layerIdx layerIdx with
  | error e => rfl
  | ok atoms =>
    have hfold : ∀ st, atoms.foldlM (rlcStep b proof desc ctx bindings rlcCoeffs) st =
        atoms.foldlM (rlcStep b proof desc ctx' bindings rlcCoeffs) st := by
      refine foldlM_congr ?_
      intro st ja hja
      simp only [rlcStep, getIdx_congr hbindings (routedAtoms_lt hatoms ja hja)]
    simp only [ok_bind, hfold]

/-- Such contexts give a layer the same outcome. -/
theorem processOneLayer_congr {layerIdx : ℕ} {proof : GKRProof} {desc : DAGCircuitDescription}
    {gens : PedersenGens} {ctx ctx' : VerifyContext} {s : Sponge}
    (hchallenges : ctx.outputChallenges = ctx'.outputChallenges)
    (heval : ctx.outputEval = ctx'.outputEval)
    (hbindings : ctx.allBindings.take layerIdx = ctx'.allBindings.take layerIdx) :
    processOneLayer b layerIdx proof desc gens ctx s =
      processOneLayer b layerIdx proof desc gens ctx' s := by
  simp only [processOneLayer, computeRlcEvalAndBeta_congr b hchallenges heval hbindings]

end WorldZk.DagLayers
