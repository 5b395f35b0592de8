import WorldZk.GroupChecks
import WorldZk.LayerChecks
import WorldZk.ZkmlVerifier

/-!
# Replaying a proof without curve operations

The hybrid functions of the two Rust crates follow the transcript of the full verifier and compute
the same scalars, and leave every curve equation to another prover. Their bodies repeat the full
verifier's with the curve operations taken out.
-/

namespace WorldZk.HybridReplay

open CheckedRuns Bn254Moduli FieldArithmetic PoseidonSponge ProofTypes VerifierBackend
open CommittedSumcheck DagLayers InputLayers ProofDecoding

variable (b : Backend)

/-! ## Compute layers -/

/-- `sumcheck::verify_hybrid`: the transcript of the sumcheck, and `z_dot_j_star`. -/
def verifyHybrid (proof : CommittedSumcheckProof) (degree : ℕ) (bindings : List ℕ) (s : Sponge) :
    Checked (ℕ × Sponge) := do
  let n := proof.messages.length
  require (bindings.length == n) .bindingsLengthMismatch
  let (rhos, s) := challenges b (n + 1) s
  let (gammas, s) := challenges b n s
  let jStar ← computeJStar b rhos gammas bindings degree n
  let t := absorbPodp b proof.podp s
  let zDotJStar ← innerProduct b proof.podp.zVector jStar
  pure (zDotJStar, t.2)

/-- The output claim in `compute_rlc_beta_only`: the weight and the next coefficient. -/
def rlcBetaStart (layerIdx : ℕ) (ctx : VerifyContext) (bindings rlcCoeffs : List ℕ) :
    Checked (ℕ × ℕ) :=
  if layerIdx = 0 then do
    let beta ← computeBeta b bindings ctx.outputChallenges
    let coeff ← getIdx rlcCoeffs 0
    pure (b.mul beta coeff, 1)
  else pure (0, 0)

/-- The contribution of one routed atom in `compute_rlc_beta_only`. -/
def rlcBetaStep (desc : DAGCircuitDescription) (ctx : VerifyContext) (bindings rlcCoeffs : List ℕ)
    (st : ℕ × ℕ) (atom : ℕ × ℕ) : Checked (ℕ × ℕ) := do
  let atomPoint ← resolvePoint desc atom.2 (← getIdx ctx.allBindings atom.1)
  let beta ← computeBeta b bindings atomPoint
  let coeff ← getIdx rlcCoeffs st.2
  pure (b.add st.1 (b.mul beta coeff), st.2 + 1)

/-- `compute_rlc_beta_only`. -/
def computeRlcBetaOnly (layerIdx : ℕ) (desc : DAGCircuitDescription) (ctx : VerifyContext)
    (bindings rlcCoeffs : List ℕ) : Checked ℕ := do
  let st ← rlcBetaStart b layerIdx ctx bindings rlcCoeffs
  let atoms ← routedAtoms desc layerIdx layerIdx
  let st ← atoms.foldlM (rlcBetaStep b desc ctx bindings rlcCoeffs) st
  pure st.1

/-- `verify_products_hybrid`: the transcript of the product proofs. -/
def verifyProductsHybrid (pops : List ProofOfProduct) (s : Sponge) : Sponge :=
  pops.foldl (fun s pop => (absorbPop b pop s).2) s

/-- What `process_one_layer_hybrid` returns. -/
structure HybridLayer where
  bindings : List ℕ
  rlcBeta : ℕ
  zDotJStar : ℕ
deriving DecidableEq, Repr

/-- `process_one_layer_hybrid`. -/
def processOneLayerHybrid (layerIdx : ℕ) (proof : GKRProof) (desc : DAGCircuitDescription)
    (ctx : VerifyContext) (s : Sponge) : Checked (HybridLayer × Sponge) := do
  let numClaims := countClaimsFor layerIdx desc + if layerIdx = 0 then 1 else 0
  let (rlcCoeffs, s) := challenges b numClaims s
  let lp ← getIdx proof.layerProofs layerIdx
  let (bindings, s) := absorbMessagesAndDeriveBindings b lp.sumcheckProof.messages s
  let s := absorbPoints b s lp.commitments
  let rlcBeta ← computeRlcBetaOnly b layerIdx desc ctx bindings rlcCoeffs
  let degree := layerDegree (← getIdx desc.layerTypes layerIdx)
  let (zDotJStar, s) ← verifyHybrid b lp.sumcheckProof degree bindings s
  pure (⟨bindings, rlcBeta, zDotJStar⟩, verifyProductsHybrid b lp.pops s)

/-- The layer loop of `verify_compute_layers_hybrid`. -/
def processLayersHybrid (proof : GKRProof) (desc : DAGCircuitDescription) :
    List ℕ → VerifyContext → Sponge → Checked (List HybridLayer × VerifyContext × Sponge)
  | [], ctx, s => pure ([], ctx, s)
  | i :: is, ctx, s => do
    let (layer, s) ← processOneLayerHybrid b i proof desc ctx s
    let ctx := { ctx with allBindings := ctx.allBindings ++ [layer.bindings] }
    let (layers, ctx, s) ← processLayersHybrid proof desc is ctx s
    pure (layer :: layers, ctx, s)

/-- `verify_compute_layers_hybrid`. -/
def verifyComputeLayersHybrid (proof : GKRProof) (desc : DAGCircuitDescription) (s : Sponge) :
    Checked (List HybridLayer × VerifyContext × Sponge) := do
  let (ctx, s) ← outputPhase b proof s
  processLayersHybrid b proof desc (List.range desc.numComputeLayers) ctx s

/-! ## Input layers -/

structure InputFrOutputs where
  lTensorFlat : List ℕ
  zDotRs : List ℕ
  mleEvals : List ℕ
deriving DecidableEq, Repr

/-- `verify_one_eval_group_hybrid`. -/
def verifyOneEvalGroupHybrid (dagProof : DAGInputLayerProof) (claimPoints : List (List ℕ))
    (plan : EvalPlan) (groupIdx : ℕ) (group : List ℕ) (outputs : InputFrOutputs) (s : Sponge) :
    Checked (InputFrOutputs × Sponge) := do
  let (rlcCoeffs, s) := challenges b group.length s
  let groupPoints ← group.mapM (getIdx claimPoints)
  let lCoeffs ← computeRlcTensor b groupPoints plan.lHalfLen rlcCoeffs
  let firstPoint ← getIdx groupPoints 0
  let rVars ← (List.range' plan.lHalfLen plan.logNCols).mapM (getIdx firstPoint)
  let rCoeffs ← initializeTensor b rVars
  let comEval ← getIdx dagProof.comEvals groupIdx
  let s := absorbPoint b s comEval
  let podp ← getIdx dagProof.podps groupIdx
  let (_, s) := absorbPodp b podp s
  let zDotR ← innerProduct b podp.zVector rCoeffs
  pure ({ outputs with lTensorFlat := outputs.lTensorFlat ++ lCoeffs
                       zDotRs := outputs.zDotRs ++ [zDotR] }, s)

/-- The group loop of `verify_committed_input_batch_eval_hybrid`. -/
def verifyGroupsHybrid (dagProof : DAGInputLayerProof) (claimPoints : List (List ℕ))
    (plan : EvalPlan) :
    List (List ℕ × ℕ) → InputFrOutputs → Sponge → Checked (InputFrOutputs × Sponge)
  | [], outputs, s => pure (outputs, s)
  | (group, g) :: rest, outputs, s => do
    let (outputs, s) ← verifyOneEvalGroupHybrid b dagProof claimPoints plan g group outputs s
    verifyGroupsHybrid dagProof claimPoints plan rest outputs s

/-- `verify_public_input_claims_hybrid`: the evaluations, without the Pedersen openings. -/
def verifyPublicInputClaimsHybrid (desc : DAGCircuitDescription) (claimPoints : List (List ℕ))
    (targetLayer : ℕ) (publicInputs : List ℕ) : Checked (List ℕ) := do
  let atoms ← routedAtoms desc targetLayer desc.numComputeLayers
  (List.range atoms.length).mapM fun i => do
    evaluateMleFromData b publicInputs (← getIdx claimPoints i)

/-- `verify_input_layers_hybrid`. -/
def verifyInputLayersHybrid (desc : DAGCircuitDescription) (allBindings : List (List ℕ))
    (publicInputs : List ℕ) (dagInputProofs : List DAGInputLayerProof) :
    List ℕ → ℕ → InputFrOutputs → Sponge → Checked (InputFrOutputs × Sponge)
  | [], _, outputs, s => pure (outputs, s)
  | inputIdx :: is, dagInputIdx, outputs, s => do
    let targetLayer := desc.numComputeLayers + inputIdx
    let claimPoints ← collectClaimPoints b desc allBindings targetLayer
    if ← getIdx desc.inputIsCommitted inputIdx then
      let dagProof ← getIdx dagInputProofs dagInputIdx
      let plan ← sortAndGroupClaims dagProof claimPoints
      let (outputs, s) ← verifyGroupsHybrid b dagProof claimPoints plan plan.groups.zipIdx outputs s
      verifyInputLayersHybrid desc allBindings publicInputs dagInputProofs is (dagInputIdx + 1)
        outputs s
    else
      let mleEvals ← verifyPublicInputClaimsHybrid b desc claimPoints targetLayer publicInputs
      verifyInputLayersHybrid desc allBindings publicInputs dagInputProofs is dagInputIdx
        { outputs with mleEvals := outputs.mleEvals ++ mleEvals } s

/-! ## The two phases -/

/-- The scalars that the hybrid verification hands out. -/
structure FrOutputs where
  layers : List HybridLayer
  inputs : InputFrOutputs
deriving DecidableEq, Repr

/-- The two phases of `verify_dag_proof_hybrid_inner`, and the squeeze that closes them. -/
def hybridPhases (proof : DecodedProof) (desc : DAGCircuitDescription) (s : Sponge) :
    Checked (FrOutputs × ℕ) := do
  let (layers, ctx, s) ← verifyComputeLayersHybrid b proof.gkrProof desc s
  let (inputs, s) ← verifyInputLayersHybrid b desc ctx.allBindings proof.embeddedPubInputs
    proof.dagInputProofs (List.range desc.numInputLayers) 0 ⟨[], [], []⟩ s
  pure (⟨layers, inputs⟩, (squeeze b.ops s).1)

end WorldZk.HybridReplay
