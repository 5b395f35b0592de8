import WorldZk.HybridVerifier

/-!
# The scalar values of a transcript

The values that the outputs of the Groth16 proof stand for, computed from the proof and the
replayed challenges the way `GKRDAGVerifier` computes them on its way through the checks.
-/

namespace WorldZk.HybridVerifier

open CheckedRuns PoseidonSponge ProofTypes VerifierBackend CommittedSumcheck DagLayers InputLayers
open FieldArithmetic Bn254Moduli FlatArrays ProofDecoding SolidityVerifier

/-! ## The weight of the claims on a layer -/

/-- The running weight of `compute_rlc_eval_and_beta`, and the next coefficient. -/
structure RlcBetaState where
  rlcBeta : ℕ
  coeffIdx : ℕ

def rlcBetaStart (layerIdx : ℕ) (outputChallenges bindings rlcCoeffs : List ℕ) :
    Checked RlcBetaState :=
  if layerIdx = 0 then do
    let coeff ← getIdx rlcCoeffs 0
    let beta ← computeBeta solBackend bindings outputChallenges
    pure ⟨solBackend.mul beta coeff, 1⟩
  else pure ⟨0, 0⟩

def rlcBetaStep (desc : DAGCircuitDescription) (allBindings : List (List ℕ))
    (bindings rlcCoeffs : List ℕ) (st : RlcBetaState) (atom : ℕ × ℕ) : Checked RlcBetaState := do
  let atomPoint ← resolvePoint desc atom.2 (← getIdx allBindings atom.1)
  let beta ← computeBeta solBackend bindings atomPoint
  let coeff ← getIdx rlcCoeffs st.coeffIdx
  pure ⟨solBackend.add st.rlcBeta (solBackend.mul beta coeff), st.coeffIdx + 1⟩

/-- The scalar half of `compute_rlc_eval_and_beta`. -/
def computeRlcBeta (layerIdx : ℕ) (desc : DAGCircuitDescription) (allBindings : List (List ℕ))
    (outputChallenges bindings rlcCoeffs : List ℕ) : Checked ℕ := do
  let st ← rlcBetaStart layerIdx outputChallenges bindings rlcCoeffs
  let atoms ← routedAtoms desc layerIdx layerIdx
  let st ← atoms.foldlM (rlcBetaStep desc allBindings bindings rlcCoeffs) st
  pure st.rlcBeta

/-! ## The values of layers, groups and claims -/

/-- The weight of a layer and the inner product of its dot-product proof. A layer without rounds
has no inner product. -/
def layerValues (proof : GKRProof) (desc : DAGCircuitDescription)
    (challenges : DAGTranscriptChallenges) (i : ℕ) : Checked (ℕ × ℕ) := do
  let lp ← getIdx proof.layerProofs i
  let layerCh ← getIdx challenges.layers i
  let rlcBeta ← computeRlcBeta i desc challenges.allBindings challenges.outputChallenges
    layerCh.bindings layerCh.rlcCoeffs
  let n := lp.sumcheckProof.messages.length
  if n = 0 then pure (rlcBeta, 0)
  else
    let degree := layerDegree (← getIdx desc.layerTypes i)
    let jStar ← computeJStar solBackend layerCh.rhos layerCh.gammas layerCh.bindings degree n
    let zDotJStar ← innerProduct solBackend lp.sumcheckProof.podp.zVector jStar
    pure (rlcBeta, zDotJStar)

/-- The tensor of a claim's left half, scaled by the claim's coefficient. -/
def claimTensor (lHalfLen : ℕ) (rlcCoeffs : List ℕ) (pc : List ℕ × ℕ) : Checked (List ℕ) := do
  require (decide (lHalfLen ≤ pc.1.length)) .indexOutOfBounds
  let tensor ← initializeTensor solBackend (pc.1.take lHalfLen)
  let coeff ← getIdx rlcCoeffs pc.2
  pure (tensor.map fun t => solBackend.mul t coeff)

/-- The tensors of a group's claims one after the other, and the inner product of its opening. -/
def groupValues (dagProof : DAGInputLayerProof) (claimPoints : List (List ℕ)) (plan : EvalPlan)
    (group : List ℕ) (g : ℕ) (rlcCoeffs : List ℕ) : Checked (List ℕ × ℕ) := do
  let groupPoints ← group.mapM (getIdx claimPoints)
  let tensors ← (groupPoints.zip (List.range groupPoints.length)).mapM
    (claimTensor plan.lHalfLen rlcCoeffs)
  let firstPoint ← getIdx groupPoints 0
  let rVars ← (List.range' plan.lHalfLen plan.logNCols).mapM (getIdx firstPoint)
  let rCoeffs ← initializeTensor solBackend rVars
  let podp ← getIdx dagProof.podps g
  let zDotR ← innerProduct solBackend podp.zVector rCoeffs
  pure (tensors.flatten, zDotR)

/-- The values of the groups in the list, each with its challenges. -/
def groupsValues (dagProof : DAGInputLayerProof) (claimPoints : List (List ℕ)) (plan : EvalPlan) :
    List (List ℕ × ℕ) → List DAGInputGroupChallenges → Checked (List (List ℕ × ℕ))
  | (group, g) :: rest, ch :: chs => do
    let values ← groupValues dagProof claimPoints plan group g ch.rlcCoeffs
    let others ← groupsValues dagProof claimPoints plan rest chs
    pure (values :: others)
  | _, _ => pure []

/-- The values of all groups of the input layers in the list, in the order of the replay. -/
def inputValues (desc : DAGCircuitDescription) (allBindings : List (List ℕ))
    (dagInputProofs : List DAGInputLayerProof) :
    List ℕ → ℕ → List DAGInputGroupChallenges → Checked (List (List ℕ × ℕ))
  | [], _, _ => pure []
  | inputIdx :: is, dagInputIdx, chs => do
    if ← getIdx desc.inputIsCommitted inputIdx then
      let claimPoints ←
        collectClaimPoints solBackend desc allBindings (desc.numComputeLayers + inputIdx)
      let dagProof ← getIdx dagInputProofs dagInputIdx
      let plan ← sortAndGroupClaims dagProof claimPoints
      let values ← groupsValues dagProof claimPoints plan plan.groups.zipIdx chs
      let rest ← inputValues desc allBindings dagInputProofs is (dagInputIdx + 1)
        (chs.drop plan.groups.length)
      pure (values ++ rest)
    else inputValues desc allBindings dagInputProofs is dagInputIdx chs

/-- The evaluations of the public data at the points of the claims on public inputs. -/
def publicValues (desc : DAGCircuitDescription) (allBindings : List (List ℕ)) (data : List ℕ) :
    Checked (List ℕ) := do
  let is ← publicInputs desc (List.range desc.numInputLayers)
  let values ← is.mapM fun i => do
    let atoms ← routedAtoms desc (desc.numComputeLayers + i) desc.numComputeLayers
    atoms.mapM fun ja => do
      evaluateMleFromData solBackend data (← resolvePoint desc ja.2 (← getIdx allBindings ja.1))
  pure values.flatten

/-- The outputs are the values of the transcript. There may be more evaluations than claims that
the scan over the layers finds. -/
structure TrueOutputs (decoded : DecodedProof) (desc : DAGCircuitDescription)
    (challenges : DAGTranscriptChallenges) (outputs : DAGGroth16Outputs) : Prop where
  layers : (List.range desc.numComputeLayers).mapM
    (layerValues decoded.gkrProof desc challenges) = .ok (outputs.rlcBeta.zip outputs.zDotJStar)
  groups : ∃ values, inputValues desc challenges.allBindings decoded.dagInputProofs
      (List.range desc.numInputLayers) 0 challenges.inputGroups = .ok values ∧
    outputs.lTensorFlat = (values.map Prod.fst).flatten ∧ outputs.zDotR = values.map Prod.snd
  evaluations : ∃ values, publicValues desc challenges.allBindings decoded.embeddedPubInputs =
    .ok values ∧ values <+: outputs.mleEval

end WorldZk.HybridVerifier
