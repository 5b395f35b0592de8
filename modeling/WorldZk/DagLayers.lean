import WorldZk.CommittedSumcheck

/-!
# Compute layers of a DAG circuit

`gkr.rs` and the compute half of `GKRDAGVerifier`: every layer gathers the claims routed to it,
combines them with squeezed coefficients, and runs one committed sumcheck and its product
proofs.
-/

namespace WorldZk.DagLayers

open CheckedRuns PoseidonSponge ProofTypes VerifierBackend CommittedSumcheck

variable (b : Backend)

/-- Point template entries from here on are fixed values. -/
def FIXED_REF_BASE : ℕ := 20000

/-- `count_claims_for`: all atoms that target the layer, wherever they stand. -/
def countClaimsFor (targetLayer : ℕ) (desc : DAGCircuitDescription) : ℕ :=
  desc.atomTargetLayers.countP (· = targetLayer)

/-- The atoms of compute layer `j` that target `targetLayer`. -/
def layerAtoms (desc : DAGCircuitDescription) (targetLayer j : ℕ) : Checked (List ℕ) := do
  let atomStart ← getIdx desc.atomOffsets j
  let atomEnd ← getIdx desc.atomOffsets (j + 1)
  (List.range' atomStart (atomEnd - atomStart)).filterM fun a => do
    pure (decide ((← getIdx desc.atomTargetLayers a) = targetLayer))

/-- The scan that every consumer of claims makes: the atoms of the first `n` compute layers that
target `targetLayer`, in order, each with its source layer. -/
def routedAtoms (desc : DAGCircuitDescription) (targetLayer n : ℕ) : Checked (List (ℕ × ℕ)) := do
  let perLayer ← (List.range n).mapM fun j => do
    pure ((← layerAtoms desc targetLayer j).map fun a => (j, a))
  pure perLayer.flatten

/-- `resolve_point`: an atom's claim point from its template and its source layer's bindings.
Entries between 1000 and `FIXED_REF_BASE` leave the coordinate at zero. -/
def resolvePoint (desc : DAGCircuitDescription) (atom : ℕ) (sourceBindings : List ℕ) :
    Checked (List ℕ) := do
  let start ← getIdx desc.ptOffsets atom
  let stop ← getIdx desc.ptOffsets (atom + 1)
  require (decide (start ≤ stop)) .arithmeticOverflow
  (List.range' start (stop - start)).mapM fun k => do
    let entry ← getIdx desc.ptData k
    if entry < 1000 then getIdx sourceBindings entry
    else if FIXED_REF_BASE ≤ entry then pure (entry - FIXED_REF_BASE)
    else pure 0

/-- One factor of `compute_beta`: `r c + (1 - r) (1 - c)`. -/
def betaTerm (r c : ℕ) : Checked ℕ := do
  let oneMinusR ← b.oneMinus r
  let oneMinusC ← b.oneMinus c
  pure (b.add (b.mul r c) (b.mul oneMinusR oneMinusC))

/-- `compute_beta`, over the shorter of the two vectors. -/
def computeBeta (bindings point : List ℕ) : Checked ℕ :=
  (bindings.zip point).foldlM (fun beta rc => do pure (b.mul beta (← betaTerm b rc.1 rc.2))) 1

/-- The running sums of `compute_rlc_eval_and_beta`. -/
structure RlcState where
  rlcEval : G1Point
  rlcBeta : ℕ
  coeffIdx : ℕ

/-- The output claim, which targets layer 0 only. -/
def rlcStart (layerIdx : ℕ) (ctx : VerifyContext) (bindings rlcCoeffs : List ℕ) :
    Checked RlcState :=
  if layerIdx = 0 then do
    let coeff ← getIdx rlcCoeffs 0
    let rlcEval ← b.ecMul ctx.outputEval coeff
    let beta ← computeBeta b bindings ctx.outputChallenges
    pure ⟨rlcEval, b.mul beta coeff, 1⟩
  else pure ⟨G1Point.INFINITY, 0, 0⟩

/-- The contribution of one routed atom. -/
def rlcStep (proof : GKRProof) (desc : DAGCircuitDescription) (ctx : VerifyContext)
    (bindings rlcCoeffs : List ℕ) (st : RlcState) (atom : ℕ × ℕ) : Checked RlcState := do
  let commitIdx ← getIdx desc.atomCommitIdxs atom.2
  let source ← getIdx proof.layerProofs atom.1
  let atomEval ← getIdx source.commitments commitIdx
  let atomPoint ← resolvePoint desc atom.2 (← getIdx ctx.allBindings atom.1)
  let beta ← computeBeta b bindings atomPoint
  let coeff ← getIdx rlcCoeffs st.coeffIdx
  let rlcEval ← b.ecAdd st.rlcEval (← b.ecMul atomEval coeff)
  pure ⟨rlcEval, b.add st.rlcBeta (b.mul beta coeff), st.coeffIdx + 1⟩

/-- `compute_rlc_eval_and_beta`: the commitment and the weight of all claims on a layer. -/
def computeRlcEvalAndBeta (layerIdx : ℕ) (proof : GKRProof) (desc : DAGCircuitDescription)
    (ctx : VerifyContext) (bindings rlcCoeffs : List ℕ) : Checked (G1Point × ℕ) := do
  let st ← rlcStart b layerIdx ctx bindings rlcCoeffs
  let atoms ← routedAtoms desc layerIdx layerIdx
  let st ← atoms.foldlM (rlcStep b proof desc ctx bindings rlcCoeffs) st
  pure (st.rlcEval, st.rlcBeta)

/-- `compute_oracle_eval`: the circuit's expression over the layer's commitments. -/
def computeOracleEval (commitments : List G1Point) (layerIdx rlcBeta : ℕ)
    (desc : DAGCircuitDescription) : Checked G1Point := do
  let prodStart ← getIdx desc.oracleProductOffsets layerIdx
  let prodEnd ← getIdx desc.oracleProductOffsets (layerIdx + 1)
  (List.range' prodStart (prodEnd - prodStart)).foldlM
    (fun result j => do
      let resultIdx ← getIdx desc.oracleResultIdxs j
      let coeff := b.mul rlcBeta (← getIdx desc.oracleExprCoeffs j)
      b.ecAdd result (← b.ecMul (← getIdx commitments resultIdx) coeff))
    G1Point.INFINITY

/-- `verify_products`: a window of three commitments that slides by one for each product. -/
def verifyProducts (commitments : List G1Point) (gens : PedersenGens) :
    ℕ → List ProofOfProduct → Sponge → Checked (Bool × Sponge)
  | _, [], s => pure (true, s)
  | commitIdx, pop :: pops, s => do
    require (decide (commitIdx + 2 < commitments.length)) .notEnoughCommitmentsForPoP
    let (valid, s) ← verifyProofOfProduct b pop (← getIdx commitments commitIdx)
      (← getIdx commitments (commitIdx + 1)) (← getIdx commitments (commitIdx + 2)) gens s
    if valid then verifyProducts commitments gens (commitIdx + 1) pops s else pure (false, s)

/-- The degree of the layer's round polynomials. -/
def layerDegree (layerType : ℕ) : ℕ := if layerType = 1 then 3 else 2

/-- The values that one call of `process_one_layer` computes. The source returns `bindings` and
drops the rest, `rlcEval` among it. -/
structure LayerRun where
  rlcCoeffs : List ℕ
  bindings : List ℕ
  rlcEval : G1Point
  rlcBeta : ℕ
  oracleEval : G1Point
deriving DecidableEq, Repr

/-- `process_one_layer`. -/
def processOneLayer (layerIdx : ℕ) (proof : GKRProof) (desc : DAGCircuitDescription)
    (gens : PedersenGens) (ctx : VerifyContext) (s : Sponge) : Checked (LayerRun × Sponge) := do
  let numClaims := countClaimsFor layerIdx desc + if layerIdx = 0 then 1 else 0
  let (rlcCoeffs, s) := challenges b numClaims s
  let lp ← getIdx proof.layerProofs layerIdx
  let (bindings, s) := absorbMessagesAndDeriveBindings b lp.sumcheckProof.messages s
  let s := absorbPoints b s lp.commitments
  let (rlcEval, rlcBeta) ← computeRlcEvalAndBeta b layerIdx proof desc ctx bindings rlcCoeffs
  let oracleEval ← computeOracleEval b lp.commitments layerIdx rlcBeta desc
  let degree := layerDegree (← getIdx desc.layerTypes layerIdx)
  let (sumcheckValid, s) ← verify b lp.sumcheckProof oracleEval degree bindings gens s
  require sumcheckValid .sumcheckFailed
  let (popsValid, s) ← verifyProducts b lp.commitments gens 0 lp.pops s
  require popsValid .popFailed
  pure (⟨rlcCoeffs, bindings, rlcEval, rlcBeta, oracleEval⟩, s)

/-- The output phase: challenges for the output claim, then its commitment is absorbed. -/
def outputPhase (proof : GKRProof) (s : Sponge) : Checked (VerifyContext × Sponge) := do
  let first ← getIdx proof.layerProofs 0
  let (outputChallenges, s) := challenges b first.sumcheckProof.messages.length s
  let outputEval ← getIdx proof.outputClaimCommitments 0
  pure (⟨[], outputChallenges, outputEval⟩, absorbPoint b s outputEval)

/-- The layer loop: layer `i` sees the bindings of the layers before it. -/
def processLayers (proof : GKRProof) (desc : DAGCircuitDescription) (gens : PedersenGens) :
    List ℕ → VerifyContext → Sponge → Checked (List LayerRun × VerifyContext × Sponge)
  | [], ctx, s => pure ([], ctx, s)
  | i :: is, ctx, s => do
    let (run, s) ← processOneLayer b i proof desc gens ctx s
    let ctx := { ctx with allBindings := ctx.allBindings ++ [run.bindings] }
    let (runs, ctx, s) ← processLayers proof desc gens is ctx s
    pure (run :: runs, ctx, s)

/-- `verify_compute_layers`. -/
def verifyComputeLayers (proof : GKRProof) (desc : DAGCircuitDescription) (gens : PedersenGens)
    (s : Sponge) : Checked (List LayerRun × VerifyContext × Sponge) := do
  let (ctx, s) ← outputPhase b proof s
  processLayers b proof desc gens (List.range desc.numComputeLayers) ctx s

end WorldZk.DagLayers
