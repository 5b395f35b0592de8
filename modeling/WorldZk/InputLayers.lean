import WorldZk.DagLayers

/-!
# Input layers of a DAG circuit

`hyrax.rs` and the input half of `GKRDAGVerifier`: claims on a committed input are sorted,
grouped and opened against the Hyrax commitment rows; claims on a public input are Pedersen
openings checked against the multilinear extension of the public data.
-/

namespace WorldZk.InputLayers

open CheckedRuns PoseidonSponge ProofTypes VerifierBackend CommittedSumcheck DagLayers

/-! ## Sorting and grouping -/

/-- `compare_points`: lexicographic, and the shorter point first. -/
def comparePoints : List ℕ → List ℕ → Ordering
  | [], [] => .eq
  | [], _ :: _ => .lt
  | _ :: _, [] => .gt
  | x :: xs, y :: ys => if x = y then comparePoints xs ys else if x < y then .lt else .gt

/-- One insertion of the insertion sort. The sorted prefix is held in reverse, so that the scan
from its end is a scan from the head. -/
def insertClaim (claimPoints : List (List ℕ)) (key : ℕ) : List ℕ → List ℕ
  | [] => [key]
  | x :: xs =>
    if comparePoints (claimPoints.getD x []) (claimPoints.getD key []) = .gt
    then x :: insertClaim claimPoints key xs else key :: x :: xs

/-- `sort_claim_indices`. -/
def sortClaimIndices (claimPoints : List (List ℕ)) : List ℕ :=
  ((List.range claimPoints.length).foldl (fun rev key => insertClaim claimPoints key rev) []).reverse

/-- `r_half_equals`: the last `logNCols` coordinates of `p` against the same places of `q`. -/
def rHalfEquals (p q : List ℕ) (logNCols : ℕ) : Checked Bool := do
  require (decide (logNCols ≤ p.length)) .arithmeticOverflow
  (List.range' (p.length - logNCols) logNCols).foldlM
    (fun same i => do
      if same then pure (decide ((← getIdx p i) = (← getIdx q i))) else pure false) true

/-- Append the claim to the first group whose first member has the same right half. -/
def addToMatchingGroup (claimPoints : List (List ℕ)) (logNCols claimIdx : ℕ) :
    List (List ℕ) → Checked (List (List ℕ))
  | [] => pure []
  | g :: gs => do
    let first := g.headD 0
    if ← rHalfEquals (claimPoints.getD first []) (claimPoints.getD claimIdx []) logNCols then
      pure ((g ++ [claimIdx]) :: gs)
    else
      let rest ← addToMatchingGroup claimPoints logNCols claimIdx gs
      pure (g :: rest)

/-- `group_claims_by_r_half`: a claim joins an earlier group where it can, and in any case opens
a group of its own. -/
def groupClaimsByRHalf (claimPoints : List (List ℕ)) (sortedIndices : List ℕ) (logNCols : ℕ) :
    Checked (List (List ℕ)) :=
  sortedIndices.foldlM
    (fun groups claimIdx => do
      let groups ← addToMatchingGroup claimPoints logNCols claimIdx groups
      pure (groups ++ [[claimIdx]])) []

variable (b : Backend)

/-! ## Multilinear tensors -/

/-- `initialize_tensor`: the tensor of all products of `r` and `1 - r`, last coordinate first. -/
def tensorTable : List ℕ → Checked (List ℕ)
  | [] => pure [1]
  | r :: rs => do
    let table ← tensorTable rs
    let oneMinusR ← b.oneMinus r
    pure (table.map (fun t => b.mul t oneMinusR) ++ table.map (fun t => b.mul t r))

theorem length_tensorTable {coords table : List ℕ} (h : tensorTable b coords = .ok table) :
    table.length = 2 ^ coords.length := by
  induction coords generalizing table with
  | nil =>
    obtain rfl := pure_eq_ok.mp h
    rfl
  | cons r rs ih =>
    simp only [tensorTable, bind_eq_ok, pure_eq_ok] at h
    obtain ⟨rest, hrest, _, -, rfl⟩ := h
    rw [List.length_append, List.length_map, List.length_map, ih hrest, List.length_cons, pow_succ]
    omega

def initializeTensor (coords : List ℕ) : Checked (List ℕ) := do
  require (b.tensorFits coords.length) .indexOutOfBounds
  tensorTable b coords

/-- `compute_rlc_tensor`: the combined tensor of the claims' left halves. -/
def computeRlcTensor (claimPoints : List (List ℕ)) (lHalfLen : ℕ) (rlcCoeffs : List ℕ) :
    Checked (List ℕ) :=
  (claimPoints.zip (List.range claimPoints.length)).foldlM
    (fun result pc => do
      require (decide (lHalfLen ≤ pc.1.length)) .indexOutOfBounds
      let tensor ← initializeTensor b (pc.1.take lHalfLen)
      let coeff ← getIdx rlcCoeffs pc.2
      pure ((result.zip tensor).map fun rt => b.add rt.1 (b.mul rt.2 coeff)))
    (List.replicate (b.shl1 lHalfLen) 0)

/-- The weight of data index `w` at a point, most significant coordinate first. -/
def eqWeight (w n : ℕ) (point : List ℕ) : Checked ℕ :=
  (point.zip (List.range n)).foldlM
    (fun eq xi => do
      if b.bitAt w (n - 1 - xi.2) = 1 then pure (b.mul eq xi.1)
      else pure (b.mul eq (← b.oneMinus xi.1))) 1

/-- `evaluate_mle_from_data`. -/
def evaluateMleFromData (data point : List ℕ) : Checked ℕ := do
  let n := point.length
  require (decide (data.length ≤ b.shl1 n)) .dataTooLargeForPoint
  (data.zip (List.range data.length)).foldlM
    (fun result dw => do
      if dw.1 = 0 then pure result
      else pure (b.add result (b.mul dw.1 (← eqWeight b dw.2 n point)))) 0

/-! ## Committed inputs -/

/-- `log2`, rounded down. -/
def log2 (x : ℕ) : Checked ℕ := do
  require (x != 0) .log2OfZero
  pure x.log2

/-- The values that one eval group's check computes. -/
structure GroupRun where
  claims : List ℕ
  comEval : G1Point
  rlcCoeffs : List ℕ
  lCoeffs : List ℕ
  rCoeffs : List ℕ
  podpChallenge : ℕ
deriving DecidableEq, Repr

/-- `verify_one_eval_group`. -/
def verifyOneEvalGroup (dagProof : DAGInputLayerProof) (claimPoints : List (List ℕ))
    (lHalfLen logNCols : ℕ) (gens : PedersenGens) (groupIdx : ℕ) (groupClaimIndices : List ℕ)
    (s : Sponge) : Checked (GroupRun × Sponge) := do
  let (rlcCoeffs, s) := challenges b groupClaimIndices.length s
  let groupPoints ← groupClaimIndices.mapM (getIdx claimPoints)
  let lCoeffs ← computeRlcTensor b groupPoints lHalfLen rlcCoeffs
  let firstPoint ← getIdx groupPoints 0
  let rVars ← (List.range' lHalfLen logNCols).mapM (getIdx firstPoint)
  let rCoeffs ← initializeTensor b rVars
  let comEval ← getIdx dagProof.comEvals groupIdx
  let s := absorbPoint b s comEval
  let podp ← getIdx dagProof.podps groupIdx
  let (podpChallenge, s) := absorbPodp b podp s
  b.checkEvaluation dagProof.commitmentRows.length lCoeffs.length podp.zVector.length
    rCoeffs.length
  let comX ← multiScalarMul b dagProof.commitmentRows lCoeffs
  let valid ← verifyPodp b podp podpChallenge comX comEval rCoeffs gens
  require valid .committedInputEvalFailed
  pure (⟨groupClaimIndices, comEval, rlcCoeffs, lCoeffs, rCoeffs, podpChallenge⟩, s)

/-- The halves of the claim points and the eval groups of one committed input. -/
structure EvalPlan where
  lHalfLen : ℕ
  logNCols : ℕ
  groups : List (List ℕ)
deriving DecidableEq, Repr

/-- Steps 1 and 2 of `verify_committed_input_batch_eval`, which `_sortAndGroupClaims` repeats. -/
def sortAndGroupClaims (dagProof : DAGInputLayerProof) (claimPoints : List (List ℕ)) :
    Checked EvalPlan := do
  let numRows := dagProof.commitmentRows.length
  let n := (← getIdx claimPoints 0).length
  let lHalfLen ← log2 (if 0 < numRows then numRows else 1)
  require (decide (lHalfLen ≤ n)) .arithmeticOverflow
  let logNCols := n - lHalfLen
  let groups ← groupClaimsByRHalf claimPoints (sortClaimIndices claimPoints) logNCols
  pure ⟨lHalfLen, logNCols, groups⟩

/-- The groups, of which there must be as many as evaluation proofs. -/
def evalPlan (dagProof : DAGInputLayerProof) (claimPoints : List (List ℕ)) :
    Checked EvalPlan := do
  let plan ← sortAndGroupClaims dagProof claimPoints
  require (plan.groups.length == dagProof.podps.length) .evalProofCountMismatch
  pure plan

/-- The group loop, over groups with their indices. -/
def verifyGroups (dagProof : DAGInputLayerProof) (claimPoints : List (List ℕ)) (plan : EvalPlan)
    (gens : PedersenGens) : List (List ℕ × ℕ) → Sponge → Checked (List GroupRun × Sponge)
  | [], s => pure ([], s)
  | (group, g) :: rest, s => do
    let (run, s) ← verifyOneEvalGroup b dagProof claimPoints plan.lHalfLen plan.logNCols gens g
      group s
    let (runs, s) ← verifyGroups dagProof claimPoints plan gens rest s
    pure (run :: runs, s)

/-- `verify_committed_input_batch_eval`. -/
def verifyCommittedInputBatchEval (dagProof : DAGInputLayerProof) (claimPoints : List (List ℕ))
    (gens : PedersenGens) (s : Sponge) : Checked (List GroupRun × Sponge) := do
  let plan ← evalPlan dagProof claimPoints
  verifyGroups b dagProof claimPoints plan gens plan.groups.zipIdx s

/-! ## Public inputs -/

/-- `verify_one_public_claim`. -/
def verifyOnePublicClaim (claimPoint : List ℕ) (atomCommitment : G1Point) (claimIdx : ℕ)
    (publicInputs : List ℕ) (claims : List PublicValueClaim) (gens : PedersenGens) :
    Checked Unit := do
  require (decide (claimIdx < claims.length)) .notEnoughPublicValueClaims
  let claim ← getIdx claims claimIdx
  require (decide (claim.commitment = atomCommitment)) .publicClaimCommitmentMismatch
  let expected ← b.ecAdd (← b.ecMul gens.scalarGen claim.value)
    (← b.ecMul gens.blindingGen claim.blinding)
  require (decide (expected = claim.commitment)) .pedersenOpeningInvalid
  let mleVal ← evaluateMleFromData b publicInputs claimPoint
  require (mleVal == claim.value) .publicInputMLEMismatch

/-- The commitment that a routed atom claims about. -/
def atomCommitment (proof : GKRProof) (desc : DAGCircuitDescription) (atom : ℕ × ℕ) :
    Checked G1Point := do
  let source ← getIdx proof.layerProofs atom.1
  getIdx source.commitments (← getIdx desc.atomCommitIdxs atom.2)

/-- `verify_public_input_claims`: one public value claim for each routed atom, in order. -/
def verifyPublicInputClaims (proof : GKRProof) (desc : DAGCircuitDescription)
    (gens : PedersenGens) (claimPoints : List (List ℕ)) (targetLayer pubClaimStartIdx : ℕ)
    (publicInputs : List ℕ) (claims : List PublicValueClaim) : Checked ℕ := do
  let atoms ← routedAtoms desc targetLayer desc.numComputeLayers
  (atoms.zipIdx).forM fun ac => do
    verifyOnePublicClaim b (← getIdx claimPoints ac.2) (← atomCommitment proof desc ac.1)
      (pubClaimStartIdx + ac.2) publicInputs claims gens
  pure (pubClaimStartIdx + atoms.length)

/-! ## The input loop -/

/-- The claim points of an input layer, in scan order. -/
def collectClaimPoints (desc : DAGCircuitDescription) (allBindings : List (List ℕ))
    (targetLayer : ℕ) : Checked (List (List ℕ)) := do
  let atoms ← routedAtoms desc targetLayer desc.numComputeLayers
  let points ← atoms.mapM fun ja => do resolvePoint desc ja.2 (← getIdx allBindings ja.1)
  b.fillClaims (countClaimsFor targetLayer desc) points

/-- What the input phase reads besides the proof and the description. -/
structure InputData where
  publicInputs : List ℕ
  dagInputProofs : List DAGInputLayerProof
  publicValueClaims : List PublicValueClaim
deriving DecidableEq, Repr

/-- The state of the input loop: the two cursors, the eval groups checked so far, the sponge. -/
structure InputState where
  dagInputIdx : ℕ
  pubClaimIdx : ℕ
  groupRuns : List (List GroupRun)
  sponge : Sponge

/-- One input layer. -/
def verifyInputLayer (proof : GKRProof) (desc : DAGCircuitDescription) (gens : PedersenGens)
    (allBindings : List (List ℕ)) (input : InputData) (st : InputState) (inputIdx : ℕ) :
    Checked InputState := do
  let targetLayer := desc.numComputeLayers + inputIdx
  let claimPoints ← collectClaimPoints b desc allBindings targetLayer
  if ← getIdx desc.inputIsCommitted inputIdx then
    let dagProof ← getIdx input.dagInputProofs st.dagInputIdx
    let (runs, s) ← verifyCommittedInputBatchEval b dagProof claimPoints gens st.sponge
    pure { st with dagInputIdx := st.dagInputIdx + 1, groupRuns := st.groupRuns ++ [runs],
                   sponge := s }
  else
    let next ← verifyPublicInputClaims b proof desc gens claimPoints targetLayer st.pubClaimIdx
      input.publicInputs input.publicValueClaims
    pure { st with pubClaimIdx := next, groupRuns := st.groupRuns ++ [[]] }

/-- `verify_input_layers`. -/
def verifyInputLayers (proof : GKRProof) (desc : DAGCircuitDescription) (gens : PedersenGens)
    (allBindings : List (List ℕ)) (input : InputData) (s : Sponge) : Checked InputState :=
  (List.range desc.numInputLayers).foldlM
    (verifyInputLayer b proof desc gens allBindings input) ⟨0, 0, [], s⟩

end WorldZk.InputLayers
