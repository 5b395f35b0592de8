import WorldZk.FlatLayouts
import WorldZk.HybridVerifier

/-!
# The public inputs of the Groth16 wrapper

`DAGWrapperCircuit` allocates its public variables with sizes fixed when it is compiled, in the
order of its fields; `buildDAGGroth16Inputs` writes the words with the sizes that the inner proof
has. The two orders of the words of a chunk proof are compared as well.
-/

namespace WorldZk.Groth16Layout

open CheckedRuns PoseidonSponge ProofTypes VerifierBackend DagLayers InputLayers FieldArithmetic
open Bn254Moduli FlatArrays FlatLayouts ProofDecoding Transcript SolidityVerifier HybridVerifier

/-! ## The wrapper circuit -/

structure WrapperLayer where
  numVars : ℕ
  degree : ℕ
  numClaims : ℕ
deriving DecidableEq, Repr

structure WrapperGroup where
  numClaims : ℕ
  lHalfLen : ℕ
  rHalfLen : ℕ
deriving DecidableEq, Repr

/-- The sizes in the `DAGCircuitConfig` of the wrapper. The number of tensor entries of a group is
a positive `int`. -/
structure WrapperConfig where
  layers : List WrapperLayer
  outputNumVars : ℕ
  inputGroups : List WrapperGroup
  pubClaimNumVars : List ℕ
  pubInputCount : ℕ
  fits : ∀ group ∈ inputGroups, group.lHalfLen < 63

/-- The number of PoP challenges of a layer, by `HasPoP`. -/
def WrapperLayer.popLen (layer : WrapperLayer) : ℕ := if 2 < layer.degree then 1 else 0

inductive LayerField
  | rlcCoeffs
  | bindings
  | rhos
  | gammas
  | podpChallenge
  | popChallenges
deriving DecidableEq, Repr

inductive GroupField
  | rlcCoeffs
  | podpChallenge
  | lBindings
  | rBindings
deriving DecidableEq, Repr

/-- The public fields of `DAGWrapperCircuit`; a slice of structs has one field for each entry and
each of the struct's fields. -/
inductive Field
  | circuitHash
  | outputChallenges
  | layer (i : ℕ) (field : LayerField)
  | inputGroup (g : ℕ) (field : GroupField)
  | pubClaimPoint (p : ℕ)
  | publicInputValues
  | rlcBeta
  | zDotJStar
  | lTensorFlat
  | zDotR
  | mleEval
deriving DecidableEq, Repr

def LayerField.size (layer : WrapperLayer) : LayerField → ℕ
  | rlcCoeffs => layer.numClaims
  | bindings => layer.numVars
  | rhos => layer.numVars + 1
  | gammas => layer.numVars
  | podpChallenge => 1
  | popChallenges => layer.popLen

def GroupField.size (group : WrapperGroup) : GroupField → ℕ
  | rlcCoeffs => group.numClaims
  | podpChallenge => 1
  | lBindings => group.lHalfLen
  | rBindings => group.rHalfLen

/-- The sizes that `AllocateDAGCircuit` gives the fields. -/
def WrapperConfig.size (config : WrapperConfig) : Field → ℕ
  | .circuitHash => 2
  | .outputChallenges => config.outputNumVars
  | .layer i field => (config.layers[i]?).elim 0 fun layer => field.size layer
  | .inputGroup g field => (config.inputGroups[g]?).elim 0 fun group => field.size group
  | .pubClaimPoint p => (config.pubClaimNumVars[p]?).getD 0
  | .publicInputValues => config.pubInputCount
  | .rlcBeta => config.layers.length
  | .zDotJStar => config.layers.length
  | .lTensorFlat => (config.inputGroups.map fun group => group.numClaims * 2 ^ group.lHalfLen).sum
  | .zDotR => config.inputGroups.length
  | .mleEval => config.pubClaimNumVars.length

def layerFields (i : ℕ) : List Field :=
  [.layer i .rlcCoeffs, .layer i .bindings, .layer i .rhos, .layer i .gammas,
    .layer i .podpChallenge, .layer i .popChallenges]

def groupFields (g : ℕ) : List Field :=
  [.inputGroup g .rlcCoeffs, .inputGroup g .podpChallenge, .inputGroup g .lBindings,
    .inputGroup g .rBindings]

/-- The fields in the order of their declaration. -/
def fields (numLayers numGroups numPoints : ℕ) : List Field :=
  [.circuitHash, .outputChallenges] ++ (List.range numLayers).flatMap layerFields ++
    (List.range numGroups).flatMap groupFields ++ (List.range numPoints).map .pubClaimPoint ++
    [.publicInputValues, .rlcBeta, .zDotJStar, .lTensorFlat, .zDotR, .mleEval]

/-- The public variables of the compiled circuit, in the order in which they are flattened. -/
def publicVariables (config : WrapperConfig) : List (Field × ℕ) :=
  (fields config.layers.length config.inputGroups.length config.pubClaimNumVars.length).flatMap
    fun field => (List.range (config.size field)).map (field, ·)

/-! ## The call of the contract -/

/-- What `buildDAGGroth16Inputs` is called with. -/
structure Groth16Statement where
  circuitHashFr : ℕ × ℕ
  challenges : DAGTranscriptChallenges
  pubClaimPoints : List (List ℕ)
  publicInputValues : List ℕ
  outputs : DAGGroth16Outputs
deriving DecidableEq, Repr

def Groth16Statement.words (st : Groth16Statement) : List ℕ :=
  buildDAGGroth16Inputs st.circuitHashFr st.challenges st.pubClaimPoints st.publicInputValues
    st.outputs

def LayerField.values (ch : LayerChallenges) : LayerField → List ℕ
  | rlcCoeffs => ch.rlcCoeffs
  | bindings => ch.bindings
  | rhos => ch.rhos
  | gammas => ch.gammas
  | podpChallenge => [ch.podpChallenge]
  | popChallenges => ch.popChallenges

def GroupField.values (ch : DAGInputGroupChallenges) : GroupField → List ℕ
  | rlcCoeffs => ch.rlcCoeffs
  | podpChallenge => [ch.podpChallenge]
  | lBindings => ch.lBindings
  | rBindings => ch.rBindings

/-- The values that a statement has for a field of the wrapper. -/
def Groth16Statement.values (st : Groth16Statement) : Field → List ℕ
  | .circuitHash => [st.circuitHashFr.1, st.circuitHashFr.2]
  | .outputChallenges => st.challenges.outputChallenges
  | .layer i field => (st.challenges.layers[i]?).elim [] fun ch => field.values ch
  | .inputGroup g field => (st.challenges.inputGroups[g]?).elim [] fun ch => field.values ch
  | .pubClaimPoint p => (st.pubClaimPoints[p]?).getD []
  | .publicInputValues => st.publicInputValues
  | .rlcBeta => st.outputs.rlcBeta
  | .zDotJStar => st.outputs.zDotJStar
  | .lTensorFlat => st.outputs.lTensorFlat
  | .zDotR => st.outputs.zDotR
  | .mleEval => st.outputs.mleEval

/-- The value of a public variable; `none` when the proof has no such value. -/
def Groth16Statement.valueOf (st : Groth16Statement) (v : Field × ℕ) : Option ℕ :=
  (st.values v.1)[v.2]?

/-- Every word is the value of the public variable at its place. -/
def Aligned (config : WrapperConfig) (st : Groth16Statement) : Prop :=
  (publicVariables config).map st.valueOf = st.words.map some

instance (config : WrapperConfig) (st : Groth16Statement) : Decidable (Aligned config st) :=
  inferInstanceAs (Decidable (_ = _))

/-- What `verifyDAGWithGroth16` has computed when it calls the Groth16 verifier. -/
structure Groth16Call where
  config : DAGCircuitConfig
  decoded : DecodedProof
  statement : Groth16Statement

/-- `verifyDAGWithGroth16` up to the call of the Groth16 verifier. -/
def groth16Call (c : Contract) (innerProof : List UInt8) (circuitHash : ℕ) (gensData : List UInt8)
    (groth16Outputs : List ℕ) : Call Groth16Call := do
  require (!c.paused) .enforcedPause
  let config ← activeCircuit c circuitHash
  checkProofFormat innerProof
  checkGenerators config gensData
  let decoded ← liftDecode (decodeProofForDag (calldataReader (innerProof.drop 4)))
  let challenges ← liftVerifier (replayDAGTranscriptFull decoded.gkrProof config.description
    decoded.dagInputProofs (setupDagTranscript circuitHash decoded))
  let outputs ← parseDAGGroth16Outputs groth16Outputs config.description challenges
  let pubClaimPoints ←
    liftVerifier (collectPubClaimPoints config.description challenges.allBindings)
  pure ⟨config, decoded, hashToFqPair (wordToBeBytes circuitHash), challenges, pubClaimPoints,
    decoded.embeddedPubInputs, outputs⟩

theorem verifyDAGWithGroth16_eq_groth16Call (c : Contract)
    (groth16Verifiers : ℕ → Option Groth16Verifier) (innerProof : List UInt8) (circuitHash : ℕ)
    (publicInputs gensData : List UInt8) (groth16Proof groth16Outputs : List ℕ) :
    verifyDAGWithGroth16 c groth16Verifiers innerProof circuitHash publicInputs gensData
        groth16Proof groth16Outputs = (do
      let call ← groth16Call c innerProof circuitHash gensData groth16Outputs
      match groth16Verifiers circuitHash with
      | none => throw .dagGroth16VerifierNotSet
      | some verifier =>
        require (verifier groth16Proof call.statement.words) .groth16VerificationFailed
      let gens ← liftDecode (decodePedersenGens (calldataReader gensData))
      liftVerifier (verifyDAGECChecks call.decoded.gkrProof call.statement.challenges
        call.statement.outputs gens call.config.description (inputData call.decoded))) := by
  simp only [verifyDAGWithGroth16, verifyDAGGroth16, groth16Call, Groth16Statement.words,
    bind_assoc, pure_bind]
  cases groth16Verifiers circuitHash <;> rfl

/-! ## Alignment -/

theorem flatMap_fields {α : Type} (values : Field → List α) (numLayers numGroups numPoints : ℕ) :
    (fields numLayers numGroups numPoints).flatMap values =
      values .circuitHash ++ values .outputChallenges ++
        (List.range numLayers).flatMap (fun i => (layerFields i).flatMap values) ++
        (List.range numGroups).flatMap (fun g => (groupFields g).flatMap values) ++
        (List.range numPoints).flatMap (fun p => values (.pubClaimPoint p)) ++
        values .publicInputValues ++ values .rlcBeta ++ values .zDotJStar ++ values .lTensorFlat ++
        values .zDotR ++ values .mleEval := by
  simp only [fields, List.flatMap_append, List.flatMap_assoc, List.flatMap_map, List.flatMap_cons,
    List.flatMap_nil, List.append_nil, List.append_assoc]

/-- The words are the values of the fields that the statement has, in the order of the fields. -/
theorem words_eq_flatMap_fields (st : Groth16Statement) :
    st.words = (fields st.challenges.layers.length st.challenges.inputGroups.length
      st.pubClaimPoints.length).flatMap st.values := by
  have hlayers : ∀ i, (layerFields i).flatMap st.values =
      (st.challenges.layers[i]?).elim [] fun lc =>
        lc.rlcCoeffs ++ lc.bindings ++ lc.rhos ++ lc.gammas ++ [lc.podpChallenge] ++
          lc.popChallenges := by
    intro i
    cases h : st.challenges.layers[i]? <;>
      simp [layerFields, Groth16Statement.values, LayerField.values, h]
  have hgroups : ∀ g, (groupFields g).flatMap st.values =
      (st.challenges.inputGroups[g]?).elim [] fun ch =>
        ch.rlcCoeffs ++ [ch.podpChallenge] ++ ch.lBindings ++ ch.rBindings := by
    intro g
    cases h : st.challenges.inputGroups[g]? <;>
      simp [groupFields, Groth16Statement.values, GroupField.values, h]
  have hpoints : ∀ p, st.values (.pubClaimPoint p) = (st.pubClaimPoints[p]?).elim [] id := by
    intro p
    cases h : st.pubClaimPoints[p]? <;> simp [Groth16Statement.values, h]
  simp only [flatMap_fields, hlayers, hgroups, hpoints, ← flatMap_eq_flatMap_range]
  simp only [Groth16Statement.words, buildDAGGroth16Inputs, Groth16Statement.values,
    List.flatMap_id, List.append_assoc, List.cons_append, List.nil_append]

section Alignment

variable {α : Type} {values : Field → List α}

/-- Nothing is said about the layers, groups and points beyond the given numbers. -/
structure EmptyBeyond (values : Field → List α) (numLayers numGroups numPoints : ℕ) : Prop where
  layer : ∀ i field, numLayers ≤ i → values (.layer i field) = []
  inputGroup : ∀ g field, numGroups ≤ g → values (.inputGroup g field) = []
  pubClaimPoint : ∀ p, numPoints ≤ p → values (.pubClaimPoint p) = []

theorem EmptyBeyond.flatMap_fields {l g p l' g' p' : ℕ} (h : EmptyBeyond values l g p)
    (hl : l ≤ l') (hg : g ≤ g') (hp : p ≤ p') :
    (fields l' g' p').flatMap values = (fields l g p).flatMap values := by
  have hlayers := @flatMap_range_of_le _ l l' (fun i => (layerFields i).flatMap values) hl
    (fun i hi => by simp [layerFields, h.layer i _ hi])
  have hgroups := @flatMap_range_of_le _ g g' (fun i => (groupFields i).flatMap values) hg
    (fun i hi => by simp [groupFields, h.inputGroup i _ hi])
  have hpoints := @flatMap_range_of_le _ p p' (fun i => values (.pubClaimPoint i)) hp
    h.pubClaimPoint
  rw [Groth16Layout.flatMap_fields, Groth16Layout.flatMap_fields, hlayers, hgroups, hpoints]

theorem emptyBeyond_values (st : Groth16Statement) :
    EmptyBeyond st.values st.challenges.layers.length st.challenges.inputGroups.length
      st.pubClaimPoints.length := by
  constructor
  · intro i field hi
    simp [Groth16Statement.values, List.getElem?_eq_none hi]
  · intro g field hg
    simp [Groth16Statement.values, List.getElem?_eq_none hg]
  · intro p hp
    simp [Groth16Statement.values, List.getElem?_eq_none hp]

theorem emptyBeyond_readPlaces (config : WrapperConfig) (st : Groth16Statement) :
    EmptyBeyond (fun field => readPlaces (config.size field) (st.values field))
      config.layers.length config.inputGroups.length config.pubClaimNumVars.length := by
  constructor
  · intro i field hi
    simp [readPlaces, WrapperConfig.size, List.getElem?_eq_none hi]
  · intro g field hg
    simp [readPlaces, WrapperConfig.size, List.getElem?_eq_none hg]
  · intro p hp
    simp [readPlaces, WrapperConfig.size, List.getElem?_eq_none hp]

theorem mem_fields {field : Field} {l g p : ℕ} :
    field ∈ fields l g p ↔
      match field with
      | .layer i _ => i < l
      | .inputGroup i _ => i < g
      | .pubClaimPoint i => i < p
      | _ => True := by
  cases field with
  | layer i field => cases field <;> simp [fields, layerFields, groupFields]
  | inputGroup i field => cases field <;> simp [fields, layerFields, groupFields]
  | _ => simp [fields, layerFields, groupFields]

/-- The words are aligned exactly when the statement has as many values for each field as the
circuit was compiled with. -/
theorem aligned_iff_sizes (config : WrapperConfig) (st : Groth16Statement) :
    Aligned config st ↔ ∀ field, config.size field = (st.values field).length := by
  have hvariables : (publicVariables config).map st.valueOf =
      (fields config.layers.length config.inputGroups.length
        config.pubClaimNumVars.length).flatMap
          fun field => readPlaces (config.size field) (st.values field) := by
    simp only [publicVariables, List.map_flatMap, List.map_map, readPlaces]
    rfl
  -- both sides are written over the same fields, with empty ones beyond their own numbers
  rw [Aligned, hvariables, words_eq_flatMap_fields,
    ← (emptyBeyond_readPlaces config st).flatMap_fields (le_max_left _ _) (le_max_left _ _)
      (le_max_left _ _),
    ← (emptyBeyond_values st).flatMap_fields (le_max_right _ _) (le_max_right _ _)
      (le_max_right _ _), flatMap_readPlaces_eq_iff]
  constructor
  · intro h field
    by_cases hfield : field ∈ fields (max config.layers.length st.challenges.layers.length)
        (max config.inputGroups.length st.challenges.inputGroups.length)
        (max config.pubClaimNumVars.length st.pubClaimPoints.length)
    · exact h field hfield
    · rw [mem_fields] at hfield
      cases field <;> simp only [not_lt, sup_le_iff, not_true_eq_false] at hfield
      · simp [WrapperConfig.size, Groth16Statement.values, List.getElem?_eq_none hfield.1,
          List.getElem?_eq_none hfield.2]
      · simp [WrapperConfig.size, Groth16Statement.values, List.getElem?_eq_none hfield.1,
          List.getElem?_eq_none hfield.2]
      · simp [WrapperConfig.size, Groth16Statement.values, List.getElem?_eq_none hfield.1,
          List.getElem?_eq_none hfield.2]
  · intro h field _
    exact h field

end Alignment

/-! ## The counts of a proof that reaches the call -/

theorem length_popTranscript (b : Backend) (pops : List ProofOfProduct) (s : Sponge) :
    (popTranscript b pops s).1.length = pops.length := by
  induction pops generalizing s with
  | nil => rfl
  | cons pop pops ih => rw [popTranscript, List.length_cons, List.length_cons, ih]

/-- The challenges of a layer are as many as its claims, messages and PoPs. -/
structure LayerCounts (desc : DAGCircuitDescription) (i : ℕ) (lp : CommittedLayerProof)
    (ch : LayerChallenges) : Prop where
  rlcCoeffs : ch.rlcCoeffs.length = numLayerClaims desc i
  bindings : ch.bindings.length = lp.sumcheckProof.messages.length
  rhos : ch.rhos.length = lp.sumcheckProof.messages.length + 1
  gammas : ch.gammas.length = lp.sumcheckProof.messages.length
  popChallenges : ch.popChallenges.length = lp.pops.length

theorem layerCounts_replayOneLayer (desc : DAGCircuitDescription) (i : ℕ)
    (lp : CommittedLayerProof) (s : Sponge) :
    LayerCounts desc i lp (replayOneLayer i lp desc s) := by
  constructor <;> simp [replayOneLayer, layerChallenges, length_popTranscript]

theorem replayLayers_counts {proof : GKRProof} {desc : DAGCircuitDescription} {is : List ℕ}
    {s s' : Sponge} {chs : List LayerChallenges}
    (h : replayLayers proof desc is s = .ok (chs, s')) :
    List.Forall₂ (fun i ch => ∃ lp, proof.layerProofs[i]? = some lp ∧ LayerCounts desc i lp ch) is
      chs := by
  induction is generalizing s chs with
  | nil =>
    obtain ⟨rfl, rfl⟩ := Prod.mk.inj (pure_eq_ok.mp h)
    exact .nil
  | cons i is ih =>
    simp only [replayLayers, bind_eq_ok, getIdx_eq_ok, pure_eq_ok, Prod.mk.injEq] at h
    obtain ⟨lp, hlp, ⟨rest, s₁⟩, hrest, rfl, rfl⟩ := h
    exact .cons ⟨lp, hlp, layerCounts_replayOneLayer desc i lp s⟩ (ih hrest)

/-- The counts that hold of every proof that reaches the Groth16 call. -/
structure CallCounts (call : Groth16Call) : Prop where
  output : ∃ lp, call.decoded.gkrProof.layerProofs[0]? = some lp ∧
    call.statement.challenges.outputChallenges.length = lp.sumcheckProof.messages.length
  numLayers : call.statement.challenges.layers.length = call.config.description.numComputeLayers
  layer : ∀ i ch, call.statement.challenges.layers[i]? = some ch →
    ∃ lp, call.decoded.gkrProof.layerProofs[i]? = some lp ∧
      LayerCounts call.config.description i lp ch
  publicInputValues : call.statement.publicInputValues = call.decoded.embeddedPubInputs
  rlcBeta : call.statement.outputs.rlcBeta.length = call.config.description.numComputeLayers
  zDotJStar : call.statement.outputs.zDotJStar.length = call.config.description.numComputeLayers
  lTensorFlat : call.statement.outputs.lTensorFlat.length =
    (call.statement.challenges.inputGroups.map lTensorSize).sum
  zDotR : call.statement.outputs.zDotR.length = call.statement.challenges.inputGroups.length
  mleEval : call.statement.outputs.mleEval.length = call.statement.pubClaimPoints.length

theorem length_collectPubClaimPoints {desc : DAGCircuitDescription} {allBindings : List (List ℕ)}
    {points : List (List ℕ)} (h : collectPubClaimPoints desc allBindings = .ok points) :
    countDAGPublicClaims desc = .ok points.length := by
  simp only [collectPubClaimPoints, solBackend, bind_eq_ok, require_eq_ok, decide_eq_true_eq,
    pure_eq_ok] at h
  obtain ⟨is, his, raw, -, _, hle, rfl⟩ := h
  simp only [countDAGPublicClaims, bind_eq_ok, pure_eq_ok]
  refine ⟨is, his, ?_⟩
  rw [List.length_append, List.length_replicate, Nat.add_sub_cancel' hle]

theorem callCounts_of_groth16Call {c : Contract} {innerProof gensData : List UInt8}
    {circuitHash : ℕ} {groth16Outputs : List ℕ} {call : Groth16Call}
    (h : groth16Call c innerProof circuitHash gensData groth16Outputs = .ok call) :
    CallCounts call := by
  simp only [groth16Call, bind_eq_ok, pure_eq_ok, liftVerifier_eq_ok] at h
  obtain ⟨_, -, config, -, _, -, _, -, decoded, -, challenges, hreplay, outputs, hparse, points,
    hpoints, rfl⟩ := h
  simp only [replayDAGTranscriptFull, outputPhase, bind_eq_ok, pure_eq_ok, getIdx_eq_ok] at hreplay
  obtain ⟨_, ⟨first, hfirst, outputEval, -, rfl⟩, ⟨layers, s⟩, hlayers, groups, -, rfl⟩ := hreplay
  have hcounts := replayLayers_counts hlayers
  simp only [parseDAGGroth16Outputs, computeLTensorOffsets, bind_eq_ok, pure_eq_ok,
    liftVerifier_eq_ok, require_eq_ok, decide_eq_true_eq, beq_iff_eq] at hparse
  obtain ⟨p, hp, _, hlong, offsets, ⟨_, htensor, -⟩, rfl⟩ := hparse
  have hp' : p = points.length := by
    rw [length_collectPubClaimPoints hpoints] at hp
    exact (Except.ok.inj hp).symm
  constructor
  · exact ⟨first, hfirst, by simp⟩
  · simpa using hcounts.length_eq.symm
  · intro i ch hch
    obtain ⟨hlt, hget⟩ := List.getElem?_eq_some_iff.mp hch
    have hlt' : i < (List.range config.description.numComputeLayers).length := by
      rw [hcounts.length_eq]
      exact hlt
    obtain ⟨lp, hlp, hlc⟩ := (List.forall₂_iff_get.mp hcounts).2 i hlt' hlt
    simp only [List.get_eq_getElem, List.getElem_range] at hlp hlc
    rw [hget] at hlc
    exact ⟨lp, hlp, hlc⟩
  · rfl
  · simp; omega
  · simp; omega
  · simp; omega
  · simp; omega
  · simp; omega

/-- The proof has the counts that the wrapper circuit was compiled with. -/
structure ProofCounts (config : WrapperConfig) (call : Groth16Call) : Prop where
  output : ∀ lp, call.decoded.gkrProof.layerProofs[0]? = some lp →
    config.outputNumVars = lp.sumcheckProof.messages.length
  numLayers : config.layers.length = call.config.description.numComputeLayers
  layer : ∀ i layer lp, config.layers[i]? = some layer →
    call.decoded.gkrProof.layerProofs[i]? = some lp →
      layer.numClaims = numLayerClaims call.config.description i ∧
        layer.numVars = lp.sumcheckProof.messages.length ∧ layer.popLen = lp.pops.length
  inputGroups : config.inputGroups.map (fun group =>
      (group.numClaims, group.lHalfLen, group.rHalfLen)) =
    call.statement.challenges.inputGroups.map fun ch =>
      (ch.rlcCoeffs.length, ch.lBindings.length, ch.rBindings.length)
  pubClaimPoints : config.pubClaimNumVars = call.statement.pubClaimPoints.map List.length
  publicInputValues : config.pubInputCount = call.decoded.embeddedPubInputs.length

section Counts

variable {config : WrapperConfig} {call : Groth16Call}

theorem proofCounts_of_sizes (hcounts : CallCounts call)
    (h : ∀ field, config.size field = (call.statement.values field).length) :
    ProofCounts config call := by
  have hnumLayers : config.layers.length = call.config.description.numComputeLayers :=
    (h .rlcBeta).trans hcounts.rlcBeta
  constructor
  · intro lp hlp
    obtain ⟨first, hfirst, hlen⟩ := hcounts.output
    obtain rfl := Option.some.inj (hlp.symm.trans hfirst)
    exact (h .outputChallenges).trans hlen
  · exact hnumLayers
  · intro i layer lp hlayer hlp
    obtain ⟨hlt, -⟩ := List.getElem?_eq_some_iff.mp hlayer
    have hlt' : i < call.statement.challenges.layers.length := by
      rw [hcounts.numLayers, ← hnumLayers]
      exact hlt
    have hch := List.getElem?_eq_getElem hlt'
    obtain ⟨lp', hlp', hlc⟩ := hcounts.layer i _ hch
    obtain rfl := Option.some.inj (hlp.symm.trans hlp')
    have hcoeffs := h (.layer i .rlcCoeffs)
    have hbindings := h (.layer i .bindings)
    have hpops := h (.layer i .popChallenges)
    simp only [WrapperConfig.size, Groth16Statement.values, hlayer, hch, Option.elim_some,
      LayerField.size, LayerField.values] at hcoeffs hbindings hpops
    exact ⟨hcoeffs.trans hlc.rlcCoeffs, hbindings.trans hlc.bindings,
      hpops.trans hlc.popChallenges⟩
  · apply map_eq_map_of_getElem? ((h .zDotR).trans hcounts.zDotR)
    intro g group ch hgroup hch
    have hcoeffs := h (.inputGroup g .rlcCoeffs)
    have hleft := h (.inputGroup g .lBindings)
    have hright := h (.inputGroup g .rBindings)
    simp only [WrapperConfig.size, Groth16Statement.values, hgroup, hch, Option.elim_some,
      GroupField.size, GroupField.values] at hcoeffs hleft hright
    rw [hcoeffs, hleft, hright]
  · have hmap := map_eq_map_of_getElem? (f := id) (g := List.length)
      ((h .mleEval).trans hcounts.mleEval) (fun p n point hn hpoint => by
        have hp := h (.pubClaimPoint p)
        simpa [WrapperConfig.size, Groth16Statement.values, hn, hpoint] using hp)
    rwa [List.map_id] at hmap
  · exact (h .publicInputValues).trans (congrArg List.length hcounts.publicInputValues)

theorem sizes_of_proofCounts (hcounts : CallCounts call) (h : ProofCounts config call)
    (field : Field) : config.size field = (call.statement.values field).length := by
  have hgroups : config.inputGroups.length = call.statement.challenges.inputGroups.length := by
    simpa using congrArg List.length h.inputGroups
  have hgroup : ∀ g : ℕ, (config.inputGroups[g]?).map (fun group =>
      (group.numClaims, group.lHalfLen, group.rHalfLen)) =
      (call.statement.challenges.inputGroups[g]?).map fun ch =>
        (ch.rlcCoeffs.length, ch.lBindings.length, ch.rBindings.length) := by
    intro g
    rw [← List.getElem?_map, ← List.getElem?_map, h.inputGroups]
  cases field with
  | circuitHash => rfl
  | outputChallenges =>
    obtain ⟨first, hfirst, hlen⟩ := hcounts.output
    exact (h.output first hfirst).trans hlen.symm
  | layer i field =>
    have hlen : config.layers.length = call.statement.challenges.layers.length :=
      h.numLayers.trans hcounts.numLayers.symm
    rcases Nat.lt_or_ge i config.layers.length with hi | hi
    · have hlayer := List.getElem?_eq_getElem hi
      have hch := List.getElem?_eq_getElem (hlen ▸ hi)
      obtain ⟨lp, hlp, hlc⟩ := hcounts.layer i _ hch
      obtain ⟨hclaims, hvars, hpops⟩ := h.layer i _ lp hlayer hlp
      simp only [WrapperConfig.size, Groth16Statement.values, hlayer, hch, Option.elim_some]
      cases field with
      | rlcCoeffs => exact hclaims.trans hlc.rlcCoeffs.symm
      | bindings => exact hvars.trans hlc.bindings.symm
      | rhos => exact (congrArg (· + 1) hvars).trans hlc.rhos.symm
      | gammas => exact hvars.trans hlc.gammas.symm
      | podpChallenge => rfl
      | popChallenges => exact hpops.trans hlc.popChallenges.symm
    · simp [WrapperConfig.size, Groth16Statement.values, List.getElem?_eq_none hi,
        List.getElem?_eq_none (hlen ▸ hi)]
  | inputGroup g field =>
    have hg := hgroup g
    simp only [WrapperConfig.size, Groth16Statement.values]
    cases hc : config.inputGroups[g]? <;>
      cases hs : call.statement.challenges.inputGroups[g]? <;>
      simp only [hc, hs, Option.map_none, Option.map_some, Option.some.injEq, Prod.mk.injEq,
        reduceCtorEq] at hg
    · rfl
    · cases field with
      | rlcCoeffs => exact hg.1
      | podpChallenge => rfl
      | lBindings => exact hg.2.1
      | rBindings => exact hg.2.2
  | pubClaimPoint p =>
    simp only [WrapperConfig.size, Groth16Statement.values, h.pubClaimPoints, List.getElem?_map]
    cases call.statement.pubClaimPoints[p]? <;> rfl
  | publicInputValues =>
    exact h.publicInputValues.trans (congrArg List.length hcounts.publicInputValues.symm)
  | rlcBeta => exact h.numLayers.trans hcounts.rlcBeta.symm
  | zDotJStar => exact h.numLayers.trans hcounts.zDotJStar.symm
  | lTensorFlat =>
    refine Eq.trans ?_ hcounts.lTensorFlat.symm
    have hmap := congrArg (List.map fun counts : ℕ × ℕ × ℕ =>
      counts.1 * solBackend.shl1 counts.2.1) h.inputGroups
    rw [List.map_map, List.map_map] at hmap
    simp only [WrapperConfig.size]
    refine (congrArg List.sum ?_).trans (congrArg List.sum hmap)
    apply List.map_congr_left
    intro group hmem
    have hlt : group.lHalfLen < 256 := (config.fits group hmem).trans (by decide)
    simp [solBackend, hlt]
  | zDotR => exact hgroups.trans hcounts.zDotR.symm
  | mleEval =>
    refine Eq.trans ?_ hcounts.mleEval.symm
    simp [WrapperConfig.size, h.pubClaimPoints]

end Counts

/-! ## Chunk proofs -/

/-- The public variables of `ChunkedECBatchCircuit`. -/
inductive ChunkVariable
  | transcriptDigest
  | circuitHashLo
  | circuitHashHi
  | opsDigest
  | chunkIndex
  | totalChunks
deriving DecidableEq, Repr

/-- They are flattened in the order in which they are declared. -/
def chunkVariables : List ChunkVariable :=
  [.transcriptDigest, .circuitHashLo, .circuitHashHi, .opsDigest, .chunkIndex, .totalChunks]

/-- The arguments of `buildChunkedGroth16Inputs`, less the expected number of words. -/
structure ChunkStatement where
  transcriptDigest : ℕ
  circuitHash : ℕ
  chunkIndex : ℕ
  totalChunks : ℕ
  opsDigest : ℕ
deriving DecidableEq, Repr

def ChunkStatement.valueOf (st : ChunkStatement) : ChunkVariable → ℕ
  | .transcriptDigest => st.transcriptDigest % FR_MOD
  | .circuitHashLo => (hashToFqPair (wordToBeBytes st.circuitHash)).1
  | .circuitHashHi => (hashToFqPair (wordToBeBytes st.circuitHash)).2
  | .opsDigest => st.opsDigest
  | .chunkIndex => st.chunkIndex
  | .totalChunks => st.totalChunks

/-- `buildChunkedGroth16Inputs`. -/
def buildChunkedGroth16Inputs (st : ChunkStatement) (expectedCount : ℕ) : Call (List ℕ) := do
  let totalInputs := if 0 < expectedCount ∧ expectedCount ≠ 6 then expectedCount else 6
  require (decide (5 ≤ totalInputs)) .panicIndexOutOfBounds
  let (lo, hi) := hashToFqPair (wordToBeBytes st.circuitHash)
  pure ([st.transcriptDigest % FR_MOD, lo, hi, st.chunkIndex, st.totalChunks] ++
    if 5 < totalInputs then st.opsDigest :: List.replicate (totalInputs - 6) 0 else [])

/-- Every word is the value of the public variable at its place. -/
def ChunkAligned (st : ChunkStatement) (words : List ℕ) : Prop :=
  words = chunkVariables.map st.valueOf

/-- The words put the operations digest last, the circuit declares it before the index: they agree
only if the digest, the index and the number of chunks are equal. -/
theorem chunkIndex_eq_of_chunkAligned {st : ChunkStatement} {expectedCount : ℕ} {words : List ℕ}
    (h : buildChunkedGroth16Inputs st expectedCount = .ok words) (haligned : ChunkAligned st words) :
    st.chunkIndex = st.opsDigest ∧ st.totalChunks = st.chunkIndex := by
  simp only [buildChunkedGroth16Inputs, bind_eq_ok, pure_eq_ok] at h
  obtain ⟨_, -, rfl⟩ := h
  simp only [ChunkAligned, chunkVariables, ChunkStatement.valueOf, List.map_cons, List.map_nil,
    List.cons_append, List.nil_append, List.cons.injEq] at haligned
  exact ⟨haligned.2.2.2.1, haligned.2.2.2.2.1⟩

/-! ## Both layouts -/

/-- The words of `buildDAGGroth16Inputs` are the public variables of the wrapper circuit in their
order exactly when the inner proof has the counts that the circuit was compiled with, and the words
of no chunk are the public variables of the chunk circuit in their order. -/
theorem groth16Layout_iff_proofCounts (config : WrapperConfig) :
    (∀ (c : Contract) (innerProof : List UInt8) (circuitHash : ℕ) (gensData : List UInt8)
      (groth16Outputs : List ℕ) (call : Groth16Call),
      groth16Call c innerProof circuitHash gensData groth16Outputs = .ok call →
        (Aligned config call.statement ↔ ProofCounts config call)) ∧
      ∀ (st : ChunkStatement) (expectedCount : ℕ) (words : List ℕ),
        st.chunkIndex < st.totalChunks →
          buildChunkedGroth16Inputs st expectedCount = .ok words → ¬ChunkAligned st words := by
  constructor
  · intro c innerProof circuitHash gensData groth16Outputs call hcall
    have hcounts := callCounts_of_groth16Call hcall
    rw [aligned_iff_sizes]
    constructor
    · exact proofCounts_of_sizes hcounts
    · exact sizes_of_proofCounts hcounts
  · intro st expectedCount words hlt hwords haligned
    obtain ⟨-, htotal⟩ := chunkIndex_eq_of_chunkAligned hwords haligned
    omega

/-! A circuit with one layer of one round, and proofs for it that have no message and a number of
PoPs instead. -/

def oneRoundConfig : DAGCircuitConfig where
  circuitHash := 1
  description := ⟨1, 1, [0], [1], [0, 0], [], [], [0], [], [false], [0, 0], [], []⟩
  active := true
  gensHash := 0
  hash_ne_zero := Nat.one_ne_zero
  hash_lt := one_lt_word
  abi := by decide
  checked := by decide

def zeroPop : ProofOfProduct :=
  ⟨G1Point.INFINITY, G1Point.INFINITY, G1Point.INFINITY, 0, 0, 0, 0, 0⟩

def messagelessProof (numPops : ℕ) : DecodedProof :=
  ⟨⟨[G1Point.INFINITY], [⟨⟨G1Point.INFINITY, [], ⟨G1Point.INFINITY, G1Point.INFINITY, [], 0, 0⟩⟩,
    [], List.replicate numPops zeroPop⟩]⟩, [], [], []⟩

def messagelessBytes (numPops : ℕ) : List UInt8 :=
  SELECTOR ++ ([0, 0, 1, 0, 0, 1] ++ List.replicate 11 0 ++ [numPops] ++
    List.replicate (11 * numPops + 4) 0).flatMap wordToBeBytes

/-- A wrapper for one layer without rounds and PoPs. -/
def noRoundWrapper : WrapperConfig := ⟨[⟨0, 2, 1⟩], 0, [], [], 0, by simp⟩

/-- The wrapper of the circuit: one round, and no PoP. -/
def oneRoundWrapper : WrapperConfig := ⟨[⟨1, 2, 1⟩], 1, [], [], 0, by simp⟩

/-- What is left of the call after a proof without public inputs and commitments is decoded. -/
theorem groth16Call_messageless {numPops : ℕ}
    (hdecoded : decodeProofForDag (calldataReader ((messagelessBytes numPops).drop 4)) =
      .ok (messagelessProof numPops)) :
    groth16Call (Contract.single oneRoundConfig) (messagelessBytes numPops) 1 [] [0, 0] = (do
      let challenges ← liftVerifier (replayDAGTranscriptFull (messagelessProof numPops).gkrProof
        oneRoundConfig.description [] (absorbPair solOps (absorbPair solOps (absorbPair solOps init
          (hashToFqPair (wordToBeBytes 1))) (sha256HashChain [])) (sha256HashChain [])))
      let outputs ← parseDAGGroth16Outputs [0, 0] oneRoundConfig.description challenges
      let pubClaimPoints ←
        liftVerifier (collectPubClaimPoints oneRoundConfig.description challenges.allBindings)
      pure ⟨oneRoundConfig, messagelessProof numPops, hashToFqPair (wordToBeBytes 1), challenges,
        pubClaimPoints, [], outputs⟩) := by
  have hcircuit : activeCircuit (Contract.single oneRoundConfig) 1 = .ok oneRoundConfig :=
    activeCircuit_single rfl
  have hformat : checkProofFormat (messagelessBytes numPops) = .ok () :=
    checkProofFormat_selector _
  rw [groth16Call, hcircuit, hformat, hdecoded]
  rfl

theorem decode_messageless_four :
    decodeProofForDag (calldataReader ((messagelessBytes 4).drop 4)) =
      .ok (messagelessProof 4) := by
  have hdrop : (messagelessBytes 4).drop 4 = ([0, 0, 1, 0, 0, 1] ++ List.replicate 11 0 ++ [4] ++
      List.replicate (11 * 4 + 4) 0).flatMap wordToBeBytes := rfl
  rw [hdrop, calldataReader_flatMap_wordToBeBytes (by decide)]
  decide

theorem decode_messageless_zero :
    decodeProofForDag (calldataReader ((messagelessBytes 0).drop 4)) =
      .ok (messagelessProof 0) := by
  have hdrop : (messagelessBytes 0).drop 4 = ([0, 0, 1, 0, 0, 1] ++ List.replicate 11 0 ++ [0] ++
      List.replicate (11 * 0 + 4) 0).flatMap wordToBeBytes := rfl
  rw [hdrop, calldataReader_flatMap_wordToBeBytes (by decide)]
  decide

/-- Without PoPs the words are those of a wrapper for a layer without rounds; and a chunk. -/
theorem messageless_aligned :
    (∃ call, groth16Call (Contract.single oneRoundConfig) (messagelessBytes 0) 1 [] [0, 0] =
      .ok call ∧ Aligned noRoundWrapper call.statement) ∧
      ¬ChunkAligned ⟨5, 1, 0, 1, 7⟩ [5, 0, 2 ^ 120, 0, 1, 7] := by
  have hlayout := groth16Layout_iff_proofCounts noRoundWrapper
  have hcall : okAnd (groth16Call (Contract.single oneRoundConfig) (messagelessBytes 0) 1 [] [0, 0])
      (fun call => call.config.description == oneRoundConfig.description &&
        call.decoded == messagelessProof 0 && call.statement.challenges.inputGroups == [] &&
        call.statement.pubClaimPoints == []) = true := by
    rw [groth16Call_messageless decode_messageless_zero, sha256HashChain_nil]
    decide
  obtain ⟨call, hcall, hcheck⟩ := okAnd_eq_true.mp hcall
  simp only [Bool.and_eq_true, beq_iff_eq] at hcheck
  obtain ⟨⟨⟨hdesc, hdecoded⟩, hgroups⟩, hpoints⟩ := hcheck
  refine ⟨⟨call, hcall, (hlayout.1 _ _ _ _ _ call hcall).mpr ?_⟩,
    hlayout.2 ⟨5, 1, 0, 1, 7⟩ 6 _ Nat.one_pos (by decide)⟩
  constructor
  · intro lp hlp
    rw [hdecoded] at hlp
    obtain rfl := Option.some.inj hlp
    rfl
  · rw [hdesc]
    rfl
  · intro i layer lp hlayer hlp
    rw [hdecoded] at hlp
    rw [hdesc]
    cases i with
    | zero =>
      obtain rfl := Option.some.inj hlayer
      obtain rfl := Option.some.inj hlp
      decide
    | succ i => cases hlayer
  · rw [hgroups]
    rfl
  · rw [hpoints]
    rfl
  · rw [hdecoded]
    rfl

/-- Four PoPs in place of the output challenge, the binding, the second `rho` and the `gamma`: the
same number of words, in the places of other variables. -/
theorem messageless_not_aligned :
    (∃ call, groth16Call (Contract.single oneRoundConfig) (messagelessBytes 4) 1 [] [0, 0] =
      .ok call ∧ call.statement.words.length = (publicVariables oneRoundWrapper).length ∧
        ¬Aligned oneRoundWrapper call.statement) ∧
      ∃ words, buildChunkedGroth16Inputs ⟨5, 1, 0, 1, 7⟩ 6 = .ok words ∧
        ¬ChunkAligned ⟨5, 1, 0, 1, 7⟩ words := by
  constructor
  · have hcall : okAnd (groth16Call (Contract.single oneRoundConfig) (messagelessBytes 4) 1 [] [0, 0])
        (fun call => call.statement.words.length == (publicVariables oneRoundWrapper).length &&
          !decide (Aligned oneRoundWrapper call.statement)) = true := by
      rw [groth16Call_messageless decode_messageless_four, sha256HashChain_nil]
      decide
    obtain ⟨call, hcall, hcheck⟩ := okAnd_eq_true.mp hcall
    simp only [Bool.and_eq_true, beq_iff_eq, Bool.not_eq_true', decide_eq_false_iff_not] at hcheck
    exact ⟨call, hcall, hcheck⟩
  · refine ⟨_, rfl, ?_⟩
    unfold ChunkAligned
    decide

end WorldZk.Groth16Layout
