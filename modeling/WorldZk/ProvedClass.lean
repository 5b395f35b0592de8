import WorldZk.CircuitCompleteness
import WorldZk.CircuitDescription
import WorldZk.Sha256

/-!
# The class beside a proof

`build_and_prove` proves the sum of the leaves that an inference reaches, and returns the class that
it was given next to the proof. The class takes no part in the circuit. The proved sum decides the
class of an exact model with one score, and it does not decide between several classes.
-/

namespace WorldZk.ProvedClass

open CheckedRuns CircuitCompleteness CircuitPreparation DecisionTrees InferenceCircuit
open InferenceWitness Sha256 TreeEnsemble
open CircuitDescription (buildCircuitDescription quantize_of_exact toBeBytes)

/-- The proof system, and the encoding of its proofs for the contracts. -/
structure HyraxProver where
  Proof : Type
  /-- What the prover draws at random. -/
  Blinding : Type
  /-- Proves that all outputs of the circuit are zero, and verifies the proof. -/
  prove : CircuitShape → ℕ → CircuitValues Fr → Blinding → Option Proof
  encodeHyraxProof : Proof → List UInt8 → Option (List UInt8)

section Prove

variable {K : Type} [Field K] [LinearOrder K] [FloorRing K]

/-- `build_and_prove`: the bytes of the proof, the hash of the circuit and the public inputs. -/
def buildAndProve (hyrax : HyraxProver) (blinding : hyrax.Blinding) (model : XgboostModel K)
    (features : List K) (predictedClass : UInt32) :
    Option (List UInt8 × List UInt8 × List UInt8) := do
  let inputs ← prepareCircuitInputs model features
  -- the circuit is asserted to have a level
  if inputs.maxDepth = 0 then none
  else
    let proof ← hyrax.prove (shape inputs) inputs.numFeaturesPadded (inputValues inputs) blinding
    let circuitHash := sha256 (buildCircuitDescription model)
    let proofBytes ← hyrax.encodeHyraxProof proof circuitHash
    pure (proofBytes, circuitHash, toBeBytes 4 predictedClass.toNat)

/-- The inputs that a verifier of the circuit sees. -/
structure PublicInputs where
  leafValues : List ℤ
  thresholds : List ℤ
  isReal : List ℤ
  expectedSum : ℤ

def publicInputs (inputs : CircuitInputs) : PublicInputs where
  leafValues := inputs.leafValuesPadded
  thresholds := inputs.thresholdsPadded
  isReal := inputs.isRealPadded
  expectedSum := inputs.expectedSum

/-- The features are proved, with these public inputs of the circuit. -/
def Proves (hyrax : HyraxProver) (model : XgboostModel K) (features : List K)
    (statement : PublicInputs) : Prop :=
  ∃ blinding predictedClass output inputs,
    buildAndProve hyrax blinding model features predictedClass = some output ∧
    prepareCircuitInputs model features = some inputs ∧ publicInputs inputs = statement

/-- A proof for the features tells their class: the class beside it is the predicted one, and other
features with the same public inputs of the circuit have it too. -/
structure BindsClass (hyrax : HyraxProver) (model : XgboostModel K) (features : List K) : Prop where
  class_eq : ∀ blinding predictedClass output,
    buildAndProve hyrax blinding model features predictedClass = some output →
      predict model features = some predictedClass.toNat
  class_unique : ∀ features' statement, Proves hyrax model features statement →
    Proves hyrax model features' statement → predict model features = predict model features'

variable {hyrax : HyraxProver} {blinding : hyrax.Blinding} {model : XgboostModel K}
  {features : List K}

/-- Of the public inputs only the sum depends on the features. -/
private theorem publicInputs_eq {features' : List K} {inputs inputs' : CircuitInputs}
    (h : prepareCircuitInputs model features = some inputs)
    (h' : prepareCircuitInputs model features' = some inputs')
    (hsum : inputs.expectedSum = inputs'.expectedSum) : publicInputs inputs = publicInputs inputs' := by
  simp only [prepareCircuitInputs, bind, Option.bind_eq_some_iff] at h h'
  obtain ⟨maxDepth, hmaxDepth, leafValues, hleafValues, _, -, _, -, _, -, tables, htables, h⟩ := h
  obtain ⟨maxDepth', hmaxDepth', leafValues', hleafValues', _, -, _, -, _, -, tables', htables', h'⟩ :=
    h'
  obtain rfl := Option.some.inj (hmaxDepth.symm.trans hmaxDepth')
  obtain rfl := Option.some.inj (hleafValues.symm.trans hleafValues')
  obtain rfl := Option.some.inj (htables.symm.trans htables')
  rw [publicInputs, publicInputs, hsum]
  cases h
  cases h'
  rfl

/-- A proof for one class is a proof for every class. -/
private theorem exists_buildAndProve {predictedClass : UInt32}
    {output : List UInt8 × List UInt8 × List UInt8}
    (h : buildAndProve hyrax blinding model features predictedClass = some output)
    (otherClass : UInt32) :
    buildAndProve hyrax blinding model features otherClass =
      some (output.1, output.2.1, toBeBytes 4 otherClass.toNat) := by
  simp only [buildAndProve, bind, Option.bind_eq_some_iff] at h ⊢
  obtain ⟨inputs, hinputs, h⟩ := h
  refine ⟨inputs, hinputs, ?_⟩
  split at h
  · cases h
  · next hdepth =>
    obtain ⟨proof, hproof, h⟩ := Option.bind_eq_some_iff.mp h
    obtain ⟨proofBytes, hencode, h⟩ := Option.bind_eq_some_iff.mp h
    cases h
    rw [if_neg hdepth, hproof, Option.bind_some, hencode, Option.bind_some]
    rfl

/-- No proof binds the class. -/
theorem not_bindsClass_of_proved {predictedClass : UInt32}
    {output : List UInt8 × List UInt8 × List UInt8}
    (h : buildAndProve hyrax blinding model features predictedClass = some output) :
    ¬ BindsClass hyrax model features := by
  intro hbinds
  have hfirst := hbinds.class_eq blinding predictedClass output h
  have hsecond := hbinds.class_eq blinding (predictedClass + 1) _
    (exists_buildAndProve h (predictedClass + 1))
  have heq := UInt32.toNat_inj.mp (Option.some.inj (hfirst.symm.trans hsecond))
  exact absurd heq (by grind)

end Prove

/-! ## What the sum decides -/

section Sum

variable {K : Type} [Field K] [LinearOrder K] [FloorRing K] {model : XgboostModel K}
  {features : List K} {values : List K}

/-- The leaves that the features lead to: exact values, with a sum that fits. -/
structure ExactLeaves (model : XgboostModel K) (features values : List K) : Prop where
  leaves : model.trees.mapM (fun tree => traverseTree tree features) = some values
  exact : ∀ value ∈ values,
    (∃ k : ℤ, value * FIXED_POINT_SCALE = k) ∧ CircuitDescription.InRange value
  fits : FitsI64 (values.map quantize).sum

private theorem expectedSum_eq {inputs : CircuitInputs} (hmodel : InRange model)
    (hlength : features.length = model.numFeatures)
    (hinputs : prepareCircuitInputs model features = some inputs)
    (h : ExactLeaves model features values) : inputs.expectedSum = (values.map quantize).sum := by
  obtain ⟨ts, hts⟩ := hmodel.exists_trees
  obtain ⟨inputs', hinputs', hwalks⟩ := exists_prepare hmodel hlength hts
  obtain rfl : inputs = inputs' := Option.some.inj (hinputs.symm.trans hinputs')
  have hdescribes := describesTrees_of_prepare hts hinputs
  obtain ⟨value, hvalue⟩ := exists_ends hdescribes.depth
    (fun _ t => turns (fun f => features.getD f 0) inputs.maxDepth t) (fun _ _ => length_turns)
  have hleaves := mapM_traverseTree hmodel hlength hts hdescribes.depth hvalue
  have hvalues : values = (List.range ts.length).map value :=
    Option.some.inj (h.leaves.symm.trans hleaves)
  have hfits := h.fits
  rw [hvalues, List.map_map] at hfits ⊢
  exact (hwalks.expectedSum value hvalue).trans (wrapI64_of_fitsI64 hfits)

end Sum

/-! ## Proofs with another class -/

section Stumps

instance {F : Type} [CommRing F] [DecidableEq F] (s : CircuitShape) (vals : CircuitValues F) :
    Decidable (AllZero s vals) :=
  inferInstanceAs (Decidable (∀ z < 2 ^ s.outputNv, combined s vals z = 0))

/-- A proof system that has a proof, of no bytes, exactly where all outputs are zero. -/
def zeroProver : HyraxProver where
  Proof := Unit
  Blinding := Unit
  prove := fun s _ vals _ => if AllZero s vals then some () else none
  encodeHyraxProof := fun _ _ => some []

private theorem buildAndProve_zeroProver {model : XgboostModel ℚ} {features : List ℚ}
    {inputs : CircuitInputs} (hinputs : prepareCircuitInputs model features = some inputs)
    (hdepth : 0 < inputs.maxDepth)
    (hzero : AllZero (shape inputs) (inputValues inputs : CircuitValues Fr))
    (predictedClass : UInt32) :
    buildAndProve zeroProver () model features predictedClass =
      some ([], sha256 (buildCircuitDescription model), toBeBytes 4 predictedClass.toNat) := by
  have hprove : zeroProver.prove (shape inputs) inputs.numFeaturesPadded (inputValues inputs) () =
      some () := if_pos hzero
  simp only [buildAndProve, hinputs, bind, Option.bind_some, if_neg hdepth.ne', hprove]
  rfl

private theorem stump_proved (predictedClass : UInt32) :
    ∃ output, buildAndProve zeroProver () (stumpModel 1) [2] predictedClass = some output := by
  obtain ⟨inputs, hinputs⟩ := exists_stumpInputs 1 2
  have hzero := (stump_allZero_iff hinputs ⟨by decide +kernel, by decide +kernel⟩).mpr
    (by decide +kernel)
  exact ⟨_, buildAndProve_zeroProver hinputs (stumpModel_sizes hinputs).1 hzero predictedClass⟩

theorem not_bindsClass_stump : ¬ BindsClass zeroProver (stumpModel 1) [2] := by
  obtain ⟨output, h⟩ := stump_proved 1
  exact not_bindsClass_of_proved h

/-- Two trees of three classes, with the same comparison and the leaves the other way round. -/
def threeClassModel : XgboostModel ℚ where
  numFeatures := 1
  numClasses := 3
  maxDepth := 1
  trees := [⟨[⟨0, 1, 1, 2, 0, false, zero_range⟩, ⟨-1, 0, 0, 0, 1, true, leaf_range⟩,
      ⟨-1, 0, 0, 0, 0, true, leaf_range⟩]⟩,
    ⟨[⟨0, 1, 1, 2, 0, false, zero_range⟩, ⟨-1, 0, 0, 0, 0, true, leaf_range⟩,
      ⟨-1, 0, 0, 0, 1, true, leaf_range⟩]⟩]
  baseScore := 0

def threeClassTrees : List (ThresholdTree ℚ) :=
  [.split 0 1 (.leaf 1) (.leaf 0), .split 0 1 (.leaf 0) (.leaf 1)]

private theorem threeClass_trees : List.Forall₂ (fun (tree : DecisionTree ℚ) t => tree.Holds t)
    threeClassModel.trees threeClassTrees :=
  .cons (.split rfl (.leaf rfl) (.leaf rfl)) (.cons (.split rfl (.leaf rfl) (.leaf rfl)) .nil)

private theorem threeClass_inRange : InRange threeClassModel where
  holds := by
    intro tree htree
    obtain ⟨i, hi, rfl⟩ := List.getElem_of_mem htree
    have htrees := threeClass_trees
    rw [List.forall₂_iff_get] at htrees
    exact ⟨_, htrees.2 i hi (by rw [← htrees.1]; exact hi)⟩
  features := by
    intro tree htree node hnode hleaf
    have hsplit : ∀ tree ∈ threeClassModel.trees, ∀ node ∈ tree.nodes, node.isLeaf = false →
        node.featureIndex = 0 := by decide
    rw [hsplit tree htree node hnode hleaf]
    exact ⟨le_rfl, Int.one_pos⟩

/-- A feature that the quantized comparison tells from the threshold is proved. -/
private theorem threeClass_proves {feature : ℚ} {values : List ℚ}
    (hrange : InDecompRange feature 1)
    (hagrees : 1 ≤ feature ↔ quantize (1 : ℚ) ≤ quantize feature)
    (hvalues : threeClassModel.trees.mapM (fun tree => traverseTree tree [feature]) = some values)
    (hfits : FitsI64 (values.map quantize).sum) :
    ∃ inputs, prepareCircuitInputs threeClassModel [feature] = some inputs ∧
      Proves zeroProver threeClassModel [feature] (publicInputs inputs) := by
  obtain ⟨inputs, hinputs, -⟩ := @exists_prepare ℚ _ _ _ threeClassModel _ [feature]
    threeClass_inRange rfl threeClass_trees
  have hdescribes := describesTrees_of_prepare threeClass_trees hinputs
  have hdepth : inputs.maxDepth = 1 := by
    have h := maxTreeDepth_of_prepare hinputs
    rw [maxTreeDepth_eq threeClass_trees, Option.some.injEq] at h
    exact h.symm
  have htrees : inputs.numTreesPadded = 2 := hdescribes.trees.trans (nextPowerOfTwo_two_pow 1)
  have hvt : (shape inputs).vtPadded = 2 := by
    change nextPowerOfTwo (inputs.maxDepth * inputs.numTreesPadded) = 2
    rw [hdepth, htrees]
    exact nextPowerOfTwo_two_pow 1
  have hsizes : FitsU32 inputs := by
    refine ⟨by rw [hvt, hdepth]; decide, ?_⟩
    change 1 + inputs.numTreesPadded * inputs.maxDepth + (shape inputs).vtPadded * inputs.decompK +
      (shape inputs).vtPadded + (shape inputs).vtPadded ≤ 2 ^ 32
    rw [hvt, htrees, hdepth, hdescribes.decompK]
    decide
  have hvisits : ∀ t ∈ threeClassTrees, ∀ f threshold,
      Visits (fun f => [feature].getD f 0) t f threshold → f = 0 ∧ threshold = 1 := by
    intro t ht f threshold hvisits
    simp only [threeClassTrees, List.mem_cons, List.not_mem_nil, or_false] at ht
    rcases ht with rfl | rfl
    · cases hvisits with
      | here => exact ⟨rfl, rfl⟩
      | left _ h => cases h
      | right _ h => cases h
    · cases hvisits with
      | here => exact ⟨rfl, rfl⟩
      | left _ h => cases h
      | right _ h => cases h
  have hzero : AllZero (shape inputs) (inputValues inputs : CircuitValues Fr) := by
    rw [allZero_iff_agrees threeClass_inRange rfl threeClass_trees hinputs (by rw [hdepth]; decide)
      hsizes (fun t ht f threshold h => by
        obtain ⟨rfl, rfl⟩ := hvisits t ht f threshold h
        exact hrange) hvalues]
    refine ⟨?_, hfits⟩
    intro t ht f threshold h
    obtain ⟨rfl, rfl⟩ := hvisits t ht f threshold h
    exact hagrees
  exact ⟨inputs, hinputs, (), 0, _, inputs,
    buildAndProve_zeroProver hinputs (by rw [hdepth]; decide) hzero 0, hinputs, rfl⟩

private theorem exact_bits {values : List ℚ} (h : ∀ value ∈ values, value = 0 ∨ value = 1) :
    ∀ value ∈ values,
      (∃ k : ℤ, value * FIXED_POINT_SCALE = k) ∧ CircuitDescription.InRange value := by
  intro value hvalue
  rcases h value hvalue with rfl | rfl
  · exact ⟨⟨0, by decide +kernel⟩, by decide +kernel, by decide +kernel⟩
  · exact ⟨⟨2 ^ 16, by decide +kernel⟩, by decide +kernel, by decide +kernel⟩

/-- A proof is returned with a class that is not predicted, and features of different classes are
proved with the same public inputs of the circuit. -/
theorem proved_class_free :
    (∃ output, buildAndProve zeroProver () (stumpModel 1) [2] 0 = some output ∧
      predict (stumpModel 1) [2] = some 1) ∧
    ∃ statement, Proves zeroProver threeClassModel [0] statement ∧
      Proves zeroProver threeClassModel [2] statement ∧
      predict threeClassModel [0] = some 0 ∧ predict threeClassModel [2] = some 1 := by
  have hfirst : ExactLeaves threeClassModel [0] [1, 0] :=
    ⟨by decide +kernel, exact_bits (by decide +kernel), by decide +kernel, by decide +kernel⟩
  have hsecond : ExactLeaves threeClassModel [2] [0, 1] :=
    ⟨by decide +kernel, exact_bits (by decide +kernel), by decide +kernel, by decide +kernel⟩
  obtain ⟨inputs, hinputs, hproves⟩ := threeClass_proves ⟨by decide +kernel, by decide +kernel⟩
    (by decide +kernel) hfirst.leaves hfirst.fits
  obtain ⟨inputs', hinputs', hproves'⟩ := threeClass_proves ⟨by decide +kernel, by decide +kernel⟩
    (by decide +kernel) hsecond.leaves hsecond.fits
  have hsum : inputs.expectedSum = inputs'.expectedSum := by
    rw [expectedSum_eq threeClass_inRange rfl hinputs hfirst,
      expectedSum_eq threeClass_inRange rfl hinputs' hsecond]
    decide +kernel
  rw [← publicInputs_eq hinputs hinputs' hsum] at hproves'
  obtain ⟨output, houtput⟩ := stump_proved 0
  exact ⟨⟨output, houtput, by decide +kernel⟩, publicInputs inputs, hproves, hproves',
    by decide +kernel, by decide +kernel⟩

end Stumps

end WorldZk.ProvedClass
