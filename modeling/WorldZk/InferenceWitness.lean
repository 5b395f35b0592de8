import WorldZk.Bn254Moduli
import WorldZk.CircuitPreparation
import Mathlib.Data.ZMod.Basic

/-!
# The committed inputs of one inference

For features that are all there, `prepare_circuit_inputs` returns, and its committed inputs follow
the walks through the trees: the turns at the nodes, the digits of the comparisons at the nodes on
the way, and the sum of the leaves at the ends.
-/

namespace WorldZk.InferenceWitness

open Bn254Moduli CheckedRuns CircuitPreparation DecisionTrees GateWirings InferenceCircuit
open TreeEnsemble

/-! ## Turns -/

section Turns

variable {K : Type} [LinearOrder K]

/-- The turns of a walk through a tree, filled up to a length with turns to the left. -/
def turns (x : ℕ → K) : ℕ → ThresholdTree K → List Bool
  | 0, _ => []
  | n + 1, .leaf _ => List.replicate (n + 1) false
  | n + 1, .split feature threshold left right =>
    if threshold ≤ x feature then true :: turns x n right else false :: turns x n left

/-- The comparisons that a walk makes. -/
inductive Visits (x : ℕ → K) : ThresholdTree K → ℕ → K → Prop
  | here {feature : ℕ} {threshold : K} {left right : ThresholdTree K} :
      Visits x (.split feature threshold left right) feature threshold
  | left {feature feature' : ℕ} {threshold threshold' : K} {left right : ThresholdTree K}
      (hturn : x feature < threshold) (hvisits : Visits x left feature' threshold') :
      Visits x (.split feature threshold left right) feature' threshold'
  | right {feature feature' : ℕ} {threshold threshold' : K} {left right : ThresholdTree K}
      (hturn : threshold ≤ x feature) (hvisits : Visits x right feature' threshold') :
      Visits x (.split feature threshold left right) feature' threshold'

/-- All features of a tree are below a number. -/
def FeaturesBelow (n : ℕ) : ThresholdTree K → Prop
  | .leaf _ => True
  | .split feature _ left right => feature < n ∧ FeaturesBelow n left ∧ FeaturesBelow n right

variable {x : ℕ → K} {n : ℕ} {t : ThresholdTree K}

theorem length_turns : (turns x n t).length = n := by
  induction n generalizing t with
  | zero => rfl
  | succ n ih =>
    cases t with
    | leaf value => exact List.length_replicate
    | split feature threshold left right =>
      rw [turns]
      split <;> rw [List.length_cons, ih]

theorem descend_turns {features : List K} (hx : ∀ f < features.length, features[f]? = some (x f))
    (hbelow : FeaturesBelow features.length t) (hdepth : t.depth ≤ n) :
    ∃ value, t.descend (turns x n t) = .leaf value ∧ t.eval features = some value := by
  induction n generalizing t with
  | zero =>
    cases t with
    | leaf value => exact ⟨value, rfl, rfl⟩
    | split feature threshold left right =>
      rw [ThresholdTree.depth] at hdepth
      omega
  | succ n ih =>
    cases t with
    | leaf value => exact ⟨value, ThresholdTree.descend_leaf _ _, rfl⟩
    | split feature threshold left right =>
      obtain ⟨hfeature, hleft, hright⟩ := hbelow
      rw [ThresholdTree.depth] at hdepth
      have hl := le_max_left left.depth right.depth
      have hr := le_max_right left.depth right.depth
      rw [turns, ThresholdTree.eval, hx feature hfeature]
      by_cases hturn : threshold ≤ x feature
      · obtain ⟨value, hend, heval⟩ := ih hright (by omega)
        refine ⟨value, ?_, ?_⟩
        · rw [if_pos hturn]
          exact hend
        · simp only [if_neg (not_lt.mpr hturn)]
          exact heval
      · obtain ⟨value, hend, heval⟩ := ih hleft (by omega)
        refine ⟨value, ?_, ?_⟩
        · rw [if_neg hturn]
          exact hend
        · simp only [if_pos (not_le.mp hturn)]
          exact heval

theorem visits_iff (hdepth : t.depth ≤ n) {feature : ℕ} {threshold : K} :
    Visits x t feature threshold ↔ ∃ k < n, ∃ left right,
      t.descend ((turns x n t).take k) = .split feature threshold left right := by
  induction n generalizing t with
  | zero =>
    cases t with
    | leaf value => exact ⟨fun h => (by cases h), fun ⟨k, hk, _⟩ => absurd hk (Nat.not_lt_zero k)⟩
    | split feature' threshold' left right =>
      rw [ThresholdTree.depth] at hdepth
      omega
  | succ n ih =>
    cases t with
    | leaf value =>
      constructor
      · intro h
        cases h
      · rintro ⟨k, -, left, right, h⟩
        rw [ThresholdTree.descend_leaf] at h
        cases h
    | split feature' threshold' left' right' =>
      rw [ThresholdTree.depth] at hdepth
      have hl := le_max_left left'.depth right'.depth
      have hr := le_max_right left'.depth right'.depth
      have hleft := @ih left' (by omega)
      have hright := @ih right' (by omega)
      by_cases hturn : threshold' ≤ x feature'
      · rw [turns, if_pos hturn]
        constructor
        · intro h
          cases h with
          | here => exact ⟨0, Nat.succ_pos n, left', right', rfl⟩
          | left hlt => exact absurd hturn (not_le.mpr hlt)
          | right _ hvisits =>
            obtain ⟨k, hk, l, r, h⟩ := hright.mp hvisits
            exact ⟨k + 1, by omega, l, r, h⟩
        · rintro ⟨k, hk, l, r, h⟩
          cases k with
          | zero =>
            cases h
            exact .here
          | succ k => exact .right hturn (hright.mpr ⟨k, by omega, l, r, h⟩)
      · rw [turns, if_neg hturn]
        constructor
        · intro h
          cases h with
          | here => exact ⟨0, Nat.succ_pos n, left', right', rfl⟩
          | right hle => exact absurd hle hturn
          | left _ hvisits =>
            obtain ⟨k, hk, l, r, h⟩ := hleft.mp hvisits
            exact ⟨k + 1, by omega, l, r, h⟩
        · rintro ⟨k, hk, l, r, h⟩
          cases k with
          | zero =>
            cases h
            exact .here
          | succ k => exact .left (not_le.mp hturn) (hleft.mpr ⟨k, by omega, l, r, h⟩)

theorem getElem?_turns {k feature : ℕ} {threshold : K} {left right : ThresholdTree K} (hk : k < n)
    (h : t.descend ((turns x n t).take k) = .split feature threshold left right) :
    (turns x n t)[k]? = some (decide (threshold ≤ x feature)) := by
  induction n generalizing t k with
  | zero => omega
  | succ n ih =>
    cases t with
    | leaf value =>
      rw [ThresholdTree.descend_leaf] at h
      cases h
    | split feature' threshold' left' right' =>
      by_cases hturn : threshold' ≤ x feature'
      · rw [turns, if_pos hturn] at h ⊢
        cases k with
        | zero =>
          cases h
          simp [hturn]
        | succ k => exact ih (by omega) h
      · rw [turns, if_neg hturn] at h ⊢
        cases k with
        | zero =>
          cases h
          simp [hturn]
        | succ k => exact ih (by omega) h

end Turns

/-! ## Walks through a table -/

section Walks

variable {K : Type} [Field K] [LinearOrder K] [FloorRing K] {tree : DecisionTree K}
  {t : ThresholdTree K} {features : List K} {x : ℕ → K} {i : ℕ}

omit [Field K] [LinearOrder K] [FloorRing K] in
theorem featuresBelow {n : ℕ} (h : Unfolds tree.view i t)
    (hrange : ∀ node ∈ tree.nodes, node.isLeaf = false →
      0 ≤ node.featureIndex ∧ node.featureIndex < n) : FeaturesBelow n t := by
  induction h with
  | leaf hview => trivial
  | split hview _ _ ihleft ihright =>
    obtain ⟨node, hnode, hleaf, rfl, -, -, -⟩ := view_eq_split hview
    obtain ⟨hpos, hlt⟩ := hrange node (List.mem_of_getElem? hnode) hleaf
    have hbound := node.featureIndex_range.2
    refine ⟨?_, ihleft, ihright⟩
    rw [asUsize]
    omega

variable (hx : ∀ f < features.length, features[f]? = some (x f))

include hx

omit [Field K] [FloorRing K] in
theorem pathBitsFrom_eq {n : ℕ} (h : Unfolds tree.view i t)
    (hbelow : FeaturesBelow features.length t) :
    pathBitsFrom tree.nodes features n i = some (turns x n t) := by
  induction n generalizing i t with
  | zero => rfl
  | succ n ih =>
    cases h with
    | leaf hview =>
      obtain ⟨node, hnode, hleaf, -⟩ := view_eq_leaf hview
      simp [pathBitsFrom, hnode, hleaf, turns]
    | split hview hleft hright =>
      obtain ⟨node, hnode, hleaf, rfl, rfl, rfl, rfl⟩ := view_eq_split hview
      obtain ⟨hfeature, hbelowLeft, hbelowRight⟩ := hbelow
      have hget := hx _ hfeature
      rw [pathBitsFrom, turns]
      by_cases hturn : node.threshold ≤ x (asUsize node.featureIndex)
      · simp [hnode, hleaf, hget, hturn, ih hright hbelowRight]
      · simp [hnode, hleaf, hget, hturn, ih hleft hbelowLeft]

/-- The digits come in blocks, one for each turn, and at each comparison of the walk the block holds
its shifted difference. -/
private theorem witnessFrom_blocks {n decompK : ℕ} (h : Unfolds tree.view i t)
    (hbelow : FeaturesBelow features.length t) :
    ∃ blocks : List (List Bool),
      witnessFrom tree.nodes features decompK (turns x n t) i = some blocks.flatten ∧
      blocks.length = n ∧ (∀ b ∈ blocks, b.length = decompK) ∧
      ∀ k < n, ∀ feature threshold left right,
        t.descend ((turns x n t).take k) = .split feature threshold left right →
          blocks[k]? = some (shiftedDigits decompK (quantize (x feature)) (quantize threshold)) := by
  induction n generalizing i t with
  | zero => exact ⟨[], rfl, rfl, fun b hb => absurd hb List.not_mem_nil, fun k hk => by omega⟩
  | succ n ih =>
    cases h with
    | leaf hview =>
      obtain ⟨node, hnode, hleaf, -⟩ := view_eq_leaf hview
      refine ⟨List.replicate (n + 1) (List.replicate decompK false), ?_, List.length_replicate, ?_, ?_⟩
      · rw [List.flatten_replicate_replicate]
        simp [turns, List.replicate_succ, witnessFrom, hnode, hleaf]
      · intro b hb
        rw [List.eq_of_mem_replicate hb, List.length_replicate]
      · intro k _ feature threshold left right hsplit
        rw [ThresholdTree.descend_leaf] at hsplit
        cases hsplit
    | split hview hleft hright =>
      obtain ⟨node, hnode, hleaf, rfl, rfl, rfl, rfl⟩ := view_eq_split hview
      obtain ⟨hfeature, hbelowLeft, hbelowRight⟩ := hbelow
      have hget := hx _ hfeature
      have hlength : (shiftedDigits decompK (quantize (x (asUsize node.featureIndex)))
          (quantize node.threshold)).length = decompK := by
        rw [shiftedDigits, List.length_map, List.length_range]
      rw [turns]
      by_cases hturn : node.threshold ≤ x (asUsize node.featureIndex)
      · obtain ⟨blocks, hwitness, hcount, hblocks, hsplits⟩ := ih hright hbelowRight
        refine ⟨shiftedDigits decompK (quantize (x (asUsize node.featureIndex)))
          (quantize node.threshold) :: blocks, ?_, ?_, ?_, ?_⟩
        · simp [hturn, witnessFrom, hnode, hleaf, hget, hwitness]
        · rw [List.length_cons, hcount]
        · exact List.forall_mem_cons.mpr ⟨hlength, hblocks⟩
        · intro k hk feature threshold left right hsplit
          rw [if_pos hturn] at hsplit
          cases k with
          | zero =>
            cases hsplit
            rfl
          | succ k => exact hsplits k (by omega) feature threshold left right hsplit
      · obtain ⟨blocks, hwitness, hcount, hblocks, hsplits⟩ := ih hleft hbelowLeft
        refine ⟨shiftedDigits decompK (quantize (x (asUsize node.featureIndex)))
          (quantize node.threshold) :: blocks, ?_, ?_, ?_, ?_⟩
        · simp [hturn, witnessFrom, hnode, hleaf, hget, hwitness]
        · rw [List.length_cons, hcount]
        · exact List.forall_mem_cons.mpr ⟨hlength, hblocks⟩
        · intro k hk feature threshold left right hsplit
          rw [if_neg hturn] at hsplit
          cases k with
          | zero =>
            cases hsplit
            rfl
          | succ k => exact hsplits k (by omega) feature threshold left right hsplit

/-- The digits at each comparison of the walk are those of its shifted difference. -/
theorem witnessFrom_spec {n decompK : ℕ} (h : Unfolds tree.view i t)
    (hbelow : FeaturesBelow features.length t) :
    ∃ digits, witnessFrom tree.nodes features decompK (turns x n t) i = some digits ∧
      digits.length = n * decompK ∧
      ∀ k < n, ∀ feature threshold left right,
        t.descend ((turns x n t).take k) = .split feature threshold left right → ∀ j < decompK,
          digits[k * decompK + j]? =
            some ((quantize (x feature) - quantize threshold + 2 ^ (decompK - 1)).testBit j) := by
  obtain ⟨blocks, hwitness, hcount, hblocks, hsplits⟩ := witnessFrom_blocks hx h hbelow
  refine ⟨blocks.flatten, hwitness, ?_, ?_⟩
  · rw [List.length_flatten, List.map_congr_left hblocks, List.map_const', List.sum_replicate_nat,
      hcount]
  · intro k hk feature threshold left right hsplit j hj
    rw [getElem?_flatten hblocks k hj, hsplits k hk feature threshold left right hsplit,
      Option.bind_some, shiftedDigits, List.getElem?_map, List.getElem?_range hj, Option.map_some]

end Walks

/-! ## Prepared inputs -/

section Prepared

variable {K : Type} [Field K] [LinearOrder K] [FloorRing K] {model : XgboostModel K}
  {ts : List (ThresholdTree K)}

/-- What the committed inputs tell about the walks through the trees. -/
structure DescribesWalks (inputs : CircuitInputs) (ts : List (ThresholdTree K)) (x : ℕ → K)
    (numFeatures : ℕ) : Prop where
  pathBit : ∀ (i k : ℕ) (t : ThresholdTree K), ts[i]? = some t → k < inputs.maxDepth →
    inputs.flatPathBits[i * inputs.maxDepth + k]? = (turns x inputs.maxDepth t)[k]?
  feature : ∀ f < numFeatures, inputs.featuresQuantized.getD f 0 = quantize (x f)
  digit : ∀ (i k : ℕ) (t : ThresholdTree K), ts[i]? = some t → k < inputs.maxDepth →
    ∀ feature threshold left right,
      t.descend ((turns x inputs.maxDepth t).take k) = .split feature threshold left right →
      ∀ j < DEFAULT_DECOMP_K,
        inputs.decompBitsPadded.getD
            ((k * inputs.numTreesPadded + i) * DEFAULT_DECOMP_K + j) false =
          (quantize (x feature) - quantize threshold + 2 ^ (DEFAULT_DECOMP_K - 1)).testBit j
  expectedSum : ∀ value : ℕ → K,
    (∀ (i : ℕ) (t : ThresholdTree K), ts[i]? = some t →
      t.descend (turns x inputs.maxDepth t) = .leaf (value i)) →
    inputs.expectedSum = wrapI64 (∑ i ∈ Finset.range ts.length, quantize (value i))

private theorem wrapI64_congr {a c : ℤ} (h : a % 2 ^ 64 = c % 2 ^ 64) : wrapI64 a = wrapI64 c := by
  rw [wrapI64, wrapI64]
  omega

private theorem wrapI64_emod (a : ℤ) : wrapI64 a % 2 ^ 64 = a % 2 ^ 64 := by
  rw [wrapI64]
  omega

/-- The running sum over the trees, up to overflows. -/
private theorem leafSum_spec {trees : List (DecisionTree K)} {features : List K} {values : List K}
    (h : List.Forall₂ (fun tree value => traverseTree tree features = some value) trees values)
    (start : ℤ) :
    ∃ total, trees.foldlM (fun total tree => do
        let value ← traverseTree tree features
        pure (wrapI64 (total + quantize value))) start = some total ∧
      total % 2 ^ 64 = (start + (values.map quantize).sum) % 2 ^ 64 := by
  induction h generalizing start with
  | nil => exact ⟨start, rfl, by rw [List.map_nil, List.sum_nil, add_zero]⟩
  | @cons tree value trees values hvalue _ ih =>
    obtain ⟨total, htotal, hmod⟩ := ih (wrapI64 (start + quantize value))
    refine ⟨total, ?_, ?_⟩
    · rw [List.foldlM_cons, hvalue]
      exact htotal
    · rw [hmod, List.map_cons, List.sum_cons, Int.add_emod, wrapI64_emod, ← Int.add_emod, add_assoc]

omit [Field K] [LinearOrder K] [FloorRing K] in
private theorem forall₂_zip {trees : List (DecisionTree K)}
    (hts : List.Forall₂ (fun (tree : DecisionTree K) t => tree.Holds t) trees ts)
    (f : ThresholdTree K → List Bool) :
    List.Forall₂ (fun p t => DecisionTree.Holds p.1 t ∧ p.2 = f t) (trees.zip (ts.map f)) ts := by
  induction hts with
  | nil => exact .nil
  | cons ht _ ih => exact .cons ⟨ht, rfl⟩ ih

omit [LinearOrder K] [FloorRing K] in
theorem exists_ends {maxDepth : ℕ} (hdepth : ∀ t ∈ ts, t.depth ≤ maxDepth)
    (path : ℕ → ThresholdTree K → List Bool) (hpath : ∀ i t, (path i t).length = maxDepth) :
    ∃ value : ℕ → K, ∀ (i : ℕ) (t : ThresholdTree K), ts[i]? = some t →
      t.descend (path i t) = .leaf (value i) := by
  have hends : ∀ i : ℕ, ∃ value : K, ∀ t, ts[i]? = some t → t.descend (path i t) = .leaf value := by
    intro i
    cases hi : ts[i]? with
    | none => exact ⟨0, fun t ht => (by cases ht)⟩
    | some t =>
      have hlength : t.depth ≤ (path i t).length := by
        rw [hpath]
        exact hdepth t (List.mem_of_getElem? hi)
      obtain ⟨value, hvalue⟩ := ThresholdTree.exists_descend_eq_leaf hlength
      refine ⟨value, ?_⟩
      intro t' ht'
      cases ht'
      exact hvalue
  choose value hvalue using hends
  exact ⟨value, hvalue⟩

section Walks

variable {features : List K} (hmodel : InRange model) (hlength : features.length = model.numFeatures)
  (hts : List.Forall₂ (fun (tree : DecisionTree K) t => tree.Holds t) model.trees ts)
  {maxDepth : ℕ} (hdepth : ∀ t ∈ ts, t.depth ≤ maxDepth)

omit [LinearOrder K] [FloorRing K] in
theorem features_getD : ∀ f < features.length, features[f]? = some (features.getD f 0) := by
  intro f hf
  rw [List.getD_eq_getElem?_getD, List.getElem?_eq_getElem hf, Option.getD_some]

include hmodel hlength hts

omit [Field K] [LinearOrder K] [FloorRing K] in
theorem holds_below : List.Forall₂ (fun (tree : DecisionTree K) t =>
    tree.Holds t ∧ FeaturesBelow features.length t) model.trees ts := by
  rw [List.forall₂_iff_get] at hts ⊢
  refine ⟨hts.1, ?_⟩
  intro i hi hi'
  refine ⟨hts.2 i hi hi', ?_⟩
  rw [hlength]
  exact featuresBelow (hts.2 i hi hi') (hmodel.features _ (List.get_mem _ _))

omit [FloorRing K] in
theorem computePathBits_eq (maxDepth : ℕ) : computePathBits model features maxDepth =
    some (ts.map (turns (fun f => features.getD f 0) maxDepth)) := by
  obtain ⟨bits, hbits, hforall⟩ := mapM_of_forall₂
    (P := fun t b => b = turns (fun f => features.getD f 0) maxDepth t)
    (holds_below hmodel hlength hts)
    (fun tree t ht => ⟨_, pathBitsFrom_eq features_getD ht.1 ht.2, rfl⟩)
  have heq : bits = ts.map (turns (fun f => features.getD f 0) maxDepth) := by
    rw [← List.forall₂_eq_eq_eq, List.forall₂_map_right_iff]
    exact hforall.flip
  rw [computePathBits, hbits, heq]

private theorem computeComparisonWitness_spec (maxDepth decompK : ℕ) :
    ∃ digits, computeComparisonWitness model features
        (ts.map (turns (fun f => features.getD f 0) maxDepth)) decompK = some digits ∧
      ∀ (i k : ℕ) (t : ThresholdTree K), ts[i]? = some t → k < maxDepth →
        ∀ feature threshold left right,
          t.descend ((turns (fun f => features.getD f 0) maxDepth t).take k) =
            .split feature threshold left right →
          ∀ j < decompK, digits[(i * maxDepth + k) * decompK + j]? =
            some ((quantize (features.getD feature 0) - quantize threshold +
              2 ^ (decompK - 1)).testBit j) := by
  have hzip := forall₂_zip hts (turns (fun f => features.getD f 0) maxDepth)
  have hbelow : List.Forall₂ (fun p t => DecisionTree.Holds p.1 t ∧
      FeaturesBelow features.length t ∧ p.2 = turns (fun f => features.getD f 0) maxDepth t)
      (model.trees.zip (ts.map (turns (fun f => features.getD f 0) maxDepth))) ts := by
    have hholds := holds_below hmodel hlength hts
    rw [List.forall₂_iff_get] at hzip hholds ⊢
    refine ⟨hzip.1, ?_⟩
    intro i hi hi'
    obtain ⟨hp, hpath⟩ := hzip.2 i hi hi'
    exact ⟨hp, (hholds.2 i (by rw [hholds.1]; exact hi') hi').2, hpath⟩
  obtain ⟨blocks, hblocks, hforall⟩ := mapM_of_forall₂
    (f := fun p => witnessFrom p.1.nodes features decompK p.2 0) hbelow
    (fun p t ht => by
      rw [ht.2.2]
      exact witnessFrom_spec features_getD ht.1 ht.2.1)
  have hlengths : ∀ b ∈ blocks, b.length = maxDepth * decompK := by
    intro b hb
    obtain ⟨i, hi, rfl⟩ := List.getElem_of_mem hb
    rw [List.forall₂_iff_get] at hforall
    exact (hforall.2 i (by rw [hforall.1]; exact hi) hi).1
  refine ⟨blocks.flatten, ?_, ?_⟩
  · rw [computeComparisonWitness, hblocks]
    rfl
  · intro i k t ht hk feature threshold left right hsplit j hj
    obtain ⟨b, hb, -, hentries⟩ := forall₂_getElem? hforall ht
    have hplace : (i * maxDepth + k) * decompK + j = i * (maxDepth * decompK) + (k * decompK + j) := by
      ring
    have hlt : k * decompK + j < maxDepth * decompK := rowPlace_lt hk hj
    rw [hplace, getElem?_flatten hlengths i hlt, hb, Option.bind_some]
    exact hentries k hk feature threshold left right hsplit j hj

include hdepth

omit [FloorRing K] in
/-- The walks end where `traverse_tree` does. -/
theorem mapM_traverseTree {value : ℕ → K}
    (hvalue : ∀ (i : ℕ) (t : ThresholdTree K), ts[i]? = some t →
      t.descend (turns (fun f => features.getD f 0) maxDepth t) = .leaf (value i)) :
    model.trees.mapM (fun tree => traverseTree tree features) =
      some ((List.range ts.length).map value) := by
  have hpairs := holds_below hmodel hlength hts
  rw [List.forall₂_iff_get] at hpairs
  rw [mapM_eq_some, List.forall₂_iff_get]
  refine ⟨by rw [hpairs.1, List.length_map, List.length_range], ?_⟩
  intro i hi hi'
  have hi'' : i < ts.length := by rw [← hpairs.1]; exact hi
  obtain ⟨hholds, hbelow⟩ := hpairs.2 i hi hi''
  obtain ⟨leaf, hend, heval⟩ := descend_turns features_getD hbelow (hdepth _ (List.get_mem _ _))
  have hend' := hvalue i _ (List.getElem?_eq_getElem hi'')
  rw [traverseTree_eq hholds, heval, List.get_eq_getElem, List.getElem_map, List.getElem_range,
    ThresholdTree.leaf.inj (hend.symm.trans hend')]

private theorem computeLeafSum_spec :
    ∃ total, computeLeafSum model features = some total ∧
      ∀ value : ℕ → K, (∀ (i : ℕ) (t : ThresholdTree K), ts[i]? = some t →
        t.descend (turns (fun f => features.getD f 0) maxDepth t) = .leaf (value i)) →
      total % 2 ^ 64 =
        (quantize model.baseScore + ∑ i ∈ Finset.range ts.length, quantize (value i)) % 2 ^ 64 := by
  obtain ⟨leaf, hleaf⟩ := exists_ends hdepth
    (fun _ t => turns (fun f => features.getD f 0) maxDepth t) (fun _ _ => length_turns)
  have hleaves := mapM_traverseTree hmodel hlength hts hdepth hleaf
  obtain ⟨total, htotal, hmod⟩ := leafSum_spec (mapM_eq_some.mp hleaves) (quantize model.baseScore)
  refine ⟨total, htotal, ?_⟩
  intro value hvalue
  have hvalues := mapM_traverseTree hmodel hlength hts hdepth hvalue
  rw [hleaves, Option.some.injEq] at hvalues
  rw [hmod, hvalues, List.map_map]
  rfl

end Walks

/-- With all features there, the inputs can be prepared, and they describe the walks. -/
theorem exists_prepare {features : List K} (hmodel : InRange model)
    (hlength : features.length = model.numFeatures)
    (hts : List.Forall₂ (fun (tree : DecisionTree K) t => tree.Holds t) model.trees ts) :
    ∃ inputs, prepareCircuitInputs model features = some inputs ∧
      DescribesWalks inputs ts (fun f => features.getD f 0) model.numFeatures := by
  have hmaxDepth := maxTreeDepth_eq hts
  generalize (ts.map ThresholdTree.depth).foldl max 0 = maxDepth at hmaxDepth
  have hdepth := depth_le_of_maxTreeDepth hts hmaxDepth
  obtain ⟨leafValues, hleafValues⟩ := exists_treeLeafValues hts hdepth
  obtain ⟨tables, htables⟩ := exists_comparisonTables hts maxDepth
  obtain ⟨digits, hwitness, hdigits⟩ :=
    computeComparisonWitness_spec hmodel hlength hts maxDepth DEFAULT_DECOMP_K
  obtain ⟨total, htotal, hsum⟩ := computeLeafSum_spec hmodel hlength hts hdepth
  have hpath := computePathBits_eq hmodel hlength hts maxDepth
  have hcount := hts.length_eq
  simp only [prepareCircuitInputs, hmaxDepth, hleafValues, hpath, hwitness, htotal, htables, bind,
    Option.bind_some]
  refine ⟨_, rfl, ?_, ?_, ?_, ?_⟩
  · intro i k t ht hk
    have hblocks : ∀ b ∈ ts.map (turns (fun f => features.getD f 0) maxDepth),
        b.length = maxDepth := by
      intro b hb
      obtain ⟨t, -, rfl⟩ := List.mem_map.mp hb
      exact length_turns
    have hentry : (ts.map (turns (fun f => features.getD f 0) maxDepth)).flatten[i * maxDepth + k]? =
        (turns (fun f => features.getD f 0) maxDepth t)[k]? := by
      rw [getElem?_flatten hblocks i hk, List.getElem?_map, ht]
      rfl
    have hget := List.getElem?_eq_getElem
      (show k < (turns (fun f => features.getD f 0) maxDepth t).length by rwa [length_turns])
    have hlt := (List.getElem?_eq_some_iff.mp (hentry.trans hget)).1
    change (_ ++ _ ++ _)[i * maxDepth + k]? = _
    rw [List.append_assoc, List.getElem?_append_left hlt, hentry]
  · intro f hf
    have hle := le_nextPowerOfTwo model.numFeatures
    have hget := features_getD f (by rwa [hlength])
    change (resize (features.map quantize) (nextPowerOfTwo model.numFeatures) 0).getD f 0 = _
    rw [resize, List.getD_eq_getElem?_getD, List.getElem?_append_left (by
      rw [List.length_take, List.length_map]; omega), List.getElem?_take_of_lt (by omega),
      List.getElem?_map, hget]
    rfl
  · intro i k t ht hk feature threshold left right hsplit j hj
    have hi : i < model.trees.length := by
      rw [hcount]
      exact (List.getElem?_eq_some_iff.mp ht).1
    have hvt := le_nextPowerOfTwo (maxDepth * nextPowerOfTwo model.trees.length)
    have hsize : maxDepth * nextPowerOfTwo model.trees.length * DEFAULT_DECOMP_K ≤
        2 ^ nextLog2 (nextPowerOfTwo (maxDepth * nextPowerOfTwo model.trees.length) *
          DEFAULT_DECOMP_K) :=
      (Nat.mul_le_mul_right _ hvt).trans (le_two_pow_nextLog2 _)
    change (padDigits digits maxDepth model.trees.length (nextPowerOfTwo model.trees.length)
      DEFAULT_DECOMP_K _).getD ((k * nextPowerOfTwo model.trees.length + i) * DEFAULT_DECOMP_K + j)
        false = _
    rw [padDigits_eq (le_nextPowerOfTwo _) hsize hk hi hj, List.getD_eq_getElem?_getD,
      hdigits i k t ht hk feature threshold left right hsplit j hj, Option.getD_some]
  · intro value hvalue
    have hmod := hsum value hvalue
    change wrapI64 (total - quantize model.baseScore) = _
    refine wrapI64_congr ?_
    rw [Int.sub_emod, hmod, ← Int.sub_emod, add_sub_cancel_left]

omit [FloorRing K] in
theorem exists_leaves {features : List K} (hmodel : InRange model)
    (hlength : features.length = model.numFeatures) :
    ∃ values, model.trees.mapM (fun tree => traverseTree tree features) = some values := by
  obtain ⟨ts, hts⟩ := hmodel.exists_trees
  have hdepth := depth_le_of_maxTreeDepth hts (maxTreeDepth_eq hts)
  obtain ⟨value, hvalue⟩ := exists_ends hdepth (fun _ t => turns (fun f => features.getD f 0) _ t)
    (fun _ _ => length_turns)
  exact ⟨_, mapM_traverseTree hmodel hlength hts hdepth hvalue⟩

end Prepared

/-! ## Inputs as values of the circuit -/

/-- The scalar field of BN254. -/
abbrev Fr : Type := ZMod FR_MOD

section Inputs

variable {F : Type} [CommRing F]

def tableValues (xs : List ℤ) (i : ℕ) : F := ((xs.getD i 0 : ℤ) : F)

def shape (inputs : CircuitInputs) : CircuitShape where
  numTreesPadded := inputs.numTreesPadded
  maxDepth := inputs.maxDepth
  featureIndicesPadded := inputs.fiPadded
  decompK := inputs.decompK

/-- The tables and the outputs have no more entries than a `u32` counts. -/
structure FitsU32 (inputs : CircuitInputs) : Prop where
  tables : (shape inputs).vtPadded * 2 ^ inputs.maxDepth ≤ 2 ^ 32
  checks : (shape inputs).totalChecks ≤ 2 ^ 32

end Inputs

section Values

variable {K : Type} [Field K] [LinearOrder K] [FloorRing K] {model : XgboostModel K}

theorem fitsGates {features : List K} {inputs : CircuitInputs}
    (hinputs : prepareCircuitInputs model features = some inputs) (hmodel : InRange model)
    (hdepth : 0 < inputs.maxDepth) (hfits : FitsU32 inputs) : FitsGates (shape inputs) := by
  obtain ⟨ts, hts⟩ := hmodel.exists_trees
  have hdescribes := describesTrees_of_prepare hts hinputs
  refine ⟨⟨_, hdescribes.trees⟩, hdepth, ?_, hdescribes.indices, ?_, hfits.tables, hfits.checks⟩
  · change 0 < inputs.decompK
    rw [hdescribes.decompK]
    decide
  · exact fiPadded_lt hinputs fun tree htree node hnode hleaf =>
      (hmodel.features tree htree node hnode hleaf).1

variable {F : Type} [CommRing F]

theorem virtual_mod_div {k i n : ℕ} (hi : i < n) :
    (k * n + i) % n = i ∧ (k * n + i) / n = k := by
  rw [Nat.mul_comm]
  constructor
  · rw [Nat.mul_add_mod, Nat.mod_eq_of_lt hi]
  · rw [Nat.mul_add_div (by omega), Nat.div_eq_of_lt hi, Nat.add_zero]

theorem bitValue_inj [Nontrivial F] {b c : Bool}
    (h : (bitValue b : F) = bitValue c) : b = c := by
  cases b <;> cases c <;> simp [bitValue] at h ⊢

theorem small_eq {d c : ℤ} (hd : |d - c| < FR_MOD) (h : (d : Fr) = (c : Fr)) : d = c := by
  have hdvd : (FR_MOD : ℤ) ∣ d - c := by
    rw [← ZMod.intCast_zmod_eq_zero_iff_dvd, Int.cast_sub, h, sub_self]
  have := Int.eq_zero_of_abs_lt_dvd hdvd hd
  omega

/-- The selected entries of the leaf table, padding included, add up to the values of the leaves. -/
theorem sum_leafValues {inputs : CircuitInputs} {ts : List (ThresholdTree K)}
    (hdescribes : DescribesTrees inputs ts) {path : ℕ → Bool} {value : ℕ → K}
    (hvalue : ∀ (i : ℕ) (t : ThresholdTree K), ts[i]? = some t →
      t.descend ((List.range inputs.maxDepth).map ((shape inputs).treeBits path i)) =
        .leaf (value i)) :
    ∑ t ∈ Finset.range inputs.numTreesPadded,
        (tableValues inputs.leafValuesPadded ((shape inputs).selectedPlace path t t) : F) =
      ∑ i ∈ Finset.range ts.length, ((quantize (value i) : ℤ) : F) := by
  have hle : ts.length ≤ inputs.numTreesPadded := by
    rw [hdescribes.trees]
    exact le_nextPowerOfTwo _
  rw [← Finset.sum_subset (Finset.range_subset_range.mpr hle)]
  · refine Finset.sum_congr rfl ?_
    intro i hi
    have hget := List.getElem?_eq_getElem (Finset.mem_range.mp hi)
    have hentry := hdescribes.leaf i _ ((shape inputs).treeBits path i) _ hget (hvalue i _ hget)
    exact congrArg (Int.cast : ℤ → F) hentry
  · intro i _ hi
    rw [Finset.mem_range, not_lt] at hi
    have hentry := hdescribes.leafPadding i _ hi
      (prefixValue_lt ((shape inputs).treeBits path i) inputs.maxDepth)
    exact (congrArg (Int.cast : ℤ → F) hentry).trans Int.cast_zero

/-! ### The virtual tree of a tree and a level -/

section Virtual

variable {inputs : CircuitInputs} {k i : ℕ}

theorem virtual_lt (hk : k < inputs.maxDepth) (hi : i < inputs.numTreesPadded) :
    k * inputs.numTreesPadded + i < (shape inputs).vtPadded :=
  (rowPlace_lt hk hi).trans_le (le_nextPowerOfTwo _)

theorem selectedPlace_virtual (hi : i < inputs.numTreesPadded) (path : ℕ → Bool) :
    (shape inputs).selectedPlace path (k * inputs.numTreesPadded + i)
        ((k * inputs.numTreesPadded + i) % (shape inputs).numTreesPadded) =
      (k * inputs.numTreesPadded + i) * 2 ^ inputs.maxDepth +
        prefixValue ((shape inputs).treeBits path i) inputs.maxDepth := by
  rw [show (k * inputs.numTreesPadded + i) % (shape inputs).numTreesPadded = i from
    (virtual_mod_div hi).1]
  rfl

theorem signPlace_virtual (hk : k < inputs.maxDepth) (hi : i < inputs.numTreesPadded) :
    signPlace (shape inputs) (k * inputs.numTreesPadded + i) = i * inputs.maxDepth + k := by
  obtain ⟨hmod, hdiv⟩ := virtual_mod_div (k := k) hi
  change (if (k * inputs.numTreesPadded + i) / inputs.numTreesPadded < inputs.maxDepth then
    (k * inputs.numTreesPadded + i) % inputs.numTreesPadded * inputs.maxDepth +
      (k * inputs.numTreesPadded + i) / inputs.numTreesPadded else 0) = _
  rw [hmod, hdiv, if_pos hk]

end Virtual

end Values

end WorldZk.InferenceWitness
