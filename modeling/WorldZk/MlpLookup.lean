import WorldZk.EnsembleScores
import WorldZk.MlpModel
import Mathlib.Analysis.SpecialFunctions.Exp

/-!
# Lookup trees of a network

The trees of `mlp_to_xgboost` are complete trees in level order, one for each output. A feature
vector leads to the outputs at the midpoint of its cell, which the ensemble then scores by its own
rules.
-/

namespace WorldZk.MlpLookup

open CheckedRuns CircuitDescription DecisionTrees EnsembleScores GateWirings I64Arithmetic MlpModel
open ModelParsers TreeEnsemble
open CircuitPreparation (resize)
open scoped NamedInstances

/-! ## Complete trees in level order -/

section CompleteTrees

variable {K : Type}

/-- The complete tree over `remaining` levels, which splits each level on the feature of its number.
The leaves are numbered from left to right; `offset` counts the subtrees to the left. -/
def completeTree (threshold : K) (leaf : ℕ → K) : ℕ → ℕ → ℕ → ThresholdTree K
  | 0, _, offset => .leaf (leaf offset)
  | remaining + 1, level, offset =>
    .split level threshold (completeTree threshold leaf remaining (level + 1) (2 * offset))
      (completeTree threshold leaf remaining (level + 1) (2 * offset + 1))

variable {view : ℕ → Option (NodeView K)} {threshold : K} {leaf : ℕ → K} {depth : ℕ}

/-- A table in level order holds a complete tree at each of its nodes. -/
theorem unfolds_completeTree
    (hsplit : ∀ level < depth, ∀ offset < 2 ^ level, view (2 ^ level - 1 + offset) =
      some (.split level threshold (2 * (2 ^ level - 1 + offset) + 1)
        (2 * (2 ^ level - 1 + offset) + 2)))
    (hleaf : ∀ offset < 2 ^ depth, view (2 ^ depth - 1 + offset) = some (.leaf (leaf offset)))
    {remaining level offset : ℕ} (hlevel : level + remaining = depth)
    (hoffset : offset < 2 ^ level) :
    Unfolds view (2 ^ level - 1 + offset) (completeTree threshold leaf remaining level offset) := by
  induction remaining generalizing level offset with
  | zero =>
    obtain rfl : level = depth := hlevel
    exact .leaf (hleaf offset hoffset)
  | succ remaining ih =>
    have hpos := Nat.two_pow_pos level
    have hpow : 2 ^ (level + 1) = 2 * 2 ^ level := Nat.pow_succ'
    refine .split (hsplit level (by omega) offset hoffset) ?_ ?_
    · have hchild : 2 * (2 ^ level - 1 + offset) + 1 = 2 ^ (level + 1) - 1 + 2 * offset := by omega
      rw [hchild]
      exact ih (by omega) (by omega)
    · have hchild : 2 * (2 ^ level - 1 + offset) + 2 = 2 ^ (level + 1) - 1 + (2 * offset + 1) := by
        omega
      rw [hchild]
      exact ih (by omega) (by omega)

/-- The turns that a feature vector takes at the levels. -/
def turnsAt [LE K] [DecidableLE K] (threshold : K) (features : List K) (level : ℕ) : Bool :=
  features[level]?.any fun x => decide (threshold ≤ x)

/-- The leaf number has the turns as its bits. -/
theorem eval_completeTree [LinearOrder K] {features : List K} {remaining level : ℕ}
    (hlength : level + remaining ≤ features.length) :
    (completeTree threshold leaf remaining level
        (prefixValue (turnsAt threshold features) level)).eval features =
      some (leaf (prefixValue (turnsAt threshold features) (level + remaining))) := by
  induction remaining generalizing level with
  | zero => rfl
  | succ remaining ih =>
    have hx : features[level]? = some features[level] :=
      List.getElem?_eq_getElem (by omega)
    have hrest := @ih (level + 1) (by omega)
    rw [prefixValue, Nat.bit_val] at hrest
    rw [completeTree, ThresholdTree.eval, hx, ← Nat.add_assoc, Nat.add_right_comm, ← hrest]
    by_cases hlt : features[level] < threshold
    · have hturn : turnsAt threshold features level = false := by
        rw [turnsAt, hx, Option.any_some, decide_eq_false (not_le.mpr hlt)]
      simp only [if_pos hlt, hturn, Bool.toNat_false, add_zero]
    · have hturn : turnsAt threshold features level = true := by
        rw [turnsAt, hx, Option.any_some, decide_eq_true (not_lt.mp hlt)]
      simp only [if_neg hlt, hturn, Bool.toNat_true]

end CompleteTrees

/-! ## Cells -/

section Cells

variable {K : Type} [Field K] [LinearOrder K]

/-- The midpoint of the cell of a feature vector. -/
def cellMidpoint (features : List K) : List K :=
  features.map fun x => if 1 / 2 ≤ x then 3 / 4 else 1 / 4

/-- The midpoint of the cell with a leaf number. -/
def leafMidpoint (depth offset : ℕ) : List K :=
  (List.range depth).map fun k => if offset.testBit (depth - 1 - k) then 3 / 4 else 1 / 4

theorem leafMidpoint_turns (features : List K) :
    leafMidpoint features.length (prefixValue (turnsAt (1 / 2) features) features.length) =
      cellMidpoint features := by
  refine List.ext_getElem? fun k => ?_
  rw [leafMidpoint, cellMidpoint, List.getElem?_map, List.getElem?_map]
  rcases Nat.lt_or_ge k features.length with hlt | hge
  · rw [List.getElem?_range hlt, List.getElem?_eq_getElem hlt, Option.map_some, Option.map_some,
      testBit_prefixValue _ hlt, turnsAt, List.getElem?_eq_getElem hlt, Option.any_some]
    simp only [decide_eq_true_eq]
  · rw [List.getElem?_eq_none hge, List.getElem?_eq_none (by rwa [List.length_range])]
    rfl

@[simp] theorem length_cellMidpoint (features : List K) :
    (cellMidpoint features).length = features.length := List.length_map _

end Cells

/-! ## The trees of a network -/

section Trees

variable {K : Type} [Field K] [LinearOrder K] [FloorRing K] {exp : K → K} {mlp : MLPModel K}
  {classIdx depth : ℕ} {threshold : K} {tree : DecisionTree K}

/-- The value of a leaf: an output at the midpoint of its cell, in fixed point. -/
private def leafOutput (exp : K → K) (mlp : MLPModel K) (classIdx depth offset : ℕ) : K :=
  let outputs := mlp.layers.foldl (forwardLayer exp) (leafMidpoint depth offset)
  (quantize (outputs.getD classIdx 0) : K) / FIXED_POINT_SCALE

private theorem node_of_build (h : buildMlpLookupTree exp mlp classIdx depth threshold = .ok tree)
    {i : ℕ} (hi : i < 2 ^ (depth + 1) - 1) :
    ∃ node, tree.nodes[i]? = some node ∧
      lookupNode exp mlp classIdx depth threshold i = .ok node := by
  simp only [buildMlpLookupTree, bind_eq_ok, pure_eq_ok] at h
  obtain ⟨nodes, hnodes, rfl⟩ := h
  exact forall₂_getElem? (mapM_eq_ok.mp hnodes) (List.getElem?_range hi)

private theorem view_split (h : buildMlpLookupTree exp mlp classIdx depth threshold = .ok tree)
    (hdepth : depth ≤ 8) {level offset : ℕ} (hlevel : level < depth)
    (hoffset : offset < 2 ^ level) :
    tree.view (2 ^ level - 1 + offset) =
      some (.split level threshold (2 * (2 ^ level - 1 + offset) + 1)
        (2 * (2 ^ level - 1 + offset) + 2)) := by
  have hpos := Nat.two_pow_pos level
  have hpow : 2 ^ (level + 1) ≤ 2 ^ depth := Nat.pow_le_pow_right (by decide) hlevel
  rw [Nat.pow_succ] at hpow
  obtain ⟨node, hnode, hlookup⟩ := node_of_build h
    (show 2 ^ level - 1 + offset < 2 ^ (depth + 1) - 1 by rw [Nat.pow_succ]; omega)
  have hlog : Nat.log2 (2 ^ level - 1 + offset + 1) = level := by
    refine (Nat.log2_eq_iff (by omega)).mpr ?_
    rw [Nat.pow_succ]
    omega
  rw [lookupNode, if_pos (by omega), pure_eq_ok] at hlookup
  have hindex : asUsize (wrapI32 (Nat.log2 (2 ^ level - 1 + offset + 1) : ℕ)) = level := by
    rw [asUsize_wrapI32 (by rw [hlog]; omega), hlog]
  rw [DecisionTree.view, hnode, Option.map_some, ← hlookup, TreeNode.view,
    if_neg Bool.false_ne_true, hindex]

private theorem view_leaf (h : buildMlpLookupTree exp mlp classIdx depth threshold = .ok tree)
    (hfeatures : mlp.nFeatures = depth) {offset : ℕ} (hoffset : offset < 2 ^ depth) :
    tree.view (2 ^ depth - 1 + offset) =
      some (.leaf (leafOutput exp mlp classIdx depth offset)) := by
  have hpos := Nat.two_pow_pos depth
  obtain ⟨node, hnode, hlookup⟩ := node_of_build h
    (show 2 ^ depth - 1 + offset < 2 ^ (depth + 1) - 1 by rw [Nat.pow_succ]; omega)
  rw [lookupNode, if_neg (by omega)] at hlookup
  simp only [Nat.add_sub_cancel_left, bind_eq_ok, okOr_eq_ok, pure_eq_ok] at hlookup
  obtain ⟨outputs, houtputs, rawScore, hrawScore, rfl⟩ := hlookup
  rw [predictMlp_eq_ok exp (by rw [List.length_map, List.length_range, hfeatures])] at houtputs
  have hscore : (mlp.layers.foldl (forwardLayer exp) (leafMidpoint depth offset)).getD classIdx 0 =
      rawScore := by
    rw [← Except.ok.inj houtputs] at hrawScore
    rw [List.getD_eq_getElem?_getD, leafMidpoint, hrawScore]
    rfl
  rw [DecisionTree.view, hnode, leafOutput, hscore]
  rfl

private theorem traverseTree_lookup
    (h : buildMlpLookupTree exp mlp classIdx mlp.nFeatures (1 / 2) = .ok tree)
    (hdepth : mlp.nFeatures ≤ 8) {features : List K} (hlength : features.length = mlp.nFeatures) :
    traverseTree tree features = some ((quantize ((mlp.layers.foldl (forwardLayer exp)
      (cellMidpoint features)).getD classIdx 0) : K) / FIXED_POINT_SCALE) := by
  have hholds : tree.Holds (completeTree (1 / 2) (leafOutput exp mlp classIdx mlp.nFeatures)
      mlp.nFeatures 0 0) :=
    unfolds_completeTree (fun level hlevel offset => view_split h hdepth hlevel)
      (fun offset => view_leaf h rfl) (Nat.zero_add _) Nat.one_pos
  have heval := @eval_completeTree K (1 / 2) (leafOutput exp mlp classIdx mlp.nFeatures) _ features
    mlp.nFeatures 0 (by omega)
  rw [traverseTree_eq hholds, ← leafMidpoint_turns, hlength]
  rw [Nat.zero_add] at heval
  exact heval

end Trees

/-! ## The class of the ensemble -/

section Classes

variable {K : Type} [Field K] [LinearOrder K] [FloorRing K] (exp : K → K) (mlp : MLPModel K)
  (features : List K)

/-- The ensemble gives the class that the network gives at the midpoint of the cell. -/
def SameClass (model : XgboostModel K) : Prop :=
  ∃ c, predict model features = some c ∧
    predictMlpClass exp mlp (cellMidpoint features) = .ok c

/-- Rounded to multiples of `2 ^ -16` and added up or compared by the rules of the ensemble, the
outputs give their own largest entry. -/
def OutputsAgree (nClasses : ℕ) (outputs : List K) : Prop :=
  if nClasses = 1 then (outputs.map quantize).sum ≤ 0
  else if nClasses = 2 then 0 < (outputs.map quantize).sum ↔ outputs.getD 0 0 ≤ outputs.getD 1 0
  else ∀ c c', IsLastMax outputs c → IsLastMax (outputs.map quantize) c' → c % 2 ^ 32 = c' % 2 ^ 32

def LookupAgrees : Prop :=
  ∃ outputs, predictMlp exp mlp (cellMidpoint features) = .ok outputs ∧
    OutputsAgree mlp.nClasses outputs

/-- The outputs are multiples of `2 ^ -16` that an `i64` holds in fixed point. -/
def OutputsExact : Prop :=
  ∀ outputs, predictMlp exp mlp (cellMidpoint features) = .ok outputs →
    ∀ o ∈ outputs, (∃ k : ℤ, o * FIXED_POINT_SCALE = k) ∧ InRange o

end Classes

section Agreement

variable {K : Type} [Field K] [LinearOrder K] [IsStrictOrderedRing K] [FloorRing K] {exp : K → K}
  {mlp : MLPModel K} {model : XgboostModel K} {features : List K}

private theorem map_getD_range {α β : Type} (f : α → β) (xs : List α) (default : α) :
    (List.range xs.length).map (fun c => f (xs.getD c default)) = xs.map f := by
  refine List.ext_getElem? fun c => ?_
  rw [List.getElem?_map, List.getElem?_map]
  rcases Nat.lt_or_ge c xs.length with hlt | hge
  · rw [List.getElem?_range hlt, List.getElem?_eq_getElem hlt, Option.map_some, Option.map_some,
      List.getD_eq_getElem?_getD, List.getElem?_eq_getElem hlt]
    rfl
  · rw [List.getElem?_eq_none hge, List.getElem?_eq_none (by rwa [List.length_range])]
    rfl

omit [IsStrictOrderedRing K] in
/-- The trees give the outputs at the midpoint of the cell, in fixed point. -/
private theorem treesGive_outputs (h : mlpToXgboost exp mlp = .ok model)
    (hlength : features.length = mlp.nFeatures) {outputs : List K}
    (houtputs : predictMlp exp mlp (cellMidpoint features) = .ok outputs) :
    mlp.nClasses ≠ 0 ∧ outputs.length = mlp.nClasses ∧ model.numFeatures = mlp.nFeatures ∧
      model.numClasses = mlp.nClasses ∧ model.baseScore = 0 ∧
        TreesGive model.trees features
          (outputs.map fun o => (quantize o : K) / FIXED_POINT_SCALE) := by
  obtain ⟨_, hvalid, h⟩ := bind_eq_ok.mp h
  obtain ⟨trees, htrees, h⟩ := bind_eq_ok.mp h
  obtain rfl := pure_eq_ok.mp h
  obtain ⟨-, hclasses, -, hmax, hwidths⟩ := validateMlp_eq_ok.mp hvalid
  have hmidpoint : (cellMidpoint features).length = mlp.nFeatures := by
    rw [length_cellMidpoint, hlength]
  rw [predictMlp_eq_ok exp hmidpoint, Except.ok.injEq] at houtputs
  have hcount : outputs.length = mlp.nClasses := by
    rw [← houtputs]
    exact length_forward exp hwidths hmidpoint
  refine ⟨hclasses, hcount, rfl, rfl, rfl, ?_⟩
  rw [← map_getD_range _ outputs 0, hcount]
  refine List.forall₂_map_right_iff.mpr (List.Forall₂.imp ?_ (mapM_eq_ok.mp htrees).flip)
  intro tree c hbuild
  rw [traverseTree_lookup hbuild hmax hlength, houtputs]

omit [FloorRing K] in
private theorem strictMono_scaled :
    StrictMono fun q : ℤ => (q : K) / FIXED_POINT_SCALE := by
  intro p q hpq
  exact (div_lt_div_iff_of_pos_right scale_pos).mpr (Int.cast_lt.mpr hpq)

private theorem sum_scaled_pos (outputs : List K) :
    0 < (outputs.map fun o => (quantize o : K) / FIXED_POINT_SCALE).sum ↔
      0 < (outputs.map quantize).sum := by
  have hsum : (outputs.map fun o => (quantize o : K) / FIXED_POINT_SCALE).sum =
      ((outputs.map quantize).sum : ℤ) / (FIXED_POINT_SCALE : K) := by
    induction outputs with
    | nil => simp
    | cons o outputs ih =>
      rw [List.map_cons, List.sum_cons, ih, List.map_cons, List.sum_cons, Int.cast_add, add_div]
  rw [hsum, div_pos_iff_of_pos_right scale_pos, Int.cast_pos]

omit [FloorRing K] [Field K] [IsStrictOrderedRing K] in
private theorem argmax_pair (a b : K) : argmax [a, b] = if a ≤ b then 1 else 0 := by
  by_cases h : a ≤ b
  · simp [argmax, maxByScore, h, not_lt.mpr h]
  · simp [argmax, maxByScore, h, not_le.mp h]

/-- The outputs keep their largest entry when they are exact and there are more than two. -/
private theorem outputsAgree_of_exact {outputs : List K} {nClasses : ℕ} (hclasses : 2 < nClasses)
    (hexact : ∀ o ∈ outputs, (∃ k : ℤ, o * FIXED_POINT_SCALE = k) ∧ InRange o) :
    OutputsAgree nClasses outputs := by
  rw [OutputsAgree, if_neg (by omega), if_neg (by omega)]
  intro c c' hc hc'
  have hquantized : (outputs.map quantize).map (fun q : ℤ => (q : K) / FIXED_POINT_SCALE) =
      outputs.map id := by
    rw [List.map_map]
    refine List.map_congr_left fun o ho => ?_
    obtain ⟨hmultiple, hrange⟩ := hexact o ho
    rw [Function.comp_apply, quantize_of_exact hmultiple hrange,
      mul_div_cancel_right₀ _ scale_pos.ne', id_eq]
  rw [← isLastMax_map (@strictMono_scaled K _ _ _), hquantized, List.map_id] at hc'
  rw [hc.unique hc']

/-- The classes by the rules of the ensemble and by the largest output. -/
private theorem classes_agree_iff {nClasses : ℕ} (hclasses : nClasses ≠ 0)
    (hnumClasses : model.numClasses = nClasses) (hbase : model.baseScore = 0)
    (hlength : features.length = model.numFeatures) {outputs : List K}
    (hcount : outputs.length = nClasses)
    (hgive : TreesGive model.trees features
      (outputs.map fun o => (quantize o : K) / FIXED_POINT_SCALE)) :
    predict model features = some (argmax outputs) ↔ OutputsAgree nClasses outputs := by
  rw [OutputsAgree]
  split_ifs with hone htwo
  · obtain ⟨o, rfl⟩ := List.length_eq_one_iff.mp (hcount.trans hone)
    have hzero : argmax [o] = 0 := rfl
    rw [predict_two hlength (by omega) hgive, hbase, zero_add, Option.some.injEq, hzero]
    simp only [sum_scaled_pos, ite_eq_right_iff, one_ne_zero, imp_false, not_lt]
  · obtain ⟨a, b, rfl⟩ := List.length_eq_two.mp (hcount.trans htwo)
    rw [predict_two hlength (by omega) hgive, hbase, zero_add, Option.some.injEq, argmax_pair]
    simp only [sum_scaled_pos, List.getD_cons_zero, List.getD_cons_succ]
    by_cases hle : a ≤ b <;> simp [hle]
  · have hscores : (List.range model.numClasses).map (fun c => model.baseScore +
        turnTotal model.numClasses (outputs.map fun o => (quantize o : K) / FIXED_POINT_SCALE) c) =
          (outputs.map quantize).map fun q : ℤ => (q : K) / FIXED_POINT_SCALE := by
      have hturns := map_turnTotal (outputs.map fun o => (quantize o : K) / FIXED_POINT_SCALE)
      rw [List.length_map, hcount, ← hnumClasses] at hturns
      simp only [hbase, zero_add]
      rw [hturns, List.map_map]
      rfl
    have hne : outputs ≠ [] := by
      rintro rfl
      exact hclasses hcount.symm
    rw [predict_many hlength (by omega) hgive, hscores, Option.some.injEq]
    obtain ⟨top, htop, hargmax⟩ := argmax_spec hne
    obtain ⟨top', htop', hargmax'⟩ := @argmax_spec K _
      ((outputs.map quantize).map fun q : ℤ => (q : K) / FIXED_POINT_SCALE) (by simpa using hne)
    rw [isLastMax_map strictMono_scaled] at htop'
    rw [hargmax, hargmax']
    constructor
    · intro heq c c' hc hc'
      rw [hc.unique htop, hc'.unique htop', heq]
    · intro h
      exact (h top top' htop htop').symm

private theorem sameClass_iff (h : mlpToXgboost exp mlp = .ok model)
    (hlength : features.length = mlp.nFeatures) {outputs : List K}
    (houtputs : predictMlp exp mlp (cellMidpoint features) = .ok outputs) :
    SameClass exp mlp features model ↔ OutputsAgree mlp.nClasses outputs := by
  obtain ⟨hclasses, hcount, hfeatures, hnumClasses, hbase, hgive⟩ :=
    treesGive_outputs h hlength houtputs
  have hsame : SameClass exp mlp features model ↔
      predict model features = some (argmax outputs) := by
    simp only [SameClass, predictMlpClass, houtputs, ok_bind, pure_eq_ok]
    exact ⟨fun ⟨_, hc, heq⟩ => heq ▸ hc, fun hc => ⟨_, hc, rfl⟩⟩
  rw [hsame]
  exact classes_agree_iff hclasses hnumClasses hbase (hlength.trans hfeatures.symm) hcount hgive

/-- The lookup trees give the class of the network at the midpoint of the cell exactly if the
outputs there agree with the rules of the ensemble; with more than two classes exact outputs do. -/
theorem mlp_lookup_iff (h : mlpToXgboost exp mlp = .ok model)
    (hlength : features.length = mlp.nFeatures) :
    (SameClass exp mlp features model ↔ LookupAgrees exp mlp features) ∧
      (2 < mlp.nClasses → OutputsExact exp mlp features → LookupAgrees exp mlp features) := by
  have houtputs := predictMlp_eq_ok exp ((length_cellMidpoint features).trans hlength)
  refine ⟨?_, fun htwo hexact =>
    ⟨_, houtputs, outputsAgree_of_exact htwo (hexact _ houtputs)⟩⟩
  rw [sameClass_iff h hlength houtputs]
  constructor
  · exact fun hagree => ⟨_, houtputs, hagree⟩
  · rintro ⟨outputs, houtputs', hagree⟩
    rwa [Except.ok.inj (houtputs.symm.trans houtputs')]

end Agreement

/-! ## Converted networks -/

/-- All networks that pass the validation are converted. -/
theorem exists_mlpToXgboost_iff {K : Type} [Field K] [LinearOrder K] [FloorRing K] {exp : K → K}
    {mlp : MLPModel K} :
    (∃ model, mlpToXgboost exp mlp = .ok model) ↔ validateMlp mlp = .ok () := by
  constructor
  · rintro ⟨model, h⟩
    exact (bind_eq_ok.mp h).choose_spec.1
  · intro hvalid
    obtain ⟨-, -, -, -, hwidths⟩ := validateMlp_eq_ok.mp hvalid
    have hnode : ∀ c < mlp.nClasses, ∀ i, ∃ node,
        lookupNode exp mlp c mlp.nFeatures (1 / 2) i = .ok node := by
      intro c hc i
      rw [lookupNode]
      split
      · exact ⟨_, rfl⟩
      · have hmidpoint : ∀ offset, (leafMidpoint mlp.nFeatures offset : List K).length =
            mlp.nFeatures := fun offset => by
          rw [leafMidpoint, List.length_map, List.length_range]
        have hlength := length_forward exp hwidths (hmidpoint (i - (2 ^ mlp.nFeatures - 1)))
        have hscore := List.getElem?_eq_getElem (hlength ▸ hc)
        change ∃ node, (predictMlp exp mlp (leafMidpoint _ _) >>= _) = .ok node
        rw [predictMlp_eq_ok exp (hmidpoint _), ok_bind, hscore]
        exact ⟨_, rfl⟩
    have htree : ∀ c ∈ List.range mlp.nClasses, ∃ tree,
        buildMlpLookupTree exp mlp c mlp.nFeatures (1 / 2) = .ok tree := by
      intro c hc
      obtain ⟨nodes, hnodes⟩ := exists_mapM_eq_ok_iff.mpr
        fun i (_ : i ∈ List.range (2 ^ (mlp.nFeatures + 1) - 1)) => hnode c (List.mem_range.mp hc) i
      rw [buildMlpLookupTree, hnodes]
      exact ⟨_, rfl⟩
    obtain ⟨trees, htrees⟩ := exists_mapM_eq_ok_iff.mpr htree
    rw [mlpToXgboost, hvalid, ok_bind]
    dsimp only
    rw [htrees]
    exact ⟨_, rfl⟩

/-! ## Networks of one layer -/

section Runs

/-- One feature, which the outputs do not depend on. -/
private def constantNetwork (outputs : List ℝ) : MLPModel ℝ :=
  ⟨1, outputs.length, [⟨outputs.map fun _ => [0], outputs, .none⟩]⟩

private theorem validate_constantNetwork {outputs : List ℝ} (hne : outputs ≠ []) :
    validateMlp (constantNetwork outputs) = .ok () := by
  refine validateMlp_eq_ok.mpr ⟨Nat.one_ne_zero, by simpa [constantNetwork] using hne, by
    simp [constantNetwork], by simp [constantNetwork], ?_⟩
  simp [constantNetwork, WidthsFit, hne]

private theorem predict_constantNetwork (outputs : List ℝ) (x : ℝ) :
    predictMlp Real.exp (constantNetwork outputs) (cellMidpoint [x]) = .ok outputs := by
  have hvalues : List.zipWith (fun row bias => sumProducts row (cellMidpoint [x]) + bias)
      (outputs.map fun _ => [0]) outputs = outputs := by
    induction outputs with
    | nil => rfl
    | cons o outputs ih =>
      rw [List.map_cons, List.zipWith_cons_cons, ih]
      simp [cellMidpoint]
  rw [predictMlp_eq_ok Real.exp (by rfl)]
  change Except.ok (resize (List.zipWith _ (outputs.map fun _ => [0]) outputs) _ 0) = _
  rw [hvalues, List.length_map, resize, List.take_length, Nat.sub_self, List.replicate_zero,
    List.append_nil]

/-- The ensemble adds up two outputs of which the first is larger, and says 1. -/
theorem two_outputs_added : ¬ ∀ (mlp : MLPModel ℝ) (model : XgboostModel ℝ) (features : List ℝ),
    mlpToXgboost Real.exp mlp = .ok model → features.length = mlp.nFeatures →
      OutputsExact Real.exp mlp features → SameClass Real.exp mlp features model := by
  intro h
  have hone : quantize (1 : ℝ) = 65536 :=
    quantize_of_fits (by decide) (by norm_num [FIXED_POINT_SCALE])
  have hhalf : quantize (1 / 2 : ℝ) = 32768 :=
    quantize_of_fits (by decide) (by norm_num [FIXED_POINT_SCALE])
  obtain ⟨model, hmodel⟩ := exists_mlpToXgboost_iff.mpr
    (validate_constantNetwork (List.cons_ne_nil (1 : ℝ) [1 / 2]))
  have hpredict := predict_constantNetwork [1, 1 / 2] 0
  have hexact : OutputsExact Real.exp (constantNetwork [1, 1 / 2]) [0] := by
    intro outputs houtputs o ho
    obtain rfl := Except.ok.inj (hpredict.symm.trans houtputs)
    rw [List.mem_pair] at ho
    obtain rfl | rfl := ho
    · exact ⟨⟨65536, by norm_num [FIXED_POINT_SCALE]⟩, by norm_num [InRange, FIXED_POINT_SCALE]⟩
    · exact ⟨⟨32768, by norm_num [FIXED_POINT_SCALE]⟩, by norm_num [InRange, FIXED_POINT_SCALE]⟩
  have hagree := (sameClass_iff hmodel rfl hpredict).mp (h _ _ [0] hmodel rfl hexact)
  simp only [OutputsAgree, constantNetwork, List.length_cons, List.length_nil] at hagree
  norm_num [hone, hhalf] at hagree

/-- Of three outputs the ensemble gives the largest. -/
theorem three_outputs_compared : ∃ (mlp : MLPModel ℝ) (model : XgboostModel ℝ),
    mlpToXgboost Real.exp mlp = .ok model ∧ SameClass Real.exp mlp [0] model := by
  obtain ⟨model, hmodel⟩ := exists_mlpToXgboost_iff.mpr
    (validate_constantNetwork (List.cons_ne_nil (0 : ℝ) [1, 0]))
  have hpredict := predict_constantNetwork [0, 1, 0] 0
  have hexact : OutputsExact Real.exp (constantNetwork [0, 1, 0]) [0] := by
    intro outputs houtputs o ho
    obtain rfl := Except.ok.inj (hpredict.symm.trans houtputs)
    simp only [List.mem_cons, List.not_mem_nil, or_false] at ho
    obtain rfl | rfl | rfl := ho
    · exact ⟨⟨0, by simp⟩, by norm_num [InRange, FIXED_POINT_SCALE]⟩
    · exact ⟨⟨65536, by norm_num [FIXED_POINT_SCALE]⟩, by norm_num [InRange, FIXED_POINT_SCALE]⟩
    · exact ⟨⟨0, by simp⟩, by norm_num [InRange, FIXED_POINT_SCALE]⟩
  obtain ⟨hiff, hagrees⟩ := mlp_lookup_iff hmodel (show [(0 : ℝ)].length = _ from rfl)
  exact ⟨_, model, hmodel, hiff.mpr (hagrees (by decide) hexact)⟩

end Runs

end WorldZk.MlpLookup
