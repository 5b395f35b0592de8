import WorldZk.EnsembleScores
import WorldZk.UsableTrees

/-!
# Votes of a random forest

A forest file read as scikit-learn reads it: a walk goes left at a feature not above the threshold,
and the leaves that the walks reach vote with their class frequencies. The converted ensemble adds
up one share of each leaf instead.
-/

namespace WorldZk.ForestVotes

open CheckedRuns DecisionTrees EnsembleScores JsonValues ModelParsers RandomForest TreeEnsemble
open UsableTrees

variable {K : Type}

/-! ## Leaves of a file -/

section Leaves

variable (raw : RawSklearnTree K) (goesLeft : K → K → Bool) (features : List K)

/-- The counts at the end of a walk from a node, for a given number of rounds. -/
def leafFrom : ℕ → ℕ → Option (List K)
  | 0, _ => none
  | fuel + 1, i => do
    let left ← raw.childrenLeft[i]?
    if left.1 = -1 then raw.value[i]?
    else
      let feature ← raw.feature[i]?
      let threshold ← raw.threshold[i]?
      let right ← raw.childrenRight[i]?
      let featureVal ← features[asUsize feature.1]?
      leafFrom fuel (asUsize (if goesLeft featureVal threshold then left.1 else right.1))

/-- The counts at the leaf of a tree. A walk that visits more nodes than there are never ends. -/
def leafCounts : Option (List K) := leafFrom raw goesLeft features raw.childrenLeft.length 0

end Leaves

/-- Left iff the feature is at most the threshold. -/
def sklearnLeft [LE K] [DecidableLE K] (featureVal threshold : K) : Bool :=
  decide (featureVal ≤ threshold)

/-- Left iff the feature is below the threshold. -/
def strictLeft [LT K] [DecidableLT K] (featureVal threshold : K) : Bool :=
  decide (featureVal < threshold)

/-! ## Votes -/

section Votes

variable [Field K] [LinearOrder K] [FloorRing K]

/-- The sum of the frequencies of a class in the leaves. -/
def votes (leaves : List (List K)) (c : ℕ) : K :=
  (leaves.map fun counts => counts.getD c 0 / counts.sum).sum

/-- No class has a larger sum. -/
def Maximises (nClasses : ℕ) (votes : ℕ → K) (c : ℕ) : Prop :=
  c < nClasses ∧ ∀ d < nClasses, votes d ≤ votes c

/-- The class that the model gives has the most votes of the forest. -/
def VotePreserved (raw : RawRandomForest K) (model : XgboostModel K) (features : List K) : Prop :=
  ∃ leaves c, raw.trees.mapM (leafCounts · sklearnLeft features) = some leaves ∧
    predict model features = some c ∧ Maximises raw.nClasses (votes leaves) c

/-- The shares that the ensemble adds up agree with the votes: for two classes, the sum of the
shares of class 1 is positive only if class 1 is not outvoted, and else class 0 is not; for more,
the last class with the largest sum over its turns is not outvoted. A single class has number 0. -/
def SharesAgree (nClasses : ℕ) (shares : List K) (votes : ℕ → K) : Prop :=
  if nClasses = 1 then shares.sum ≤ 0
  else if nClasses = 2 then
    (0 < shares.sum → votes 0 ≤ votes 1) ∧ (shares.sum ≤ 0 → votes 1 ≤ votes 0)
  else ∀ c, IsLastMax ((List.range nClasses).map (turnTotal nClasses shares)) c →
    ∀ d < nClasses, votes d ≤ votes (c % 2 ^ 32)

/-- The shares of the leaves below the thresholds agree with the votes. -/
def EncodingAgrees (raw : RawRandomForest K) (features : List K) : Prop :=
  ∃ leaves reached, raw.trees.mapM (leafCounts · sklearnLeft features) = some leaves ∧
    raw.trees.mapM (leafCounts · strictLeft features) = some reached ∧
      SharesAgree raw.nClasses (reached.map (scaledShare · raw.nClasses)) (votes leaves)

end Votes

/-! ## Converted trees -/

section Converted

variable [Field K] [LinearOrder K] [FloorRing K] {raw : RawSklearnTree K} {nClasses treeIdx : ℕ}
  {tree : DecisionTree K} {t : ThresholdTree K}

/-- A node of the table, as the arrays have it. -/
def NodeOf (raw : RawSklearnTree K) (nClasses i : ℕ) (node : TreeNode K) : Prop :=
  ∃ left : Json.I32, raw.childrenLeft[i]? = some left ∧
    if left.1 = -1 then node.isLeaf = true ∧ ∃ counts, raw.value[i]? = some counts ∧
      node.leafValue = scaledShare counts nClasses
    else node.isLeaf = false ∧ ∃ feature right : Json.I32, raw.feature[i]? = some feature ∧
      raw.threshold[i]? = some node.threshold ∧ raw.childrenRight[i]? = some right ∧
        node.featureIndex = feature.1 ∧ node.leftChild = asUsize left.1 ∧
          node.rightChild = asUsize right.1

theorem nodeOf_of_sklearnNode {i : ℕ} {node : TreeNode K}
    (h : sklearnNode raw nClasses treeIdx i = .ok node) : NodeOf raw nClasses i node := by
  simp only [sklearnNode, bind_eq_ok, okOr_eq_ok] at h
  obtain ⟨left, hleft, h⟩ := h
  refine ⟨left, hleft, ?_⟩
  split at h
  · rename_i hone
    simp only [computeLeafValue, bind_eq_ok, okOr_eq_ok, pure_eq_ok] at h
    obtain ⟨counts, hcounts, value, ⟨_, -, rfl⟩, rfl⟩ := h
    rw [if_pos hone]
    exact ⟨rfl, counts, hcounts, rfl⟩
  · rename_i hone
    simp only [bind_eq_ok, okOr_eq_ok, pure_eq_ok] at h
    obtain ⟨feature, hfeature, threshold, hthreshold, right, hright, rfl⟩ := h
    rw [if_neg hone]
    exact ⟨rfl, feature, right, hfeature, hthreshold, hright, rfl, rfl, rfl⟩

/-- The table is that of the arrays. -/
structure ConvertedFrom (tree : DecisionTree K) (raw : RawSklearnTree K) (nClasses : ℕ) : Prop where
  length : tree.nodes.length = raw.childrenLeft.length
  node : ∀ (i : ℕ) (node : TreeNode K), tree.nodes[i]? = some node → NodeOf raw nClasses i node

theorem convertedFrom_of_convert (h : convertSklearnTree raw nClasses treeIdx = .ok tree) :
    ConvertedFrom tree raw nClasses := by
  simp only [convertSklearnTree, bind_eq_ok, pure_eq_ok] at h
  obtain ⟨_, -, _, -, nodes, hnodes, rfl⟩ := h
  obtain ⟨hlength, hread⟩ := forall₂_range_getElem? (mapM_eq_ok.mp hnodes)
  exact ⟨hlength, fun i node hnode => nodeOf_of_sklearnNode (hread i node hnode)⟩

private theorem traverseFrom_eq (h : ConvertedFrom tree raw nClasses) (features : List K)
    (fuel i : ℕ) : traverseFrom tree.nodes features fuel i =
      (leafFrom raw strictLeft features fuel i).map (scaledShare · nClasses) := by
  induction fuel generalizing i with
  | zero => rfl
  | succ fuel ih =>
    rw [traverseFrom, leafFrom]
    rcases Nat.lt_or_ge i tree.nodes.length with hlt | hge
    · obtain ⟨left, hleft, hnode⟩ := h.node i _ (List.getElem?_eq_getElem hlt)
      rw [List.getElem?_eq_getElem hlt, hleft]
      simp only [bind, Option.bind_some]
      split at hnode
      · rename_i hone
        obtain ⟨hleaf, counts, hcounts, hvalue⟩ := hnode
        rw [if_pos hleaf, if_pos hone, hcounts, hvalue]
        rfl
      · rename_i hone
        obtain ⟨hleaf, feature, right, hfeature, hthreshold, hright, hindex, hl, hr⟩ := hnode
        rw [hleaf, if_neg Bool.false_ne_true, if_neg hone, hfeature, hthreshold, hright, hindex]
        simp only [Option.bind_some]
        cases features[asUsize feature.1]? with
        | none => rfl
        | some featureVal =>
          simp only [Option.bind_some, strictLeft, decide_eq_true_eq, hl, hr, ih]
          split <;> rfl
    · rw [List.getElem?_eq_none hge, List.getElem?_eq_none (h.length ▸ hge)]
      rfl

theorem traverseTree_eq_leafCounts (h : ConvertedFrom tree raw nClasses) (features : List K) :
    traverseTree tree features =
      (leafCounts raw strictLeft features).map (scaledShare · nClasses) := by
  rw [traverseTree, h.length]
  exact traverseFrom_eq h features _ _

private theorem exists_leafFrom (h : ConvertedFrom tree raw nClasses) {numFeatures i : ℕ}
    (hunfolds : Unfolds tree.view i t) (hbounds : InBounds tree numFeatures) {features : List K}
    (hlength : features.length = numFeatures) (goesLeft : K → K → Bool) {fuel : ℕ}
    (hfuel : t.depth < fuel) : ∃ counts, leafFrom raw goesLeft features fuel i = some counts := by
  induction hunfolds generalizing fuel with
  | leaf hview =>
    obtain ⟨node, hnode, hleaf, -⟩ := view_eq_leaf hview
    obtain ⟨left, hleft, hof⟩ := h.node _ node hnode
    obtain ⟨fuel, rfl⟩ := Nat.exists_eq_succ_of_ne_zero (Nat.ne_zero_of_lt hfuel)
    split at hof
    · rename_i hone
      obtain ⟨-, counts, hcounts, -⟩ := hof
      exact ⟨counts, by simp [leafFrom, hleft, hone, hcounts]⟩
    · rw [hof.1] at hleaf
      cases hleaf
  | @split _ _ _ _ _ leftTree rightTree hview _ _ ihleft ihright =>
    obtain ⟨node, hnode, hsplit, rfl, rfl, rfl, rfl⟩ := view_eq_split hview
    obtain ⟨left, hleft, hof⟩ := h.node _ node hnode
    obtain ⟨fuel, rfl⟩ := Nat.exists_eq_succ_of_ne_zero (Nat.ne_zero_of_lt hfuel)
    rw [ThresholdTree.depth] at hfuel
    split at hof
    · rw [hof.1] at hsplit
      cases hsplit
    · rename_i hone
      obtain ⟨-, feature, right, hfeature, hthreshold, hright, hindex, hl, hr⟩ := hof
      obtain ⟨-, -, hbelow⟩ := hbounds node (List.mem_of_getElem? hnode) hsplit
      rw [hindex, ← hlength] at hbelow
      have hvalue := List.getElem?_eq_getElem hbelow
      obtain ⟨counts, hcounts⟩ := @ihleft fuel (by omega)
      obtain ⟨counts', hcounts'⟩ := @ihright fuel (by omega)
      rw [hl] at hcounts
      rw [hr] at hcounts'
      cases hgoes : goesLeft features[asUsize feature.1] node.threshold with
      | true =>
        refine ⟨counts, ?_⟩
        simp [leafFrom, hleft, hone, hfeature, hthreshold, hright, hvalue, hgoes, hcounts]
      | false =>
        refine ⟨counts', ?_⟩
        simp [leafFrom, hleft, hone, hfeature, hthreshold, hright, hvalue, hgoes, hcounts']

theorem exists_leafCounts (h : ConvertedFrom tree raw nClasses) {numFeatures : ℕ}
    (hholds : tree.Holds t) (hbounds : InBounds tree numFeatures) {features : List K}
    (hlength : features.length = numFeatures) (goesLeft : K → K → Bool) :
    ∃ counts, leafCounts raw goesLeft features = some counts :=
  exists_leafFrom h hholds hbounds hlength goesLeft (h.length ▸ hholds.depth_lt)

end Converted

/-! ## Converted forests -/

section Forests

variable [Field K] [LinearOrder K] [FloorRing K] {json : Json K} {raw : RawRandomForest K}
  {model : XgboostModel K} {features : List K}

/-- A converted tree, which leads to leaves. -/
def Converted (nClasses : ℕ) (raw : RawSklearnTree K) (tree : DecisionTree K) : Prop :=
  ConvertedFrom tree raw nClasses ∧
    ReadFrom tree raw.childrenLeft raw.childrenRight raw.feature ∧ ∃ t, tree.Holds t

/-- An accepted forest: its checks passed, and its trees are converted one by one. -/
structure Accepted (raw : RawRandomForest K) (model : XgboostModel K) : Prop where
  nClasses : raw.nClasses ≠ 0
  numFeatures : model.numFeatures = raw.nFeatures
  numClasses : model.numClasses = raw.nClasses
  baseScore : model.baseScore = 0
  trees : List.Forall₂ (Converted raw.nClasses) raw.trees model.trees

theorem accepted_of_parse (hraw : readRawRandomForest json = some raw)
    (h : parseRandomForestJson json = .ok model) : Accepted raw model := by
  rw [parseRandomForestJson, hraw, okOr, ok_bind] at h
  obtain ⟨_, hcheck, h⟩ := bind_eq_ok.mp h
  obtain ⟨trees, htrees, h⟩ := bind_eq_ok.mp h
  obtain rfl := pure_eq_ok.mp h
  simp only [checkForest, bind_eq_ok, require_eq_ok, decide_eq_true_eq] at hcheck
  obtain ⟨_, -, _, hclasses, -⟩ := hcheck
  refine ⟨hclasses, rfl, rfl, rfl, ?_⟩
  have hconverted : List.Forall₂ (fun ti b => Converted raw.nClasses ti.1 b.1)
      raw.trees.zipIdx trees := by
    refine (mapM_eq_ok.mp htrees).imp fun ti b hb => ?_
    simp only [forestTree, bind_eq_ok, okOr_eq_ok, pure_eq_ok] at hb
    obtain ⟨tree, hconvert, depth, hdepth, rfl⟩ := hb
    exact ⟨convertedFrom_of_convert hconvert, convertSklearnTree_readFrom hconvert,
      exists_treeDepth_iff.mp ⟨depth, hdepth⟩⟩
  have hmap := List.forall₂_map_left_iff.mpr (List.forall₂_map_right_iff.mpr hconverted)
  rwa [List.zipIdx_map_fst] at hmap

private theorem exists_leaves {nClasses numFeatures : ℕ} {raws : List (RawSklearnTree K)}
    {trees : List (DecisionTree K)} (h : List.Forall₂ (Converted nClasses) raws trees)
    (hbelow : ∀ tree ∈ raws,
      IndicesBelow tree.childrenLeft tree.childrenRight tree.feature numFeatures)
    (hlength : features.length = numFeatures) (goesLeft : K → K → Bool) :
    ∃ leaves, raws.mapM (leafCounts · goesLeft features) = some leaves := by
  refine exists_mapM_eq_some_iff.mpr fun raw hmem => ?_
  obtain ⟨i, hi⟩ := List.mem_iff_getElem?.mp hmem
  obtain ⟨tree, -, hconverted, hread, t, ht⟩ := forall₂_getElem? h hi
  exact exists_leafCounts hconverted ht (hread.inBounds_iff.mpr (hbelow raw hmem)) hlength goesLeft

/-- The ensemble adds up the shares of the leaves below the thresholds. -/
private theorem treesGive_shares {nClasses : ℕ} {raws : List (RawSklearnTree K)}
    {trees : List (DecisionTree K)} (h : List.Forall₂ (Converted nClasses) raws trees)
    {reached : List (List K)}
    (hreached : raws.mapM (leafCounts · strictLeft features) = some reached) :
    TreesGive trees features (reached.map (scaledShare · nClasses)) := by
  induction h generalizing reached with
  | nil =>
    obtain rfl := List.forall₂_nil_left_iff.mp (mapM_eq_some.mp hreached)
    exact .nil
  | cons hconverted _ ih =>
    obtain ⟨counts, rest, hcounts, hrest, rfl⟩ :=
      List.forall₂_cons_left_iff.mp (mapM_eq_some.mp hreached)
    refine .cons ?_ (ih (mapM_eq_some.mpr hrest))
    rw [traverseTree_eq_leafCounts hconverted.1, hcounts]
    rfl

omit [FloorRing K] in
/-- Which class the sums of the shares give. -/
private theorem maximises_iff [IsStrictOrderedRing K] {numClasses : ℕ} (hclasses : numClasses ≠ 0)
    (hnumClasses : model.numClasses = numClasses) (hbase : model.baseScore = 0)
    (hlength : features.length = model.numFeatures) {shares : List K}
    (hshares : TreesGive model.trees features shares) (votes : ℕ → K) :
    (∃ c, predict model features = some c ∧ Maximises numClasses votes c) ↔
      SharesAgree numClasses shares votes := by
  rw [SharesAgree]
  split_ifs with hone htwo
  · rw [predict_two hlength (by omega) hshares, hbase, zero_add, hone]
    constructor
    · rintro ⟨c, hc, hlt, -⟩
      obtain rfl := Option.some.inj hc
      by_contra hpos
      rw [if_pos (not_le.mp hpos)] at hlt
      exact absurd hlt (lt_irrefl 1)
    · intro hle
      refine ⟨0, by rw [if_neg (not_lt.mpr hle)], Nat.one_pos, fun d hd => ?_⟩
      rw [Nat.lt_one_iff.mp hd]
  · rw [predict_two hlength (by omega) hshares, hbase, zero_add, htwo]
    constructor
    · rintro ⟨c, hc, -, hmax⟩
      obtain rfl := Option.some.inj hc
      refine ⟨fun hpos => ?_, fun hle => ?_⟩
      · have hzero := hmax 0 (by omega)
        rwa [if_pos hpos] at hzero
      · have hfirst := hmax 1 (by omega)
        rwa [if_neg (not_lt.mpr hle)] at hfirst
    · rintro ⟨hpos, hle⟩
      refine ⟨_, rfl, ?_⟩
      by_cases hsum : 0 < shares.sum
      · rw [if_pos hsum]
        refine ⟨by omega, fun d hd => ?_⟩
        obtain rfl | rfl : d = 0 ∨ d = 1 := by omega
        · exact hpos hsum
        · exact le_rfl
      · rw [if_neg hsum]
        refine ⟨by omega, fun d hd => ?_⟩
        obtain rfl | rfl : d = 0 ∨ d = 1 := by omega
        · exact le_rfl
        · exact hle (not_lt.mp hsum)
  · have hscores : (List.range numClasses).map
        (fun c => model.baseScore + turnTotal numClasses shares c) =
          (List.range numClasses).map (turnTotal numClasses shares) := by
      simp only [hbase, zero_add]
    rw [predict_many hlength (by omega) hshares, hnumClasses, hscores]
    obtain ⟨top, htop, hargmax⟩ := argmax_spec
      (show (List.range numClasses).map (turnTotal numClasses shares) ≠ [] by simpa using hclasses)
    have hbelow : top < numClasses := by
      obtain ⟨score, hscore, -⟩ := htop
      simpa using (List.getElem?_eq_some_iff.mp hscore).1
    rw [hargmax]
    constructor
    · rintro ⟨c, hc, -, hmax⟩ c' hc'
      obtain rfl := Option.some.inj hc
      rwa [hc'.unique htop]
    · intro h
      exact ⟨_, rfl, (Nat.mod_le _ _).trans_lt hbelow, h top htop⟩

/-- On an accepted forest with well-formed trees, the class of the model has the most votes exactly
if the shares agree with the votes. -/
theorem forest_vote_iff [IsStrictOrderedRing K] (hraw : readRawRandomForest json = some raw)
    (hmodel : parseRandomForestJson json = .ok model)
    (hbelow : ∀ tree ∈ raw.trees,
      IndicesBelow tree.childrenLeft tree.childrenRight tree.feature raw.nFeatures)
    (hlength : features.length = raw.nFeatures) :
    VotePreserved raw model features ↔ EncodingAgrees raw features := by
  have haccepted := accepted_of_parse hraw hmodel
  obtain ⟨leaves, hleaves⟩ := exists_leaves haccepted.trees hbelow hlength sklearnLeft
  obtain ⟨reached, hreached⟩ := exists_leaves haccepted.trees hbelow hlength strictLeft
  have hshares := treesGive_shares haccepted.trees hreached
  have hiff := maximises_iff haccepted.nClasses haccepted.numClasses haccepted.baseScore
    (hlength.trans haccepted.numFeatures.symm) hshares (votes leaves)
  constructor
  · rintro ⟨leaves', c, hleaves', hclass, hmax⟩
    obtain rfl := Option.some.inj (hleaves.symm.trans hleaves')
    exact ⟨leaves, reached, hleaves, hreached, hiff.mp ⟨c, hclass, hmax⟩⟩
  · rintro ⟨leaves', reached', hleaves', hreached', hagree⟩
    obtain rfl := Option.some.inj (hleaves.symm.trans hleaves')
    obtain rfl := Option.some.inj (hreached.symm.trans hreached')
    obtain ⟨c, hclass, hmax⟩ := hiff.mpr hagree
    exact ⟨leaves, c, hleaves, hclass, hmax⟩

end Forests

/-! ## Forests of one leaf -/

/-- A forest of one tree, which is one leaf with counts for two classes. -/
def oneLeafDocument (count count' : ℤ) : Json ℚ :=
  .obj [("n_estimators", .int 1), ("n_features", .int 1), ("n_classes", .int 2),
    ("trees", .arr [.obj [("children_left", .arr [.int (-1)]), ("children_right", .arr [.int (-1)]),
      ("feature", .arr [.int (-2)]), ("threshold", .arr [.int (-2)]),
      ("value", .arr [.arr [.int count, .int count']])]])]

private def oneLeafForest (count count' : ℤ) : RawRandomForest ℚ :=
  ⟨"", 1, 1, 2, [⟨[⟨-1, leaf_range⟩], [⟨-1, leaf_range⟩], [⟨-2, by decide⟩], [((-2 : ℤ) : ℚ)],
    [[(count : ℚ), (count' : ℚ)]]⟩]⟩

private def oneLeafModel (share : ℚ) : XgboostModel ℚ := ⟨1, 2, 0, [⟨[leafNode share]⟩], 0⟩

private theorem read_oneLeaf (count count' : ℤ) :
    readRawRandomForest (oneLeafDocument count count') = some (oneLeafForest count count') := rfl

private theorem parse_oneLeaf (count count' : ℤ) :
    parseRandomForestJson (oneLeafDocument count count') =
      .ok (oneLeafModel (scaledShare [(count : ℚ), (count' : ℚ)] 2)) := rfl

private theorem indicesBelow_oneLeaf (count count' : ℤ) :
    ∀ tree ∈ (oneLeafForest count count').trees,
      IndicesBelow tree.childrenLeft tree.childrenRight tree.feature 1 := by
  intro tree htree i left right feature hleft hne
  obtain rfl := List.mem_singleton.mp htree
  obtain ⟨hi, rfl⟩ := List.getElem?_eq_some_iff.mp hleft
  obtain rfl : i = 0 := by simpa [oneLeafForest] using hi
  exact absurd rfl hne

/-- A quarter of the counts is a positive share, and so the class of the quarter wins. -/
theorem quarter_outvotes_rest : ¬ ∀ (json : Json ℚ) (raw : RawRandomForest ℚ)
    (model : XgboostModel ℚ) (features : List ℚ), readRawRandomForest json = some raw →
      parseRandomForestJson json = .ok model →
      (∀ tree ∈ raw.trees,
        IndicesBelow tree.childrenLeft tree.childrenRight tree.feature raw.nFeatures) →
      features.length = raw.nFeatures → VotePreserved raw model features := by
  intro h
  obtain ⟨leaves, c, hleaves, hclass, -, hmax⟩ := h _ _ _ [0] (read_oneLeaf 3 1) (parse_oneLeaf 3 1)
    (indicesBelow_oneLeaf 3 1) rfl
  have hone :
      predict (oneLeafModel (scaledShare [((3 : ℤ) : ℚ), ((1 : ℤ) : ℚ)] 2)) [0] = some 1 := by
    decide +kernel
  obtain rfl := Option.some.inj (hclass.symm.trans hone)
  obtain rfl : [[((3 : ℤ) : ℚ), ((1 : ℤ) : ℚ)]] = leaves := Option.some.inj hleaves
  have hzero := hmax 0 Nat.two_pos
  norm_num [votes] at hzero

/-- Three quarters of the counts win. -/
theorem three_quarters_win : ∃ raw model, readRawRandomForest (oneLeafDocument 1 3) = some raw ∧
    parseRandomForestJson (oneLeafDocument 1 3) = .ok model ∧ VotePreserved raw model [0] := by
  refine ⟨_, _, read_oneLeaf 1 3, parse_oneLeaf 1 3,
    (forest_vote_iff (read_oneLeaf 1 3) (parse_oneLeaf 1 3) (indicesBelow_oneLeaf 1 3) rfl).mpr ?_⟩
  refine ⟨[[((1 : ℤ) : ℚ), ((3 : ℤ) : ℚ)]], _, rfl, rfl, fun _ => ?_, fun hle => absurd hle ?_⟩
  · norm_num [votes]
  · decide +kernel

end WorldZk.ForestVotes
