import WorldZk.EnclaveModel

/-!
# Enclave and prover on one model file

Both sides turn a document into trees that compute the same functions, so their scores agree. For
LightGBM this takes documents in which the fields that only one side reads tell the same as those
that the other side reads.
-/

namespace WorldZk.EnclaveAgreement

open CheckedRuns DecisionTrees JsonValues ModelParsers EnclaveModel
open TreeEnsemble (DecisionTree TreeNode XgboostModel asUsize argmax treeDepth)

variable {K : Type}

/-! ## Walks through the arrays of the enclave -/

def view (tree : EnclaveTree K) (i : ℕ) : Option (NodeView K) := do
  let left ← tree.leftChildren[i]?
  if left = -1 then
    let weight ← tree.baseWeights[i]?
    pure (.leaf weight)
  else
    let feature ← tree.splitIndices[i]?
    let threshold ← tree.splitConditions[i]?
    let right ← tree.rightChildren[i]?
    pure (.split feature threshold (asUsize left) (asUsize right))

section Walks

variable {tree : EnclaveTree K} {i : ℕ}

private theorem view_eq_none (hi : tree.leftChildren.length ≤ i) : view tree i = none := by
  rw [view, List.getElem?_eq_none hi]
  rfl

private theorem view_eq_leaf {value : K} (h : view tree i = some (.leaf value)) :
    tree.leftChildren[i]? = some (-1) ∧ tree.baseWeights[i]? = some value := by
  simp only [view, bind, Option.bind_eq_some_iff] at h
  obtain ⟨left, hleft, h⟩ := h
  split at h
  · next heq =>
    rw [Option.bind_eq_some_iff] at h
    obtain ⟨weight, hweight, h⟩ := h
    cases h
    exact ⟨heq ▸ hleft, hweight⟩
  · simp only [Option.bind_eq_some_iff] at h
    obtain ⟨feature, -, threshold, -, right, -, h⟩ := h
    cases h

private theorem view_eq_split {feature left right : ℕ} {threshold : K}
    (h : view tree i = some (.split feature threshold left right)) :
    ∃ l r : ℤ, tree.leftChildren[i]? = some l ∧ l ≠ -1 ∧ tree.rightChildren[i]? = some r ∧
      tree.splitIndices[i]? = some feature ∧ tree.splitConditions[i]? = some threshold ∧
      asUsize l = left ∧ asUsize r = right := by
  simp only [view, bind, Option.bind_eq_some_iff] at h
  obtain ⟨l, hl, h⟩ := h
  split at h
  · rw [Option.bind_eq_some_iff] at h
    obtain ⟨weight, -, h⟩ := h
    cases h
  · next hne =>
    simp only [Option.bind_eq_some_iff] at h
    obtain ⟨feature', hfeature, threshold', hthreshold, r, hr, h⟩ := h
    cases h
    exact ⟨l, r, hl, hne, hr, hfeature, hthreshold, rfl, rfl⟩

variable [LinearOrder K] {t : ThresholdTree K}

private theorem traverseFrom_eq (h : Unfolds (view tree) i t) (features : List K) {fuel : ℕ}
    (hfuel : t.depth < fuel) : traverseFrom tree features fuel i = t.eval features := by
  induction h generalizing fuel with
  | leaf hview =>
    obtain ⟨hleft, hweight⟩ := view_eq_leaf hview
    obtain ⟨fuel, rfl⟩ : ∃ n, fuel = n + 1 := ⟨fuel - 1, by omega⟩
    simp [traverseFrom, hleft, hweight, ThresholdTree.eval]
  | @split i feature left right threshold leftTree rightTree hview _ _ ihleft ihright =>
    obtain ⟨l, r, hl, hne, hr, hfeature, hthreshold, rfl, rfl⟩ := view_eq_split hview
    obtain ⟨fuel, rfl⟩ : ∃ n, fuel = n + 1 := ⟨fuel - 1, by omega⟩
    have hmaxl := le_max_left leftTree.depth rightTree.depth
    have hmaxr := le_max_right leftTree.depth rightTree.depth
    rw [ThresholdTree.depth] at hfuel
    rw [traverseFrom, ThresholdTree.eval]
    cases hx : features[feature]? with
    | none => simp [hl, hne, hfeature, hthreshold, hx]
    | some x =>
      simp [hl, hne, hr, hfeature, hthreshold, hx, ihleft (show leftTree.depth < fuel by omega),
        ihright (show rightTree.depth < fuel by omega)]

theorem traverseTree_eq (h : Unfolds (view tree) 0 t) (features : List K) :
    traverseTree tree features = t.eval features :=
  traverseFrom_eq h features (h.depth_lt fun _ hj => view_eq_none hj)

end Walks

/-! ## XGBoost trees -/

theorem view_ofXgbTree [Zero K] {xgb : XgbTree K} {tree : DecisionTree K}
    (h : xgbNodes xgb = some tree) : view (ofXgbTree xgb) = tree.view := by
  simp only [xgbNodes, bind, Option.bind_eq_some_iff] at h
  obtain ⟨nodes, hnodes, h⟩ := h
  cases h
  have hforall := mapM_eq_some.mp hnodes
  have hlength : nodes.length = xgb.leftChildren.length := by
    rw [← hforall.length_eq, List.length_range]
  funext i
  rcases Nat.lt_or_ge i xgb.leftChildren.length with hlt | hge
  · obtain ⟨node, hnode, hread⟩ := forall₂_getElem? hforall (List.getElem?_range hlt)
    rw [DecisionTree.view, hnode, Option.map_some]
    simp only [xgbNode, bind, Option.bind_eq_some_iff] at hread
    obtain ⟨left, hleft, hread⟩ := hread
    by_cases hleaf : left.1 = -1
    · rw [if_pos hleaf, Option.bind_eq_some_iff] at hread
      obtain ⟨weight, hweight, hread⟩ := hread
      cases hread
      simp [view, ofXgbTree, hleft, hleaf, hweight, leafNode, TreeNode.view]
    · simp only [if_neg hleaf, Option.bind_eq_some_iff] at hread
      obtain ⟨feature, hfeature, threshold, hthreshold, right, hright, hread⟩ := hread
      cases hread
      simp [view, ofXgbTree, hleft, hleaf, hfeature, hthreshold, hright, TreeNode.view]
  · rw [view_eq_none (show (xgb.leftChildren.map _).length ≤ i by rwa [List.length_map]), DecisionTree.view,
      List.getElem?_eq_none (by rwa [hlength])]
    rfl

/-! ## LightGBM trees -/

section Lightgbm

variable [IntCast K] [Zero K]

/-- A nested node in which `leaf_value` tells the leaves from the splits, and the features are small
enough for the prover's `i32`. -/
inductive SplitsAlike : Json K → Prop
  | leaf {json : Json K} (hleaf : (readLeaf json).isSome) : SplitsAlike json
  | internal {json : Json K} (hleaf : json.get "leaf_value" = none)
      (hfeature : ∀ f, (json.get "split_feature").bind Json.asUsize = some f → f < 2 ^ 31)
      (hleft : ∀ child, json.get "left_child" = some child → SplitsAlike child)
      (hright : ∀ child, json.get "right_child" = some child → SplitsAlike child) :
      SplitsAlike json

/-- The prover reads this node, and the enclave will do so in the same way. -/
private def Reads (json : Json K) (node : LightGBMNode K) : Prop :=
  SplitsAlike json ∧ ∃ fuel, readNode fuel json = some node

omit [IntCast K] [Zero K] in
private theorem get_of_required {α : Type} {read : Json K → Option α} {place : ℕ} {name : String}
    {fields : List (String × Json K)} {a : α}
    (h : (Json.obj fields).required read place name = some a) :
    ∃ value, (Json.obj fields).get name = some value ∧ read value = some a ∧
      (name, value) ∈ fields := by
  simp only [Json.required, bind, Option.bind_eq_some_iff] at h
  obtain ⟨found, hfield, value, hfound, hread⟩ := h
  rw [hfound] at hfield
  exact ⟨value, Json.get_of_field hfield, hread, Json.mem_fields_of_field hfield⟩

private theorem readNode_cases {fuel : ℕ} {json : Json K} {node : LightGBMNode K}
    (h : readNode fuel json = some node) :
    ∃ fields fuel', json = .obj fields ∧ fuel = fuel' + 1 ∧
      (readLeaf json = some node ∨
        readLeaf json = none ∧ readInternal (readNode fuel') json = some node) := by
  cases fuel with
  | zero => cases h
  | succ fuel =>
    cases json with
    | obj fields =>
      refine ⟨fields, fuel, rfl, rfl, ?_⟩
      rw [readNode] at h
      cases hleaf : readLeaf (.obj fields) with
      | some node' =>
        rw [hleaf] at h
        exact .inl h
      | none =>
        rw [hleaf] at h
        exact .inr ⟨rfl, h⟩
    | _ => cases h

omit [Zero K] in
private theorem readLeaf_eq_some {fields : List (String × Json K)} {node : LightGBMNode K}
    (h : readLeaf (.obj fields) = some node) :
    ∃ value x, (Json.obj fields).get "leaf_value" = some value ∧ value.asF64 = some x ∧
      node = .leaf x := by
  simp only [readLeaf, bind, Option.bind_eq_some_iff] at h
  obtain ⟨-, -, x, hx, h⟩ := h
  cases h
  obtain ⟨value, hget, hread, -⟩ := get_of_required hx
  exact ⟨value, x, hget, hread, rfl⟩

/-- The fields of an internal node, as both sides find them. -/
private theorem readInternal_eq_some {readChild : Json K → Option (LightGBMNode K)}
    {fields : List (String × Json K)} {node : LightGBMNode K}
    (h : readInternal readChild (.obj fields) = some node) :
    ∃ f threshold left right leftJson rightJson,
      node = .internal f threshold left right ∧
      ((Json.obj fields).get "split_feature").bind Json.asUsize = some f ∧
      ((Json.obj fields).get "threshold").bind Json.asF64 = some threshold ∧
      (Json.obj fields).get "left_child" = some leftJson ∧ readChild leftJson = some left ∧
      (Json.obj fields).get "right_child" = some rightJson ∧ readChild rightJson = some right ∧
      leftJson.size + rightJson.size < (Json.obj fields).size := by
  simp only [readInternal, bind, Option.bind_eq_some_iff] at h
  obtain ⟨-, -, f, hf, -, -, threshold, hthreshold, -, -, left, hleft, right, hright, h⟩ := h
  cases h
  obtain ⟨fJson, hgetf, hreadf, -⟩ := get_of_required hf
  obtain ⟨thresholdJson, hgetthreshold, hreadthreshold, -⟩ := get_of_required hthreshold
  obtain ⟨leftJson, hgetleft, hreadleft, hmemleft⟩ := get_of_required hleft
  obtain ⟨rightJson, hgetright, hreadright, hmemright⟩ := get_of_required hright
  refine ⟨f, threshold, left, right, leftJson, rightJson, rfl, ?_, ?_, hgetleft, hreadleft, hgetright,
    hreadright, Json.size_add_size_le (by decide) hmemleft hmemright⟩
  · rw [hgetf]
    exact hreadf
  · rw [hgetthreshold]
    exact hreadthreshold

private theorem countNodes_le_size {fuel : ℕ} {json : Json K} {node : LightGBMNode K}
    (h : readNode fuel json = some node) : countNodes node ≤ json.size := by
  induction fuel generalizing json node with
  | zero => cases h
  | succ fuel ih =>
    obtain ⟨fields, fuel', rfl, hfuel, hcases⟩ := readNode_cases h
    obtain rfl : fuel = fuel' := by omega
    rcases hcases with hleaf | ⟨-, hinternal⟩
    · obtain ⟨value, x, -, -, rfl⟩ := readLeaf_eq_some hleaf
      rw [countNodes, Json.size]
      omega
    · obtain ⟨f, threshold, left, right, leftJson, rightJson, rfl, -, -, -, hleft, -, hright, hsize⟩ :=
        readInternal_eq_some hinternal
      have := ih hleft
      have := ih hright
      rw [countNodes]
      omega

private theorem reads_leaf {json : Json K} {x : K} (h : Reads json (.leaf x)) :
    ∃ value, json.get "leaf_value" = some value ∧ value.asF64 = some x := by
  obtain ⟨-, fuel, hread⟩ := h
  obtain ⟨fields, fuel', rfl, -, hleaf | ⟨-, hinternal⟩⟩ := readNode_cases hread
  · obtain ⟨value, x', hget, hvalue, hx⟩ := readLeaf_eq_some hleaf
    cases hx
    exact ⟨value, hget, hvalue⟩
  · obtain ⟨_, _, _, _, _, _, hnode, -⟩ := readInternal_eq_some hinternal
    cases hnode

omit [IntCast K] [Zero K] in
private theorem asI64_of_asUsize {json : Json K} {f : ℕ} (h : json.asUsize = some f)
    (hf : f < 2 ^ 31) : json.asI64 = some (f : ℤ) := by
  cases json with
  | int n =>
    rw [Json.asUsize, Json.asInt] at h
    split at h
    · next hrange =>
      rw [Option.map_some, Option.some.injEq] at h
      have hn : n = (f : ℤ) := by omega
      rw [Json.asI64, Json.asInt, if_pos (by omega), hn]
    · cases h
  | _ => cases h

private theorem reads_internal {json : Json K} {f : ℕ} {threshold : K}
    {left right : LightGBMNode K} (h : Reads json (.internal f threshold left right)) (idx : ℕ) :
    ∃ leftJson rightJson, json.get "leaf_value" = none ∧ f < 2 ^ 31 ∧
      readSplitNode json idx = .ok ⟨f, threshold, leftJson, rightJson⟩ ∧
      Reads leftJson left ∧ Reads rightJson right := by
  obtain ⟨halike, fuel, hread⟩ := h
  obtain ⟨fields, fuel', rfl, -, hleaf | ⟨hnot, hinternal⟩⟩ := readNode_cases hread
  · obtain ⟨_, _, -, -, hnode⟩ := readLeaf_eq_some hleaf
    cases hnode
  · obtain ⟨f', threshold', left', right', leftJson, rightJson, hnode, hgetf, hgetthreshold, hgetleft,
      hreadleft, hgetright, hreadright, -⟩ := readInternal_eq_some hinternal
    cases hnode
    cases halike with
    | leaf hsome => rw [hnot] at hsome; cases hsome
    | internal hleaf hfeature hleft hright =>
      have hlt := hfeature f hgetf
      refine ⟨leftJson, rightJson, hleaf, hlt, ?_, ⟨hleft _ hgetleft, fuel', hreadleft⟩,
        ⟨hright _ hgetright, fuel', hreadright⟩⟩
      have hget64 : ((Json.obj fields).get "split_feature").bind Json.asI64 = some (f : ℤ) := by
        rw [Option.bind_eq_some_iff] at hgetf ⊢
        obtain ⟨fJson, hfJson, hread⟩ := hgetf
        exact ⟨fJson, hfJson, asI64_of_asUsize hread hlt⟩
      have hf : asUsize (f : ℤ) = f := by
        rw [asUsize]
        omega
      rw [readSplitNode, hget64, hgetthreshold, hgetleft, hgetright]
      simp only [orError, ok_bind, hf]
      rfl

/-! ## The loop of the enclave -/

omit [IntCast K] [Zero K] in
/-- All five arrays have one entry for each node. -/
private structure Sized (tree : EnclaveTree K) (n : ℕ) : Prop where
  left : tree.leftChildren.length = n
  right : tree.rightChildren.length = n
  split : tree.splitIndices.length = n
  condition : tree.splitConditions.length = n
  weight : tree.baseWeights.length = n

omit [IntCast K] in
private theorem Sized.pushSlot {tree : EnclaveTree K} {n : ℕ} (h : Sized tree n) :
    Sized tree.pushSlot (n + 1) := by
  obtain ⟨h1, h2, h3, h4, h5⟩ := h
  constructor <;> simp [EnclaveTree.pushSlot, *]

omit [IntCast K] [Zero K] in
private theorem Sized.setNode {tree : EnclaveTree K} {n : ℕ} (h : Sized tree n) (idx : ℕ) (l r : ℤ)
    (f : ℕ) (threshold weight : K) : Sized (tree.setNode idx l r f threshold weight) n := by
  obtain ⟨h1, h2, h3, h4, h5⟩ := h
  constructor <;> simp [EnclaveTree.setNode, *]

omit [IntCast K] in
private theorem view_pushSlot {tree : EnclaveTree K} {n j : ℕ} (h : Sized tree n) (hj : j < n) :
    view tree.pushSlot j = view tree j := by
  obtain ⟨h1, h2, h3, h4, h5⟩ := h
  simp only [view, EnclaveTree.pushSlot]
  rw [List.getElem?_append_left (by omega), List.getElem?_append_left (by omega),
    List.getElem?_append_left (by omega), List.getElem?_append_left (by omega),
    List.getElem?_append_left (by omega)]

omit [IntCast K] [Zero K] in
private theorem view_setNode_of_ne {tree : EnclaveTree K} {idx j : ℕ} (hj : j ≠ idx) (l r : ℤ)
    (f : ℕ) (threshold weight : K) :
    view (tree.setNode idx l r f threshold weight) j = view tree j := by
  simp only [view, EnclaveTree.setNode, List.getElem?_set_ne (Ne.symm hj)]

omit [IntCast K] [Zero K] in
private theorem view_setNode_leaf {tree : EnclaveTree K} {n idx : ℕ} (h : Sized tree n)
    (hidx : idx < n) (r : ℤ) (f : ℕ) (threshold weight : K) :
    view (tree.setNode idx (-1) r f threshold weight) idx = some (.leaf weight) := by
  obtain ⟨h1, h2, h3, h4, h5⟩ := h
  simp only [view, EnclaveTree.setNode]
  rw [List.getElem?_set_self (by omega), List.getElem?_set_self (by omega)]
  rfl

omit [IntCast K] [Zero K] in
private theorem view_setNode_split {tree : EnclaveTree K} {n idx : ℕ} (h : Sized tree n)
    (hidx : idx < n) {l : ℤ} (hl : l ≠ -1) (r : ℤ) (f : ℕ) (threshold weight : K) :
    view (tree.setNode idx l r f threshold weight) idx =
      some (.split f threshold (asUsize l) (asUsize r)) := by
  obtain ⟨h1, h2, h3, h4, h5⟩ := h
  simp only [view, EnclaveTree.setNode]
  rw [List.getElem?_set_self (by omega), List.getElem?_set_self (by omega),
    List.getElem?_set_self (by omega), List.getElem?_set_self (by omega),
    List.getElem?_set_self (by omega)]
  simp only [bind, Option.bind_some, if_neg hl]
  rfl

/-- A value in the queue, with the node that the prover reads in it and its slot. -/
private structure Pending (K : Type) [IntCast K] [Zero K] where
  json : Json K
  node : LightGBMNode K
  slot : ℕ
  reads : Reads json node

/-- With a round for every pending node, and few enough of them for `i32` indices, the loop ends
with all of them written. -/
private theorem flattenValues_flattens {fuel next : ℕ} {queue : List (Pending K)}
    {tree : EnclaveTree K} (hsized : Sized tree next)
    (hfuel : pendingNodes (queue.map fun p => (p.node, p.slot)) ≤ fuel)
    (hslots : ∀ p ∈ queue, p.slot < next)
    (hroom : next + pendingNodes (queue.map fun p => (p.node, p.slot)) ≤ 2 ^ 31 + queue.length) :
    ∃ final, flattenValues fuel (queue.map fun p => (p.json, p.slot)) tree = .ok final ∧
      Flattens (view tree) (queue.map fun p => (p.node.toTree, p.slot)) next (view final) := by
  induction fuel generalizing queue next tree with
  | zero =>
    have hle := length_le_pendingNodes (queue.map fun p => (p.node, p.slot))
    rw [List.length_map] at hle
    obtain rfl : queue = [] := List.length_eq_zero_iff.mp (by omega)
    exact ⟨tree, rfl, .done⟩
  | succ fuel ih =>
    rcases queue with _ | ⟨⟨json, node, i, hreads⟩, queue⟩
    · exact ⟨tree, rfl, .done⟩
    · have hle := length_le_pendingNodes (queue.map fun p => (p.node, p.slot))
      have hpending : pendingNodes ((⟨json, node, i, hreads⟩ :: queue).map
          fun p : Pending K => (p.node, p.slot)) =
          countNodes node + pendingNodes (queue.map fun p => (p.node, p.slot)) := rfl
      have hpos := countNodes_pos node
      have hi : i < next := hslots _ List.mem_cons_self
      have hrest : ∀ p ∈ queue, p.slot < next := fun p hp => hslots p (List.mem_cons_of_mem _ hp)
      rw [hpending] at hfuel hroom
      rw [List.length_map] at hle
      rw [List.length_cons] at hroom
      simp only [List.map_cons]
      cases node with
      | leaf x =>
        obtain ⟨value, hget, hvalue⟩ := reads_leaf hreads
        obtain ⟨final, hfinal, hflat⟩ := ih (hsized.setNode i (-1) (-1) 0 0 x) (by omega) hrest
          (by rw [countNodes] at hroom; omega)
        refine ⟨final, ?_, .leaf (view_setNode_leaf hsized hi (-1) 0 0 x)
          (fun j _ hj => view_setNode_of_ne hj (-1) (-1) 0 0 x) hflat⟩
        rw [flattenValues, hget]
        simp only [hvalue, orError, ok_bind]
        exact hfinal
      | internal f threshold left right =>
        obtain ⟨leftJson, rightJson, hnone, hf, hsplit, hleft, hright⟩ := reads_internal hreads i
        rw [countNodes] at hfuel hroom
        have hposleft := countNodes_pos left
        have hposright := countNodes_pos right
        have hgrown := hsized.pushSlot.pushSlot
        have hl : wrapI32 (next : ℤ) ≠ -1 := by
          rw [wrapI32_eq (by omega)]
          omega
        let children : List (Pending K) :=
          [⟨leftJson, left, next, hleft⟩, ⟨rightJson, right, next + 1, hright⟩]
        have hpending' : pendingNodes ((queue ++ children).map fun p => (p.node, p.slot)) =
            pendingNodes (queue.map fun p => (p.node, p.slot)) +
              (countNodes left + countNodes right) := by
          simp [pendingNodes, children]
        obtain ⟨final, hfinal, hflat⟩ := @ih (next + 2) (queue ++ children) _
          (hgrown.setNode i (wrapI32 next) (wrapI32 (next + 1 : ℕ)) f threshold 0)
          (by rw [hpending']; omega)
          (by
            intro p hp
            rcases List.mem_append.mp hp with hp | hp
            · have := hrest p hp
              omega
            · simp only [children, List.mem_cons, List.not_mem_nil, or_false] at hp
              rcases hp with rfl | rfl <;> simp)
          (by
            have hlength : children.length = 2 := rfl
            rw [hpending', List.length_append, hlength]
            omega)
        refine ⟨final, ?_, ?_⟩
        · rw [flattenValues, hnone]
          simp only [hsplit, ok_bind, hsized.left]
          rw [List.map_append] at hfinal
          exact hfinal
        · rw [LightGBMNode.toTree, asUsize_wrapI32 hf]
          refine .split ?_ ?_ (by rw [List.map_append] at hflat; exact hflat)
          · rw [view_setNode_split hgrown (by omega) hl, asUsize_wrapI32 (by omega),
              asUsize_wrapI32 (by omega)]
          · intro j hj hne
            rw [view_setNode_of_ne hne, view_pushSlot hsized.pushSlot (by omega),
              view_pushSlot hsized hj]

theorem flattenLgbTree_unfolds {json : Json K} {node : LightGBMNode K} (halike : SplitsAlike json)
    (hread : readLightGBMNode json = some node) (hcount : countNodes node ≤ 2 ^ 31) :
    ∃ tree, flattenLgbTree json = .ok tree ∧ Unfolds (view tree) 0 node.toTree := by
  have hempty : Sized (EnclaveTree.empty : EnclaveTree K) 0 := ⟨rfl, rfl, rfl, rfl, rfl⟩
  have hpending : pendingNodes [(node, 0)] = countNodes node := by simp [pendingNodes]
  have hsize := countNodes_le_size hread
  obtain ⟨tree, htree, hflat⟩ := @flattenValues_flattens K _ _ json.size 1
    [⟨json, node, 0, halike, _, hread⟩] _ hempty.pushSlot
    (by rw [List.map_cons, List.map_nil, hpending]; exact hsize) (by simp)
    (by rw [List.map_cons, List.map_nil, hpending, List.length_singleton]; omega)
  exact ⟨tree, htree, hflat.unfolds⟩

end Lightgbm

/-! ## Scores -/

/-- The two tables hold one tree. -/
def SameTree (tree : DecisionTree K) (tree' : EnclaveTree K) : Prop :=
  ∃ t, tree.Holds t ∧ Unfolds (view tree') 0 t

section Scores

variable [LinearOrder K] {trees : List (DecisionTree K)} {trees' : List (EnclaveTree K)}

private theorem SameTree.traverse_eq {tree : DecisionTree K} {tree' : EnclaveTree K}
    (h : SameTree tree tree') (features : List K) :
    TreeEnsemble.traverseTree tree features = traverseTree tree' features := by
  obtain ⟨t, ht, ht'⟩ := h
  rw [TreeEnsemble.traverseTree_eq ht, traverseTree_eq ht']

private theorem sumScores_eq [AddMonoid K] (h : List.Forall₂ SameTree trees trees')
    (features : List K) (score : K) :
    trees.foldlM (fun score tree => do
        let value ← TreeEnsemble.traverseTree tree features
        pure (score + value)) score =
      (trees'.mapM fun tree => traverseTree tree features).map fun values =>
        score + values.sum := by
  induction h generalizing score with
  | nil => simp
  | @cons tree tree' trees trees' htree _ ih =>
    rw [List.foldlM_cons, List.mapM_cons, htree.traverse_eq features]
    cases traverseTree tree' features with
    | none => rfl
    | some value =>
      change trees.foldlM _ (score + value) = _
      rw [ih]
      cases trees'.mapM fun tree => traverseTree tree features with
      | none => rfl
      | some values =>
        change some (score + value + values.sum) = some (score + (value :: values).sum)
        rw [List.sum_cons, add_assoc]

private theorem classScores_eq [Add K] (h : List.Forall₂ SameTree trees trees')
    (features : List K) (classes : ℕ) (scores : List K) :
    trees.zipIdx.foldlM (fun scores ti => do
        let value ← TreeEnsemble.traverseTree ti.1 features
        pure (scores.modify (ti.2 % classes) (· + value))) scores =
      trees'.zipIdx.foldlM (fun scores ti => do
        let value ← traverseTree ti.1 features
        pure (scores.modify (ti.2 % classes) (· + value))) scores := by
  refine TreeEnsemble.foldlM_eq_of_forall₂ (TreeEnsemble.forall₂_zipIdx_zipIdx h 0) ?_ scores
  intro scores p q hpq
  rw [hpq.1.traverse_eq, hpq.2]

private theorem length_classScores [Add K] {features : List K} {classes start : ℕ}
    {scores final : List K}
    (h : (trees'.zipIdx start).foldlM (fun scores ti => do
        let value ← traverseTree ti.1 features
        pure (scores.modify (ti.2 % classes) (· + value))) scores = some final) :
    final.length = scores.length := by
  induction trees' generalizing start scores with
  | nil =>
    cases h
    rfl
  | cons tree' trees' ih =>
    rw [List.zipIdx_cons, List.foldlM_cons] at h
    cases hvalue : traverseTree tree' features with
    | none =>
      rw [hvalue] at h
      cases h
    | some value =>
      rw [hvalue] at h
      rw [ih h, List.length_modify]

private theorem classOfScores_eq_argmax [Zero K] {scores : List K} (h : 2 < scores.length) :
    classOfScores scores = argmax scores := by
  rcases scores with _ | ⟨_, _ | ⟨_, _⟩⟩
  · rfl
  · simp at h
  · rfl

/-- Ensembles of the same trees give the same class. -/
theorem class_eq [AddCommMonoid K] {m : XgboostModel K} {e : EnclaveEnsemble K}
    (hclasses : e.numClasses = m.numClasses) (hbase : e.baseScore = m.baseScore)
    (htrees : List.Forall₂ SameTree m.trees e.trees) {features : List K}
    (hlength : features.length = m.numFeatures) :
    (predict e features).map classOfScores = TreeEnsemble.predict m features := by
  rw [predict, TreeEnsemble.predict, if_neg (not_not_intro hlength), hclasses, hbase]
  by_cases htwo : m.numClasses ≤ 2
  · rw [if_pos htwo, if_pos htwo, TreeEnsemble.binaryScore, sumScores_eq htrees]
    cases e.trees.mapM fun tree => traverseTree tree features with
    | none => rfl
    | some values =>
      change some (if 0 < values.sum + m.baseScore then 1 else 0) =
        some (if 0 < m.baseScore + values.sum then 1 else 0)
      rw [add_comm]
  · rw [if_neg htwo, if_neg htwo, TreeEnsemble.classScores, classScores_eq htrees]
    rw [bind_pure_comp, Option.map_eq_map]
    refine Option.map_congr ?_
    intro scores hscores
    have hlen := length_classScores hscores
    rw [List.length_replicate] at hlen
    exact classOfScores_eq_argmax (by omega)

end Scores

/-! ## Documents -/

private theorem forall₂_of_common {α β γ : Type} {R : α → β → Prop} {S : α → γ → Prop}
    {T : β → γ → Prop} {xs : List α} {ys : List β} {zs : List γ} (hR : List.Forall₂ R xs ys)
    (hS : List.Forall₂ S xs zs) (h : ∀ x y z, R x y → S x z → T y z) : List.Forall₂ T ys zs := by
  induction hR generalizing zs with
  | nil =>
    cases hS
    exact .nil
  | cons hxy _ ih =>
    cases hS with
    | cons hxz hrest => exact .cons (h _ _ _ hxy hxz) (ih hrest)

private theorem forall₂_zipIdx {α β : Type} {P : α × ℕ → β → Prop} {xs : List α} {start : ℕ}
    {ys : List β} (h : List.Forall₂ P (xs.zipIdx start) ys) :
    List.Forall₂ (fun x y => ∃ i, P (x, i) y) xs ys := by
  induction xs generalizing start ys with
  | nil =>
    cases h
    exact .nil
  | cons x xs ih =>
    rw [List.zipIdx_cons] at h
    cases h with
    | cons hx hrest => exact .cons ⟨start, hx⟩ (ih hrest)

inductive ModelFormat where
  | xgboost
  | lightgbm
deriving DecidableEq, Repr

section Documents

variable [Field K]

def proverParse : ModelFormat → Json K → Except ModelError (XgboostModel K)
  | .xgboost => parseXgboostJson
  | .lightgbm => parseLightgbmJson

def enclaveParse : ModelFormat → Json K → Except ModelError (EnclaveEnsemble K)
  | .xgboost => parseXgboost
  | .lightgbm => parseLightgbm

/-- A LightGBM document in which the fields that only one side reads agree with the others. -/
structure ReadsAlike (json : Json K) : Prop where
  /-- The prover counts the classes by one field, the enclave by the other. -/
  classes : ∀ lgbm raw, readLightGBMModel json = some lgbm → readLgbJsonModel json = some raw →
    lgbm.numClass ≤ 1 ∧ raw.numTreePerIteration.getD 1 ≤ 1 ∨
      raw.numTreePerIteration.getD 1 = lgbm.numClass
  /-- Without a number of features the prover takes one and the enclave looks for the largest. -/
  features : ∀ raw, readLgbJsonModel json = some raw →
    raw.maxFeatureIdx.isSome ∨ maxFeature raw.treeInfo = 0
  nodes : ∀ raw, readLgbJsonModel json = some raw → ∀ ts, some ts ∈ raw.treeInfo → SplitsAlike ts
  /-- The enclave's indices are `i32`. -/
  sizes : ∀ lgbm, readLightGBMModel json = some lgbm →
    ∀ node ∈ lgbm.treeInfo, countNodes node ≤ 2 ^ 31

private theorem sameTree_xgboost {ti : XgbTree K × ℕ} {tree : DecisionTree K × ℕ}
    {tree' : EnclaveTree K} (h : xgbTree ti = .ok tree) (h' : keepXgbTree ti = .ok tree') :
    SameTree tree.1 tree' := by
  simp only [xgbTree, bind_eq_ok, orError_eq_ok, pure_eq_ok] at h
  obtain ⟨-, -, tree, hnodes, depth, hdepth, rfl⟩ := h
  simp only [keepXgbTree, bind_eq_ok, pure_eq_ok] at h'
  obtain ⟨-, -, rfl⟩ := h'
  obtain ⟨t, ht, -⟩ := TreeEnsemble.treeDepth_eq_some.mp hdepth
  refine ⟨t, ht, ?_⟩
  rw [view_ofXgbTree hnodes]
  exact ht

private theorem parse_xgboost {json : Json K} {m : XgboostModel K} {e : EnclaveEnsemble K}
    (hm : parseXgboostJson json = .ok m) (he : parseXgboost json = .ok e) :
    e.numFeatures = m.numFeatures ∧ e.numClasses = m.numClasses ∧ e.baseScore = m.baseScore ∧
      List.Forall₂ SameTree m.trees e.trees := by
  simp only [parseXgboostJson, bind_eq_ok, orError_eq_ok, pure_eq_ok] at hm
  obtain ⟨raw, hraw, header, hheader, trees, htrees, rfl⟩ := hm
  simp only [parseXgboost, hraw, hheader, bind_eq_ok, orError, pure_eq_ok, ok_bind] at he
  obtain ⟨trees', htrees', -, -, rfl⟩ := he
  refine ⟨rfl, rfl, rfl, ?_⟩
  rw [assemble, List.forall₂_map_left_iff]
  exact forall₂_of_common (mapM_eq_ok.mp htrees) (mapM_eq_ok.mp htrees')
    fun _ _ _ h h' => sameTree_xgboost h h'

private theorem treeInfo_same {item : Json K} {node : LightGBMNode K} {ts : Option (Json K)}
    (h : readLightGBMTreeInfo item = some node) (h' : readLgbTreeInfo item = some ts) :
    ∃ value, ts = some value ∧ readLightGBMNode value = some node := by
  simp only [readLightGBMTreeInfo, bind, Option.bind_eq_some_iff] at h
  obtain ⟨-, -, -, -, -, -, -, -, h⟩ := h
  simp only [readLgbTreeInfo, bind, Option.bind_eq_some_iff] at h'
  obtain ⟨u, hshape, h'⟩ := h'
  simp only [Json.required, bind, Option.bind_eq_some_iff] at h
  obtain ⟨found, hfield, value, rfl, hread⟩ := h
  cases item with
  | obj fields =>
    rw [Json.field_obj 3 0] at hfield
    simp only [Json.optional, hfield, bind, Option.bind_some] at h'
    refine ⟨value, ?_, hread⟩
    cases value with
    | null => cases hread
    | _ => cases h'; rfl
  | arr items =>
    -- as an array the prover needs four entries, where the enclave allows one
    rw [Json.field, Option.some.injEq] at hfield
    obtain ⟨hlt, -⟩ := List.getElem?_eq_some_iff.mp hfield
    simp only [Json.isStruct, Option.guard_eq_some', decide_eq_true_eq] at hshape
    omega
  | _ => cases hfield

omit [Field K] in
private theorem asI64_eq_of_asUsize {json : Json K} {f : ℕ} {n : ℤ} (h : json.asUsize = some f)
    (h' : json.asOption Json.asI64 = some (some n)) : n = f := by
  cases json with
  | int k =>
    simp only [Json.asUsize, Json.asInt, Option.map_eq_some_iff] at h
    obtain ⟨k', hk, hf⟩ := h
    simp only [Json.asOption, Json.asI64, Json.asInt, Option.map_eq_some_iff] at h'
    obtain ⟨k'', hk'', hn⟩ := h'
    split at hk
    · split at hk''
      · cases hk
        cases hk''
        cases hn
        omega
      · cases hk''
    · cases hk
  | _ => cases h

omit [Field K] in
private theorem asOption_ne_none {json : Json K} {f : ℕ} (h : json.asUsize = some f) :
    json.asOption Json.asI64 ≠ some none := by
  cases json with
  | int n =>
    intro h'
    change (Json.asI64 (.int n : Json K)).map some = some none at h'
    rw [Option.map_eq_some_iff] at h'
    obtain ⟨_, -, h'⟩ := h'
    cases h'
  | _ => cases h

omit [Field K] in
/-- A count that the prover needs and the enclave may do without. -/
private theorem optional_same {fields : List (String × Json K)} {default place place' : ℕ}
    {name : String} {f : ℕ} {found : Option ℤ}
    (h : (Json.obj fields).optional default Json.asUsize place name = some f)
    (h' : (Json.obj fields).optional none (Json.asOption Json.asI64) place' name = some found) :
    (∀ n, found = some n → n = f) ∧ (found = none → f = default) := by
  rw [Json.optional, Json.field_obj place 0] at h
  rw [Json.optional, Json.field_obj place' 0] at h'
  cases hfield : (Json.obj fields).field 0 name with
  | none =>
    rw [hfield] at h
    cases h
  | some member =>
    rw [hfield] at h h'
    cases member with
    | none =>
      cases h
      cases h'
      exact ⟨fun _ h => (by cases h), fun _ => rfl⟩
    | some value =>
      change value.asUsize = some f at h
      change value.asOption Json.asI64 = some found at h'
      constructor
      · intro n hn
        exact asI64_eq_of_asUsize h (h'.trans (congrArg some hn))
      · intro hnone
        exact absurd (h'.trans (congrArg some hnone)) (asOption_ne_none h)

omit [Field K] in
private theorem lt_of_optional {json : Json K} {default place : ℕ} {name : String} {f : ℕ}
    (hdefault : default < 2 ^ 64)
    (h : json.optional default Json.asUsize place name = some f) : f < 2 ^ 64 := by
  simp only [Json.optional, bind, Option.bind_eq_some_iff] at h
  obtain ⟨found, -, h⟩ := h
  cases found with
  | none =>
    cases h
    exact hdefault
  | some value =>
    cases value with
    | int n =>
      change (Json.asUsize (.int n : Json K)) = some f at h
      simp only [Json.asUsize, Json.asInt, Option.map_eq_some_iff] at h
      obtain ⟨k, hk, rfl⟩ := h
      split at hk
      · cases hk
        omega
      · cases hk
    | _ => cases h

/-- A document that both sides read is an object, and they read the same fields and trees. -/
private theorem document_same {json : Json K} {lgbm : LightGBMModel K} {raw : LgbJsonModel K}
    (h : readLightGBMModel json = some lgbm) (h' : readLgbJsonModel json = some raw) :
    List.Forall₂ (fun node ts => ∃ value, ts = some value ∧ readLightGBMNode value = some node)
        lgbm.treeInfo raw.treeInfo ∧
      ((∀ mfi, raw.maxFeatureIdx = some mfi → mfi = lgbm.maxFeatureIdx) ∧
        (raw.maxFeatureIdx = none → lgbm.maxFeatureIdx = 0)) ∧
      0 ≤ raw.numTreePerIteration.getD 1 ∧ lgbm.numClass < 2 ^ 64 := by
  simp only [readLightGBMModel, bind, Option.bind_eq_some_iff] at h
  obtain ⟨-, -, numClass, hnumClass, numTree, hnumTree, maxFeatureIdx, hmax, treeInfo, htrees, -, -,
    h⟩ := h
  cases h
  simp only [readLgbJsonModel, bind, Option.bind_eq_some_iff] at h'
  obtain ⟨-, -, treeInfo', htrees', maxFeatureIdx', hmax', -, -, numTree', hnumTree', h'⟩ := h'
  cases h'
  simp only [Json.required, bind, Option.bind_eq_some_iff] at htrees
  obtain ⟨found, hfield, value, rfl, htrees⟩ := htrees
  cases json with
  | obj fields =>
    refine ⟨?_, optional_same hmax hmax', ?_, lt_of_optional (by decide) hnumClass⟩
    · rw [Json.field_obj 3 0] at hfield
      simp only [Json.optional, hfield, bind, Option.bind_some] at htrees'
      cases value with
      | arr items =>
        exact forall₂_of_common (mapM_eq_some.mp htrees) (mapM_eq_some.mp htrees')
          fun _ _ _ hnode hts => treeInfo_same hnode hts
      | _ => cases htrees
    · have hsame := (optional_same hnumTree hnumTree').1
      change 0 ≤ numTree'.getD 1
      cases numTree' with
      | none => exact Int.one_nonneg
      | some n =>
        rw [Option.getD_some, hsame n rfl]
        exact Int.natCast_nonneg _
  | arr items =>
    -- the first entry of an array is a number for the prover and an array for the enclave
    rw [Json.field, Option.some.injEq] at hfield
    obtain ⟨hlt, -⟩ := List.getElem?_eq_some_iff.mp hfield
    have hfirst : items[0]? = some (items.get ⟨0, by omega⟩) := List.getElem?_eq_getElem _
    simp only [Json.optional, Json.field, hfirst, bind, Option.bind_some] at hnumClass htrees'
    cases hitem : items.get ⟨0, by omega⟩ with
    | int n =>
      rw [hitem] at htrees'
      cases htrees'
    | _ =>
      rw [hitem] at hnumClass
      cases hnumClass
  | _ => cases hfield

omit [Field K] in
private theorem numClasses_same {lgbm : LightGBMModel K} {raw : LgbJsonModel K}
    (hnonneg : 0 ≤ raw.numTreePerIteration.getD 1) (hlt : lgbm.numClass < 2 ^ 64)
    (h : lgbm.numClass ≤ 1 ∧ raw.numTreePerIteration.getD 1 ≤ 1 ∨
      raw.numTreePerIteration.getD 1 = lgbm.numClass) :
    lgbNumClasses raw = if lgbm.numClass ≤ 1 then 2 else lgbm.numClass := by
  rw [lgbNumClasses]
  generalize raw.numTreePerIteration.getD 1 = numTree at hnonneg h
  rcases h with ⟨hone, hone'⟩ | heq
  · have hsmall : asUsize numTree ≤ 1 := by
      rw [asUsize]
      omega
    rw [if_pos hone]
    exact if_pos hsmall
  · have hsame : asUsize numTree = lgbm.numClass := by
      rw [heq, asUsize]
      omega
    rw [hsame]

private theorem sameTree_lightgbm {node : LightGBMNode K} {value : Json K} {i j : ℕ}
    {tree : DecisionTree K × ℕ} {tree' : EnclaveTree K}
    (hread : readLightGBMNode value = some node) (halike : SplitsAlike value)
    (hcount : countNodes node ≤ 2 ^ 31) (h : lgbmTree (node, i) = .ok tree)
    (h' : lgbTree (some value, j) = .ok tree') : SameTree tree.1 tree' := by
  simp only [lgbmTree, bind_eq_ok, orError_eq_ok, pure_eq_ok] at h
  obtain ⟨flat, hflat, -, -, depth, -, rfl⟩ := h
  obtain ⟨flat', hflat', hholds⟩ := flattenLgbmTree_holds node
  rw [hflat] at hflat'
  cases hflat'
  obtain ⟨arrays, harrays, hunfolds⟩ := flattenLgbTree_unfolds halike hread hcount
  simp only [lgbTree, orError, ok_bind, harrays] at h'
  cases h'
  exact ⟨node.toTree, hholds, hunfolds⟩

private theorem parse_lightgbm {json : Json K} {m : XgboostModel K} {e : EnclaveEnsemble K}
    (hm : parseLightgbmJson json = .ok m) (he : parseLightgbm json = .ok e)
    (halike : ReadsAlike json) :
    e.numFeatures = m.numFeatures ∧ e.numClasses = m.numClasses ∧ e.baseScore = m.baseScore ∧
      List.Forall₂ SameTree m.trees e.trees := by
  simp only [parseLightgbmJson, bind_eq_ok, orError_eq_ok, pure_eq_ok] at hm
  obtain ⟨lgbm, hlgbm, trees, htrees, rfl⟩ := hm
  simp only [parseLightgbm, bind_eq_ok, orError_eq_ok, pure_eq_ok] at he
  obtain ⟨raw, hraw, -, -, trees', htrees', rfl⟩ := he
  obtain ⟨hsame, ⟨hsome, hnone⟩, hnonneg, hlt⟩ := document_same hlgbm hraw
  refine ⟨?_, ?_, rfl, ?_⟩
  · change lgbNumFeatures raw = (lgbm.maxFeatureIdx + 1) % 2 ^ 64
    rw [lgbNumFeatures]
    cases hmfi : raw.maxFeatureIdx with
    | some mfi =>
      rw [hsome mfi hmfi]
      change asUsize _ = _
      rw [asUsize]
      omega
    | none =>
      rcases halike.features raw hraw with hsome | hzero
      · rw [hmfi] at hsome
        cases hsome
      · change maxFeature raw.treeInfo + 1 = _
        rw [hnone hmfi, hzero]
        rfl
  · exact numClasses_same hnonneg hlt (halike.classes lgbm raw hlgbm hraw)
  · rw [assemble, List.forall₂_map_left_iff]
    have hnodes := forall₂_zipIdx (mapM_eq_ok.mp htrees)
    have hvalues := forall₂_zipIdx (mapM_eq_ok.mp htrees')
    rw [List.forall₂_iff_get] at hsame hnodes hvalues ⊢
    refine ⟨hnodes.1.symm.trans (hsame.1.trans hvalues.1), ?_⟩
    intro k hk hk'
    have hkn : k < lgbm.treeInfo.length := by rw [hnodes.1]; exact hk
    have hkv : k < raw.treeInfo.length := by rw [hvalues.1]; exact hk'
    obtain ⟨value, hvalue, hread⟩ := hsame.2 k hkn hkv
    obtain ⟨i, htree⟩ := hnodes.2 k hkn hk
    obtain ⟨j, htree'⟩ := hvalues.2 k hkv hk'
    rw [hvalue] at htree'
    refine sameTree_lightgbm hread ?_ ?_ htree htree'
    · refine halike.nodes raw hraw value ?_
      rw [← hvalue]
      exact List.get_mem _ _
    · exact halike.sizes lgbm hlgbm _ (List.get_mem _ _)

/-- On every feature vector of the declared length the enclave's scores give the prover's class. -/
def SameClass [LinearOrder K] (m : XgboostModel K) (e : EnclaveEnsemble K) : Prop :=
  ∀ features : List K, features.length = m.numFeatures ∨ features.length = e.numFeatures →
    (predict e features).map classOfScores = TreeEnsemble.predict m features

/-- Both sides compute the same class from a document that they read alike; every XGBoost document
is one. -/
theorem sameClass_of_readsAlike [LinearOrder K] {format : ModelFormat} {json : Json K}
    {m : XgboostModel K} {e : EnclaveEnsemble K} (hm : proverParse format json = .ok m)
    (he : enclaveParse format json = .ok e) (halike : format = .lightgbm → ReadsAlike json) :
    SameClass m e := by
  have hsame : e.numFeatures = m.numFeatures ∧ e.numClasses = m.numClasses ∧
      e.baseScore = m.baseScore ∧ List.Forall₂ SameTree m.trees e.trees := by
    cases format with
    | xgboost => exact parse_xgboost hm he
    | lightgbm => exact parse_lightgbm hm he (halike rfl)
  obtain ⟨hfeatures, hclasses, hbase, htrees⟩ := hsame
  intro features hlength
  refine class_eq hclasses hbase htrees ?_
  rcases hlength with h | h
  · exact h
  · exact h.trans hfeatures

end Documents

/-! ## Two documents -/

def leafJson (index : ℕ) (value : ℚ) : Json ℚ :=
  .obj [("leaf_index", .int index), ("leaf_value", .float value)]

def stumpDocument : Json ℚ :=
  .obj [("num_class", .int 1), ("num_tree_per_iteration", .int 1), ("max_feature_idx", .int 0),
    ("tree_info", .arr [.obj [("tree_structure",
      .obj [("split_index", .int 0), ("split_feature", .int 0), ("threshold", .int 5),
        ("left_child", leafJson 0 (-1)), ("right_child", leafJson 1 1)])]])]

private theorem stumpDocument_readsAlike : ReadsAlike stumpDocument where
  classes := by
    intro lgbm raw hlgbm hraw
    cases hlgbm
    cases hraw
    exact .inl ⟨le_refl _, le_refl _⟩
  features := by
    intro raw hraw
    cases hraw
    exact .inl rfl
  nodes := by
    intro raw hraw ts hts
    cases hraw
    obtain rfl := Option.some.inj (List.mem_singleton.mp hts)
    refine .internal rfl ?_ ?_ ?_
    · intro f hf
      cases hf
      decide
    · intro child hchild
      cases hchild
      exact .leaf rfl
    · intro child hchild
      cases hchild
      exact .leaf rfl
  sizes := by
    intro lgbm hlgbm node hnode
    cases hlgbm
    obtain rfl := List.mem_singleton.mp hnode
    decide

theorem sameClass_stumpDocument :
    ∃ m e, proverParse .lightgbm stumpDocument = .ok m ∧
      enclaveParse .lightgbm stumpDocument = .ok e ∧ SameClass m e := by
  obtain ⟨m, hm⟩ : ∃ m, proverParse .lightgbm stumpDocument = .ok m := ⟨_, rfl⟩
  obtain ⟨e, he⟩ : ∃ e, enclaveParse .lightgbm stumpDocument = .ok e := ⟨_, rfl⟩
  exact ⟨m, e, hm, he, sameClass_of_readsAlike hm he fun _ => stumpDocument_readsAlike⟩

/-- Three classes of one leaf each, without the number of trees for each iteration. -/
def threeClassDocument : Json ℚ :=
  .obj [("num_class", .int 3), ("max_feature_idx", .int 0),
    ("tree_info", .arr ([0, 0, 1].map fun value =>
      .obj [("tree_structure", leafJson 0 value)]))]

/-- The prover finds class 2 where the enclave adds up a single score. -/
theorem not_sameClass_threeClassDocument :
    ∃ m e, proverParse .lightgbm threeClassDocument = .ok m ∧
      enclaveParse .lightgbm threeClassDocument = .ok e ∧
      e.numFeatures = m.numFeatures ∧ ¬ SameClass m e := by
  refine ⟨_, _, rfl, rfl, rfl, ?_⟩
  intro hsame
  have h := hsame [0] (.inl rfl)
  revert h
  decide +kernel

end WorldZk.EnclaveAgreement
