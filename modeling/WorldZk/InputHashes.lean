import WorldZk.RuleEngine
import WorldZk.ShapedEncodings
import WorldZk.XGBoostGuest

/-!
# What the input hashes bind

The input hash of a guest program is taken over the values of its input without the lengths of most
of the lists. Both hash streams are shaped encodings. They identify an input among those whose
lists have the same lengths, and they do not tell two shapes apart whose templates agree.
-/

namespace WorldZk.InputHashes

open LittleEndianWords ShapedEncodings

/-! ## Machine integers -/

def u8Encoding : ShapedEncoding UInt8 Unit :=
  .piece 1 (fun byte => [byte]) (fun _ => rfl) fun bytes h => by
    obtain ⟨byte, rfl⟩ := List.length_eq_one_iff.mp h
    exact ⟨byte, rfl, fun byte' h' => (List.cons.inj h').1⟩

def u32Encoding : ShapedEncoding UInt32 Unit :=
  .piece 4 u32ToLeBytes (fun _ => length_leDigits _ _) fun _ => existsUnique_u32

def u64Encoding : ShapedEncoding UInt64 Unit :=
  .piece 8 u64ToLeBytes (fun _ => length_leDigits _ _) fun _ => existsUnique_u64

def i64Encoding : ShapedEncoding Int64 Unit :=
  .piece 8 i64ToLeBytes (fun _ => length_leDigits _ _) fun _ => existsUnique_i64

def idEncoding : ShapedEncoding (Vector UInt8 32) Unit :=
  .piece 32 Vector.toList (fun _ => Vector.length_toList) fun bytes h =>
    ⟨⟨⟨bytes⟩, h⟩, rfl, fun _ hid => Vector.toList_inj.mp hid⟩

/-- The header of a list whose length is hashed. -/
def lengthWord (n : ℕ) : List UInt8 := u32ToLeBytes (UInt32.ofNat n)

/-! ## XGBoost -/

section XGBoost

open XGBoostGuest

/-- The numbers of nodes of the trees, and of features of the samples. -/
abbrev InputShape : Type := List ℕ × List ℕ

def nodeEncoding : ShapedEncoding TreeNode Unit :=
  (u32Encoding.both (u32Encoding.both (u64Encoding.both (u32Encoding.both
    (u32Encoding.both u64Encoding))))).comap TreeNode.fields

def treeEncoding : ShapedEncoding Tree ℕ :=
  (nodeEncoding.uniform.headed lengthWord).comap Tree.fields

def sampleEncoding : ShapedEncoding Sample ℕ :=
  ((idEncoding.pair u64Encoding.uniform).comap Sample.fields).relabel (Equiv.punitProd ℕ)

def inputEncoding : ShapedEncoding XGBoostInput InputShape :=
  (((u32Encoding.both (u32Encoding.both u64Encoding)).pair
    (treeEncoding.list.pair (sampleEncoding.list.pair u64Encoding))).comap
    { toFun := fun input => ((input.model.numFeatures, input.model.numClasses,
        input.model.baseScore), input.model.trees, input.samples, input.threshold)
      invFun := fun p => ⟨⟨p.1.1, p.1.2.1, p.1.2.2, p.2.1⟩, p.2.2.1, p.2.2.2⟩
      left_inv := fun _ => rfl
      right_inv := fun _ => rfl }).relabel
    { toFun := fun s => (s.2.1, s.2.2.1)
      invFun := fun s => ((), s.1, s.2, ())
      left_inv := fun _ => rfl
      right_inv := fun _ => rfl }

def shape (input : XGBoostInput) : InputShape :=
  (input.model.trees.map fun tree => tree.nodes.length,
    input.samples.map fun sample => sample.features.length)

/-- Only the numbers of nodes are hashed. -/
def template (s : InputShape) : Template :=
  free 16 ++ s.1.flatMap (fun nodes => fixed (lengthWord nodes) ++ free (32 * nodes)) ++
    s.2.flatMap (fun features => free (32 + 8 * features)) ++ free 8

theorem free_append (m n : ℕ) : free m ++ free n = free (m + n) :=
  List.replicate_append_replicate

theorem inputEncoding_encode (input : XGBoostInput) :
    inputEncoding.encode input = hashedInput input := by
  have hnode : nodeEncoding.encode = hashedNode := by
    funext node
    simp only [hashedNode, List.append_assoc]
    rfl
  have htree : treeEncoding.encode = hashedTree := by
    funext tree
    change lengthWord (nodeEncoding.uniform.shape tree.nodes) ++
      tree.nodes.flatMap nodeEncoding.encode = hashedTree tree
    rw [ShapedEncoding.uniform_shape, hnode]
    rfl
  have hsample : sampleEncoding.encode = hashedSample := rfl
  simp only [hashedInput, ← htree, ← hsample, List.append_assoc]
  rfl

theorem inputEncoding_shape (input : XGBoostInput) : inputEncoding.shape input = shape input := by
  have htree : treeEncoding.shape = fun tree => tree.nodes.length := by
    funext tree
    exact ShapedEncoding.uniform_shape nodeEncoding tree.nodes
  have hsample : sampleEncoding.shape = fun sample => sample.features.length := by
    funext sample
    exact ShapedEncoding.uniform_shape u64Encoding sample.features
  rw [shape, ← htree, ← hsample]
  rfl

theorem inputEncoding_template (s : InputShape) : inputEncoding.template s = template s := by
  have htree : treeEncoding.template =
      fun nodes => fixed (lengthWord nodes) ++ free (32 * nodes) := by
    funext nodes
    rw [← ShapedEncoding.uniform_template nodeEncoding rfl]
    rfl
  have hsample : sampleEncoding.template = fun features => free (32 + 8 * features) := by
    funext features
    rw [← free_append, ← ShapedEncoding.uniform_template u64Encoding rfl]
    rfl
  rw [template, ← htree, ← hsample, List.append_assoc, List.append_assoc]
  rfl

end XGBoost

/-! ## The rule engine -/

section RuleEngine

open RuleEngine

/-- For each record the number of its integer fields and the lengths of its strings, for each rule
the lengths of the strings of its conditions, and the number of aggregations. -/
abbrev EngineShape : Type := List (ℕ × List ℕ) × List (List ℕ) × ℕ

def stringEncoding : ShapedEncoding (List UInt8) ℕ := u8Encoding.uniform.headed lengthWord

def recordEncoding : ShapedEncoding Record (ℕ × List ℕ) :=
  ((idEncoding.pair (i64Encoding.uniform.pair stringEncoding.list)).comap
    { toFun := fun record => (record.id, record.intFields, record.strFields)
      invFun := fun p => ⟨p.1, p.2.1, p.2.2⟩
      left_inv := fun _ => rfl
      right_inv := fun _ => rfl }).relabel (Equiv.punitProd _)

def conditionEncoding : ShapedEncoding Condition ℕ :=
  (((u32Encoding.both (u32Encoding.both (u32Encoding.both i64Encoding))).pair
    stringEncoding).comap
    { toFun := fun cond => ((cond.condType, cond.fieldIdx, cond.compareOp, cond.intValue),
        cond.strValue)
      invFun := fun p => ⟨p.1.1, p.1.2.1, p.1.2.2.1, p.1.2.2.2, p.2⟩
      left_inv := fun _ => rfl
      right_inv := fun _ => rfl }).relabel (Equiv.punitProd _)

def ruleEncoding : ShapedEncoding Rule (List ℕ) :=
  ((u32Encoding.pair conditionEncoding.list).comap
    { toFun := fun rule => (rule.combine, rule.conditions)
      invFun := fun p => ⟨p.2, p.1⟩
      left_inv := fun _ => rfl
      right_inv := fun _ => rfl }).relabel (Equiv.punitProd _)

def aggEncoding : ShapedEncoding AggDef Unit :=
  (u32Encoding.both (u32Encoding.both u32Encoding)).comap
    { toFun := fun agg => (agg.aggType, agg.fieldIdx, agg.filterRule)
      invFun := fun p => ⟨p.1, p.2.1, p.2.2⟩
      left_inv := fun _ => rfl
      right_inv := fun _ => rfl }

def engineEncoding : ShapedEncoding RuleEngineInput EngineShape :=
  (recordEncoding.list.pair (ruleEncoding.list.pair aggEncoding.uniform)).comap
    { toFun := fun input => (input.records, input.rules, input.aggregations)
      invFun := fun p => ⟨p.1, p.2.1, p.2.2⟩
      left_inv := fun _ => rfl
      right_inv := fun _ => rfl }

def engineShape (input : RuleEngineInput) : EngineShape :=
  (input.records.map fun record =>
      (record.intFields.length, record.strFields.map List.length),
    input.rules.map fun rule => rule.conditions.map fun cond => cond.strValue.length,
    input.aggregations.length)

def stringTemplate (n : ℕ) : Template := fixed (lengthWord n) ++ free n

/-- Only the lengths of the strings are hashed. -/
def engineTemplate (s : EngineShape) : Template :=
  s.1.flatMap (fun record => free (32 + 8 * record.1) ++ record.2.flatMap stringTemplate) ++
    s.2.1.flatMap (fun conditions =>
      free 4 ++ conditions.flatMap fun n => free 20 ++ stringTemplate n) ++
    free (12 * s.2.2)

theorem engineEncoding_encode (input : RuleEngineInput) :
    engineEncoding.encode input = RuleEngine.hashedInput input := by
  have hstring : stringEncoding.encode = hashedString := by
    funext s
    change lengthWord (u8Encoding.uniform.shape s) ++ s.flatMap (fun byte => [byte]) =
      hashedString s
    rw [ShapedEncoding.uniform_shape, List.flatMap_singleton']
    rfl
  have hrecord : recordEncoding.encode = hashedRecord := by
    funext record
    rw [hashedRecord, ← hstring, List.append_assoc]
    rfl
  have hcondition : conditionEncoding.encode = hashedCondition := by
    funext cond
    rw [hashedCondition, ← hstring]
    simp only [List.append_assoc]
    change (u32ToLeBytes cond.condType ++ (u32ToLeBytes cond.fieldIdx ++
      (u32ToLeBytes cond.compareOp ++ i64ToLeBytes cond.intValue))) ++
        stringEncoding.encode cond.strValue = _
    simp only [List.append_assoc]
  have hrule : ruleEncoding.encode = hashedRule := by
    funext rule
    rw [hashedRule, ← hcondition]
    rfl
  have hagg : aggEncoding.encode = hashedAgg := by
    funext agg
    rw [hashedAgg, List.append_assoc]
    rfl
  rw [RuleEngine.hashedInput, ← hrecord, ← hrule, ← hagg, List.append_assoc]
  rfl

theorem engineEncoding_shape (input : RuleEngineInput) :
    engineEncoding.shape input = engineShape input := by
  have hstring : stringEncoding.shape = List.length := by
    funext s
    exact ShapedEncoding.uniform_shape u8Encoding s
  have hrecord : recordEncoding.shape =
      fun record => (record.intFields.length, record.strFields.map List.length) := by
    funext record
    change (i64Encoding.uniform.shape record.intFields, record.strFields.map stringEncoding.shape) =
      _
    rw [ShapedEncoding.uniform_shape, hstring]
  have hrule : ruleEncoding.shape = fun rule => rule.conditions.map fun cond =>
      cond.strValue.length := by
    funext rule
    change rule.conditions.map (fun cond => stringEncoding.shape cond.strValue) = _
    rw [hstring]
  change (input.records.map recordEncoding.shape, input.rules.map ruleEncoding.shape,
    aggEncoding.uniform.shape input.aggregations) = _
  rw [hrecord, hrule, ShapedEncoding.uniform_shape, engineShape]

theorem engineEncoding_template (s : EngineShape) :
    engineEncoding.template s = engineTemplate s := by
  have hstring : stringEncoding.template = stringTemplate := by
    funext n
    change fixed (lengthWord n) ++ u8Encoding.uniform.template n = stringTemplate n
    rw [ShapedEncoding.uniform_template u8Encoding rfl, Nat.one_mul, stringTemplate]
  have hrecord : recordEncoding.template =
      fun record => free (32 + 8 * record.1) ++ record.2.flatMap stringTemplate := by
    funext record
    rw [← hstring, ← free_append, ← ShapedEncoding.uniform_template i64Encoding rfl,
      List.append_assoc]
    rfl
  have hrule : ruleEncoding.template = fun conditions =>
      free 4 ++ conditions.flatMap fun n => free 20 ++ stringTemplate n := by
    funext conditions
    rw [← hstring]
    rfl
  rw [engineTemplate, ← hrecord, ← hrule, ← ShapedEncoding.uniform_template aggEncoding rfl,
    List.append_assoc]
  rfl

end RuleEngine

/-! ## The two guests -/

/-- For any two shapes: the hashed bytes identify the inputs of these shapes exactly when the
shapes are the same or the length words that are hashed contradict the rest. -/
theorem hash_identifies_iff (s t : InputShape) (s' t' : EngineShape) :
    ((∀ a b : XGBoostGuest.XGBoostInput, shape a = s → shape b = t →
        XGBoostGuest.hashedInput a = XGBoostGuest.hashedInput b → a = b) ↔
      s = t ∨ ¬Compatible (template s) (template t)) ∧
    ((∀ a b : RuleEngine.RuleEngineInput, engineShape a = s' → engineShape b = t' →
        RuleEngine.hashedInput a = RuleEngine.hashedInput b → a = b) ↔
      s' = t' ∨ ¬Compatible (engineTemplate s') (engineTemplate t')) := by
  constructor
  · have h := inputEncoding.identifies_iff s t
    simp only [inputEncoding_shape, inputEncoding_encode, inputEncoding_template] at h
    exact h
  · have h := engineEncoding.identifies_iff s' t'
    simp only [engineEncoding_shape, engineEncoding_encode, engineEncoding_template] at h
    exact h

/-- Two samples without features hash as one sample with four, and an aggregation hashes as three
rules without conditions. -/
theorem inputs_collide :
    (∃ a b : XGBoostGuest.XGBoostInput, a ≠ b ∧
      XGBoostGuest.hashedInput a = XGBoostGuest.hashedInput b) ∧
      ∃ a b : RuleEngine.RuleEngineInput, a ≠ b ∧
        RuleEngine.hashedInput a = RuleEngine.hashedInput b := by
  constructor
  · refine ⟨⟨⟨1, 2, 0, []⟩, [⟨.replicate 32 0, []⟩, ⟨.replicate 32 0, []⟩], 0⟩,
      ⟨⟨1, 2, 0, []⟩, [⟨.replicate 32 0, [0, 0, 0, 0]⟩], 0⟩, by decide, by decide +kernel⟩
  · exact ⟨⟨[], [], [⟨0, 0, 0⟩]⟩, ⟨[], [⟨[], 0⟩, ⟨[], 0⟩, ⟨[], 0⟩], []⟩, by decide, by decide⟩

end WorldZk.InputHashes
