import WorldZk.Sha256
import WorldZk.LittleEndianWords

/-!
# The rule engine

The guest program that evaluates rules and aggregations over records. It is written twice, for
RISC Zero and for SP1. The two programs have the same text but for one line: what a rule without
conditions gives.
-/

namespace WorldZk.RuleEngine

open LittleEndianWords

/-! ## Data -/

structure Record where
  id : Vector UInt8 32
  intFields : List Int64
  strFields : List (List UInt8)
deriving DecidableEq

structure Condition where
  condType : UInt32
  fieldIdx : UInt32
  compareOp : UInt32
  intValue : Int64
  strValue : List UInt8
deriving DecidableEq

structure Rule where
  conditions : List Condition
  combine : UInt32
deriving DecidableEq

structure AggDef where
  aggType : UInt32
  fieldIdx : UInt32
  filterRule : UInt32
deriving DecidableEq

structure RuleEngineInput where
  records : List Record
  rules : List Rule
  aggregations : List AggDef
deriving DecidableEq

structure RuleResult where
  matchingCount : UInt32
  flaggedIds : List (Vector UInt8 32)
deriving DecidableEq

structure AggResult where
  value : Int64
  count : UInt32
deriving DecidableEq

structure RuleEngineOutput where
  totalRecords : UInt32
  ruleResults : List RuleResult
  aggResults : List AggResult
  inputHash : List UInt8
deriving DecidableEq

/-! ## String matching -/

/-- `bytes_contains`. -/
def bytesContains (haystack needle : List UInt8) : Bool :=
  if needle.isEmpty then true
  else if haystack.length < needle.length then false
  else (List.range (haystack.length - needle.length + 1)).any fun i =>
    (haystack.drop i).take needle.length == needle

/-- The variables of the loop of `glob_match`. The place of the last star comes with the place in
the text up to which it reaches, which is not past the current one. -/
structure GlobState where
  px : ℕ
  tx : ℕ
  starPx : Option ℕ
  starTx : ℕ
  starTx_le : starTx ≤ tx

/-- The loop, then `while px < pattern.len() && pattern[px] == b'*'`. -/
def globLoop (pattern text : List UInt8) (s : GlobState) : Bool :=
  if htx : s.tx < text.length then
    if hpx : s.px < pattern.length then
      if pattern[s.px] = 63 ∨ pattern[s.px] = text[s.tx] then
        globLoop pattern text ⟨s.px + 1, s.tx + 1, s.starPx, s.starTx, s.starTx_le.step⟩
      else if pattern[s.px] = 42 then
        globLoop pattern text ⟨s.px + 1, s.tx, some s.px, s.tx, le_rfl⟩
      else
        match s.starPx with
        | some sp => globLoop pattern text ⟨sp + 1, s.starTx + 1, some sp, s.starTx + 1, le_rfl⟩
        | none => false
    else
      match s.starPx with
      | some sp => globLoop pattern text ⟨sp + 1, s.starTx + 1, some sp, s.starTx + 1, le_rfl⟩
      | none => false
  else (pattern.drop s.px).all (· == 42)
termination_by (text.length - s.starTx, pattern.length - s.px + (text.length - s.tx))
decreasing_by
  · exact Prod.Lex.right _ (by omega)
  · have := s.starTx_le
    rcases Nat.lt_or_eq_of_le this with h | h
    · exact Prod.Lex.left _ _ (by omega)
    · rw [h]
      exact Prod.Lex.right _ (by omega)
  all_goals
    have := s.starTx_le
    exact Prod.Lex.left _ _ (by omega)

def globMatch (pattern text : List UInt8) : Bool := globLoop pattern text ⟨0, 0, none, 0, le_rfl⟩

/-! ## Rules -/

/-- The value of a field, tested; a missing one fails the test. -/
def testField {α : Type} (fields : List α) (fieldIdx : UInt32) (test : α → Bool) : Bool :=
  match fields[fieldIdx.toNat]? with
  | none => false
  | some field => test field

def evaluateCondition (cond : Condition) (record : Record) : Bool :=
  match cond.condType with
  | 0 => testField record.intFields cond.fieldIdx fun val =>
    match cond.compareOp with
    | 0 => val == cond.intValue
    | 1 => val != cond.intValue
    | 2 => decide (cond.intValue < val)
    | 3 => decide (cond.intValue ≤ val)
    | 4 => decide (val < cond.intValue)
    | 5 => decide (val ≤ cond.intValue)
    | _ => false
  | 1 => testField record.strFields cond.fieldIdx fun field => field == cond.strValue
  | 2 => testField record.strFields cond.fieldIdx fun field => bytesContains field cond.strValue
  | 3 => testField record.strFields cond.fieldIdx fun field => cond.strValue.isPrefixOf field
  | 4 => testField record.strFields cond.fieldIdx fun field => cond.strValue.isSuffixOf field
  | 5 => testField record.strFields cond.fieldIdx fun field => globMatch cond.strValue field
  | _ => false

/-- `evaluate_rule`, with the value of a rule without conditions. -/
def evaluateRuleWith (onEmpty : Bool) (rule : Rule) (record : Record) : Bool :=
  if rule.conditions.isEmpty then onEmpty
  else if rule.combine = 0 then rule.conditions.all fun cond => evaluateCondition cond record
  else rule.conditions.any fun cond => evaluateCondition cond record

/-! ## Aggregation -/

/-- The accumulators of `compute_aggregation`. The guests are built without overflow checks. -/
structure AggState where
  count : UInt32
  sum : Int64
  minVal : Int64
  maxVal : Int64

def AggState.start : AggState := ⟨0, 0, Int64.maxValue, Int64.minValue⟩

/-- Whether the filter lets the record with the given place through. The matches of a rule are as
many as the records. -/
def passesFilter (filterRule : UInt32) (ruleMatches : List (List Bool)) (i : ℕ) : Bool :=
  if filterRule = 0xFFFFFFFF then true
  else
    match ruleMatches[filterRule.toNat]? with
    | none => false
    | some isMatch => isMatch.getD i false

def aggStep (agg : AggDef) (ruleMatches : List (List Bool)) (s : AggState) (record : Record × ℕ) :
    AggState :=
  if passesFilter agg.filterRule ruleMatches record.2 then
    let s := { s with count := s.count + 1 }
    if agg.aggType ≠ 0 then
      match record.1.intFields[agg.fieldIdx.toNat]? with
      | none => s
      | some val =>
        { s with
          sum := s.sum + val
          minVal := if val < s.minVal then val else s.minVal
          maxVal := if s.maxVal < val then val else s.maxVal }
    else s
  else s

def computeAggregation (agg : AggDef) (records : List Record) (ruleMatches : List (List Bool)) :
    AggResult :=
  let s := records.zipIdx.foldl (aggStep agg ruleMatches) AggState.start
  let value : Int64 :=
    match agg.aggType with
    | 0 => Int64.ofNat s.count.toNat
    | 1 => s.sum
    | 2 => if s.count = 0 then 0 else s.minVal
    | 3 => if s.count = 0 then 0 else s.maxVal
    | _ => 0
  ⟨value, s.count⟩

/-! ## The input hash -/

/-- `(s.len() as u32).to_le_bytes()`, then the string. -/
def hashedString (s : List UInt8) : List UInt8 := u32ToLeBytes (UInt32.ofNat s.length) ++ s

def hashedRecord (record : Record) : List UInt8 :=
  record.id.toList ++ record.intFields.flatMap i64ToLeBytes ++
    record.strFields.flatMap hashedString

def hashedCondition (cond : Condition) : List UInt8 :=
  u32ToLeBytes cond.condType ++ u32ToLeBytes cond.fieldIdx ++ u32ToLeBytes cond.compareOp ++
    i64ToLeBytes cond.intValue ++ hashedString cond.strValue

def hashedRule (rule : Rule) : List UInt8 :=
  u32ToLeBytes rule.combine ++ rule.conditions.flatMap hashedCondition

def hashedAgg (agg : AggDef) : List UInt8 :=
  u32ToLeBytes agg.aggType ++ u32ToLeBytes agg.fieldIdx ++ u32ToLeBytes agg.filterRule

/-- The bytes that `compute_input_hash` feeds to the hasher. -/
def hashedInput (input : RuleEngineInput) : List UInt8 :=
  input.records.flatMap hashedRecord ++ input.rules.flatMap hashedRule ++
    input.aggregations.flatMap hashedAgg

def computeInputHash (input : RuleEngineInput) : List UInt8 := Sha256.sha256 (hashedInput input)

/-! ## The two programs -/

/-- The accumulators of the loop over the records. -/
structure RuleState where
  matchingCount : UInt32
  flaggedIds : List (Vector UInt8 32)
  isMatch : List Bool

def ruleStep (onEmpty : Bool) (rule : Rule) (s : RuleState) (record : Record) : RuleState :=
  let matched := evaluateRuleWith onEmpty rule record
  { matchingCount := if matched then s.matchingCount + 1 else s.matchingCount
    flaggedIds := if matched then s.flaggedIds ++ [record.id] else s.flaggedIds
    isMatch := s.isMatch ++ [matched] }

def ruleLoop (onEmpty : Bool) (records : List Record) (rule : Rule) : RuleState :=
  records.foldl (ruleStep onEmpty rule) ⟨0, [], []⟩

def mainWith (onEmpty : Bool) (input : RuleEngineInput) : RuleEngineOutput :=
  let states := input.rules.map (ruleLoop onEmpty input.records)
  let ruleMatches := states.map RuleState.isMatch
  { totalRecords := UInt32.ofNat input.records.length
    ruleResults := states.map fun s => ⟨s.matchingCount, s.flaggedIds⟩
    aggResults := input.aggregations.map fun agg =>
      computeAggregation agg input.records ruleMatches
    inputHash := computeInputHash input }

namespace Risc0

def evaluateRule : Rule → Record → Bool := evaluateRuleWith false

def main : RuleEngineInput → RuleEngineOutput := mainWith false

end Risc0

namespace Sp1

def evaluateRule : Rule → Record → Bool := evaluateRuleWith true

def main : RuleEngineInput → RuleEngineOutput := mainWith true

end Sp1

/-! ## Where the programs agree -/

section Agreement

variable {onEmpty onEmpty' : Bool} {records : List Record} {rule : Rule} {record : Record}

theorem evaluateRuleWith_of_nil (h : rule.conditions = []) :
    evaluateRuleWith onEmpty rule record = onEmpty := by
  rw [evaluateRuleWith, h]
  rfl

theorem evaluateRuleWith_congr (h : rule.conditions ≠ []) :
    evaluateRuleWith onEmpty rule record = evaluateRuleWith onEmpty' rule record := by
  have hempty : rule.conditions.isEmpty = false := by simpa using h
  simp only [evaluateRuleWith, hempty]
  rfl

/-- The induction is on the records, with the ids that were flagged before. -/
private theorem foldl_flaggedIds (s : RuleState) :
    (records.foldl (ruleStep onEmpty rule) s).flaggedIds =
      s.flaggedIds ++ (records.filter (evaluateRuleWith onEmpty rule)).map Record.id := by
  induction records generalizing s with
  | nil => simp
  | cons record records ih =>
    rw [List.foldl_cons, ih, List.filter_cons, ruleStep]
    split <;> simp

theorem ruleLoop_flaggedIds :
    (ruleLoop onEmpty records rule).flaggedIds =
      (records.filter (evaluateRuleWith onEmpty rule)).map Record.id :=
  foldl_flaggedIds _

theorem ruleLoop_congr (h : ∀ record ∈ records,
    evaluateRuleWith onEmpty rule record = evaluateRuleWith onEmpty' rule record) :
    ruleLoop onEmpty records rule = ruleLoop onEmpty' records rule := by
  refine List.foldl_ext _ _ _ fun s record hrecord => ?_
  rw [ruleStep, ruleStep, h record hrecord]

end Agreement

/-- The two programs commit the same output exactly when there is no record or every rule has a
condition. -/
theorem guests_agree_iff (input : RuleEngineInput) :
    Sp1.main input = Risc0.main input ↔
      input.records = [] ∨ ∀ rule ∈ input.rules, rule.conditions ≠ [] := by
  constructor
  · intro h
    by_contra hneither
    obtain ⟨hrecords, hrules⟩ := not_or.mp hneither
    obtain ⟨rule, hrule⟩ := not_forall.mp hrules
    obtain ⟨hmem, hempty⟩ := Classical.not_imp.mp hrule
    have hresults := congrArg RuleEngineOutput.ruleResults h
    simp only [Sp1.main, Risc0.main, mainWith, List.map_map] at hresults
    have hflagged := congrArg RuleResult.flaggedIds (List.map_inj_left.mp hresults rule hmem)
    have hconst (onEmpty : Bool) : evaluateRuleWith onEmpty rule = fun _ => onEmpty :=
      funext fun _ => evaluateRuleWith_of_nil (not_not.mp hempty)
    simp only [Function.comp_apply, ruleLoop_flaggedIds, hconst, List.filter_true,
      List.filter_false, List.map_nil, List.map_eq_nil_iff] at hflagged
    exact hrecords hflagged
  · intro h
    have hstates : input.rules.map (ruleLoop true input.records) =
        input.rules.map (ruleLoop false input.records) := by
      refine List.map_congr_left fun rule hrule => ruleLoop_congr fun record hrecord => ?_
      rcases h with hrecords | hrules
      · rw [hrecords] at hrecord
        cases hrecord
      · exact evaluateRuleWith_congr (hrules rule hrule)
    rw [Sp1.main, Risc0.main, mainWith, mainWith, hstates]

/-- One record and one rule without conditions: only the second program flags the record. -/
theorem guests_disagree :
    ∃ input : RuleEngineInput,
      (Sp1.main input).ruleResults ≠ (Risc0.main input).ruleResults :=
  ⟨⟨[⟨Vector.replicate 32 0, [], []⟩], [⟨[], 0⟩], []⟩, by decide⟩

end WorldZk.RuleEngine
