import WorldZk.RuleEngine

/-!
# What the aggregations of the rule engine compute

An aggregation is compared with the count, sum, minimum or maximum over the matching records that
have the aggregated field. The guests count a matching record before they look for the field.
-/

namespace WorldZk.RuleAggregates

open RuleEngine

section Aggregates

variable (agg : AggDef) (records : List Record) (ruleMatches : List (List Bool))

def matchingRecords : List Record :=
  (records.zipIdx.filter fun record => passesFilter agg.filterRule ruleMatches record.2).map
    Prod.fst

/-- The values of the aggregated field. -/
def fieldValues : List Int64 :=
  (matchingRecords agg records ruleMatches).filterMap fun record =>
    record.intFields[agg.fieldIdx.toNat]?

/-- How many records are aggregated. A plain count has no aggregated field. -/
def aggregatedCount : ℕ :=
  if agg.aggType = 0 then (matchingRecords agg records ruleMatches).length
  else (fieldValues agg records ruleMatches).length

def exactSum : ℤ := ((fieldValues agg records ruleMatches).map Int64.toInt).sum

/-- The value belongs to the best record, or is 0 where no record is aggregated. -/
def IsBest (better : Int64 → Int64 → Prop) (values : List Int64) (value : Int64) : Prop :=
  if values = [] then value = 0 else value ∈ values ∧ ∀ v ∈ values, better value v

/-- The committed value and count are those of the aggregated records. -/
def Exact (result : AggResult) : Prop :=
  result.count.toNat = aggregatedCount agg records ruleMatches ∧
    match agg.aggType with
    | 0 => result.value.toInt = aggregatedCount agg records ruleMatches
    | 1 => result.value.toInt = exactSum agg records ruleMatches
    | 2 => IsBest (· ≤ ·) (fieldValues agg records ruleMatches) result.value
    | 3 => IsBest (· ≥ ·) (fieldValues agg records ruleMatches) result.value
    | _ => True

end Aggregates

/-! ## The loop -/

section Loop

variable {agg : AggDef} {records : List Record} {ruleMatches : List (List Bool)} {s : AggState}
  {record : Record × ℕ}

/-- The value that a step takes into the sum. -/
def stepValue (agg : AggDef) (ruleMatches : List (List Bool)) (record : Record × ℕ) :
    Option Int64 :=
  if passesFilter agg.filterRule ruleMatches record.2 then
    record.1.intFields[agg.fieldIdx.toNat]?
  else none

theorem fieldValues_eq :
    fieldValues agg records ruleMatches = records.zipIdx.filterMap (stepValue agg ruleMatches) := by
  rw [fieldValues, matchingRecords, List.filterMap_map, List.filterMap_filter]
  rfl

theorem aggStep_count : (aggStep agg ruleMatches s record).count =
    if passesFilter agg.filterRule ruleMatches record.2 then s.count + 1 else s.count := by
  unfold aggStep
  split
  · dsimp only
    split
    · split <;> rfl
    · rfl
  · rfl

/-- What a step does to an accumulator of the values. -/
theorem aggStep_value {α : Type} (get : AggState → α) (put : α → Int64 → α)
    (hcount : ∀ s count, get { s with count } = get s)
    (hput : ∀ s val, get { s with
      sum := s.sum + val
      minVal := if val < s.minVal then val else s.minVal
      maxVal := if s.maxVal < val then val else s.maxVal } = put (get s) val)
    (htype : agg.aggType ≠ 0) :
    get (aggStep agg ruleMatches s record) =
      match stepValue agg ruleMatches record with
      | some val => put (get s) val
      | none => get s := by
  unfold aggStep stepValue
  by_cases hpasses : passesFilter agg.filterRule ruleMatches record.2 = true
  · simp only [if_pos hpasses, if_pos htype]
    cases record.1.intFields[agg.fieldIdx.toNat]? with
    | none => exact hcount s _
    | some val => exact (hput { s with count := s.count + 1 } val).trans (by rw [hcount])
  · simp only [if_neg hpasses]

theorem foldl_count (rs : List (Record × ℕ)) :
    (rs.foldl (aggStep agg ruleMatches) s).count = s.count + UInt32.ofNat
      (rs.filter fun record => passesFilter agg.filterRule ruleMatches record.2).length := by
  induction rs generalizing s with
  | nil => exact (UInt32.add_zero _).symm
  | cons record rs ih =>
    rw [List.foldl_cons, ih, aggStep_count, List.filter_cons]
    split
    · rw [List.length_cons, UInt32.ofNat_add, UInt32.add_assoc]
      congr 1
      exact UInt32.add_comm _ _
    · rfl

theorem foldl_value {α : Type} (get : AggState → α) (put : α → Int64 → α)
    (hcount : ∀ s count, get { s with count } = get s)
    (hput : ∀ s val, get { s with
      sum := s.sum + val
      minVal := if val < s.minVal then val else s.minVal
      maxVal := if s.maxVal < val then val else s.maxVal } = put (get s) val)
    (htype : agg.aggType ≠ 0) :
    get (records.zipIdx.foldl (aggStep agg ruleMatches) s) =
      (fieldValues agg records ruleMatches).foldl put (get s) := by
  rw [fieldValues_eq, List.foldl_filterMap]
  refine (List.foldl_hom get fun s record => ?_).symm
  rw [aggStep_value get put hcount hput htype]
  cases stepValue agg ruleMatches record <;> rfl

theorem foldl_sum (values : List Int64) (start : Int64) :
    (values.foldl (· + ·) start).toInt =
      (start.toInt + (values.map Int64.toInt).sum).bmod (2 ^ 64) := by
  induction values generalizing start with
  | nil =>
    rw [List.map_nil, List.sum_nil, Int.add_zero]
    exact (Int64.toInt_bmod start).symm
  | cons val values ih =>
    rw [List.foldl_cons, ih, Int64.toInt_add, List.map_cons, List.sum_cons, Int.bmod_add_bmod,
      Int.add_assoc]

end Loop

/-! ## Selections -/

section Selections

variable {α β : Type} [LinearOrder β] (key : α → β)

/-- The value with the least key so far. -/
def select (best v : α) : α := if key v < key best then v else best

variable {key}

theorem foldl_select_spec (values : List α) (start : α) :
    (values.foldl (select key) start = start ∨ values.foldl (select key) start ∈ values) ∧
      key (values.foldl (select key) start) ≤ key start ∧
      ∀ v ∈ values, key (values.foldl (select key) start) ≤ key v := by
  induction values generalizing start with
  | nil => exact ⟨.inl rfl, le_rfl, nofun⟩
  | cons v values ih =>
    obtain ⟨hmem, hstart, hall⟩ := ih (select key start v)
    have hselect : key (select key start v) ≤ key start ∧ key (select key start v) ≤ key v ∧
        (select key start v = start ∨ select key start v = v) := by
      unfold select
      split
      case isTrue hlt => exact ⟨hlt.le, le_rfl, .inr rfl⟩
      case isFalse hlt => exact ⟨le_rfl, not_lt.mp hlt, .inl rfl⟩
    obtain ⟨hle, hlev, hor⟩ := hselect
    refine ⟨?_, hstart.trans hle, List.forall_mem_cons.mpr ⟨hstart.trans hlev, hall⟩⟩
    rw [List.foldl_cons]
    rcases hmem with hmem | hmem
    · rw [hmem]
      refine hor.imp_right fun hv => ?_
      rw [hv]
      exact List.mem_cons_self
    · exact .inr (List.mem_cons_of_mem v hmem)

theorem foldl_select_mem (hinj : Function.Injective key) {values : List α} {start : α}
    (hworst : ∀ v, key v ≤ key start) (hne : values ≠ []) :
    values.foldl (select key) start ∈ values := by
  obtain ⟨hmem, -, hall⟩ := @foldl_select_spec α _ _ key values start
  refine hmem.elim (fun hstart => ?_) id
  obtain ⟨v, hv⟩ := List.exists_mem_of_ne_nil values hne
  have hkey := hall v hv
  rw [hstart] at hkey ⊢
  rwa [hinj (le_antisymm hkey (hworst v))]

end Selections

/-! ## The results -/

section Results

variable {agg : AggDef} {records : List Record} {ruleMatches : List (List Bool)}

theorem computeAggregation_count :
    (computeAggregation agg records ruleMatches).count =
      UInt32.ofNat (matchingRecords agg records ruleMatches).length := by
  rw [computeAggregation, foldl_count, matchingRecords, List.length_map]
  exact UInt32.zero_add _

theorem computeAggregation_sum (h : agg.aggType = 1) :
    (computeAggregation agg records ruleMatches).value.toInt =
      (exactSum agg records ruleMatches).bmod (2 ^ 64) := by
  have hsum := @foldl_value agg records ruleMatches AggState.start _
    AggState.sum (· + ·) (fun _ _ => rfl) (fun _ _ => rfl)
    (by rw [h]; decide)
  simp only [computeAggregation, h, hsum]
  rw [foldl_sum]
  exact congrArg (Int.bmod · (2 ^ 64)) (Int.zero_add _)

theorem computeAggregation_min (h : agg.aggType = 2) :
    (computeAggregation agg records ruleMatches).value =
      if (computeAggregation agg records ruleMatches).count = 0 then 0
      else (fieldValues agg records ruleMatches).foldl (select Int64.toInt) Int64.maxValue := by
  have hmin := @foldl_value agg records ruleMatches AggState.start _
    AggState.minVal (select Int64.toInt) (fun _ _ => rfl)
    (fun _ _ => by simp only [select, Int64.lt_iff_toInt_lt]) (by rw [h]; decide)
  simp only [computeAggregation, h, hmin]
  rfl

theorem computeAggregation_max (h : agg.aggType = 3) :
    (computeAggregation agg records ruleMatches).value =
      if (computeAggregation agg records ruleMatches).count = 0 then 0
      else (fieldValues agg records ruleMatches).foldl (select (-·.toInt)) Int64.minValue := by
  have hmax := @foldl_value agg records ruleMatches AggState.start _
    AggState.maxVal (select (-·.toInt)) (fun _ _ => rfl)
    (fun _ _ => by simp only [select, Int64.lt_iff_toInt_lt, neg_lt_neg_iff])
    (by rw [h]; decide)
  simp only [computeAggregation, h, hmax]
  rfl

/-- Where the count is exact, so is a minimum or a maximum. -/
theorem isBest_of_count {key : Int64 → ℤ} (hinj : Function.Injective key) {worst : Int64}
    (hworst : ∀ v, key v ≤ key worst) {better : Int64 → Int64 → Prop}
    (hbetter : ∀ {v w}, key v ≤ key w → better v w) {count : UInt32}
    (hcount : count.toNat = (fieldValues agg records ruleMatches).length) :
    IsBest better (fieldValues agg records ruleMatches)
      (if count = 0 then 0
        else (fieldValues agg records ruleMatches).foldl (select key) worst) := by
  unfold IsBest
  split
  case isTrue hnil =>
    rw [hnil, List.length_nil] at hcount
    exact if_pos (UInt32.toNat_inj.mp hcount)
  case isFalse hne =>
    have hpos := List.length_pos_iff.mpr hne
    rw [if_neg fun hzero => by rw [hzero, UInt32.toNat_zero] at hcount; omega]
    refine ⟨foldl_select_mem hinj hworst hne, fun v hv => hbetter ?_⟩
    exact (foldl_select_spec _ _).2.2 v hv

end Results

/-- Exactly when the committed result is that of the aggregated records: their number is that of
the matching records modulo 2^32, and a sum fits the type. -/
theorem compute_aggregation_exact_iff (agg : AggDef) (records : List Record)
    (ruleMatches : List (List Bool)) :
    Exact agg records ruleMatches (computeAggregation agg records ruleMatches) ↔
      (matchingRecords agg records ruleMatches).length % 2 ^ 32 =
          aggregatedCount agg records ruleMatches ∧
        (agg.aggType = 1 → -2 ^ 63 ≤ exactSum agg records ruleMatches ∧
          exactSum agg records ruleMatches < 2 ^ 63) := by
  have htoNat : (computeAggregation agg records ruleMatches).count.toNat =
      (matchingRecords agg records ruleMatches).length % 2 ^ 32 := by
    rw [computeAggregation_count, UInt32.toNat_ofNat']
  unfold Exact
  rw [← htoNat]
  refine and_congr_right fun hcount => ?_
  split
  case h_1 htype =>
    have hvalue : (computeAggregation agg records ruleMatches).value =
        Int64.ofNat (computeAggregation agg records ruleMatches).count.toNat := by
      simp only [computeAggregation, htype]
    have hlt := UInt32.toNat_lt (computeAggregation agg records ruleMatches).count
    rw [hvalue, Int64.toInt_ofNat_of_lt (by omega), hcount, htype]
    exact iff_of_true rfl fun h => absurd h (by decide)
  case h_2 htype =>
    rw [computeAggregation_sum htype, Int.bmod_eq_iff (by decide), imp_iff_right htype]
    omega
  case h_3 htype =>
    rw [aggregatedCount, htype, if_neg (by decide)] at hcount
    rw [computeAggregation_min htype, htype]
    refine iff_of_true ?_ fun h => absurd h (by decide)
    exact isBest_of_count (fun _ _ => Int64.toInt_inj.mp) Int64.toInt_le
      Int64.le_iff_toInt_le.mpr hcount
  case h_4 htype =>
    rw [aggregatedCount, htype, if_neg (by decide)] at hcount
    rw [computeAggregation_max htype, htype]
    refine iff_of_true ?_ fun h => absurd h (by decide)
    refine isBest_of_count (fun _ _ h => Int64.toInt_inj.mp (neg_inj.mp h)) (fun v => ?_)
      (fun h => Int64.le_iff_toInt_le.mpr (neg_le_neg_iff.mp h)) hcount
    exact neg_le_neg (Int64.le_toInt v)
  case h_5 h0 h1 h2 h3 => exact iff_of_true trivial fun h => absurd h h1

/-- A record without the field: its aggregates count it, and the maximum is that of the type. -/
theorem missing_field_counted :
    computeAggregation ⟨3, 0, 0xFFFFFFFF⟩ [⟨Vector.replicate 32 0, [], []⟩] [] =
        ⟨Int64.minValue, 1⟩ ∧
      ¬Exact ⟨3, 0, 0xFFFFFFFF⟩ [⟨Vector.replicate 32 0, [], []⟩] []
        (computeAggregation ⟨3, 0, 0xFFFFFFFF⟩ [⟨Vector.replicate 32 0, [], []⟩] []) := by
  refine ⟨by decide, fun h => ?_⟩
  exact absurd h.1 (by decide)

end WorldZk.RuleAggregates
