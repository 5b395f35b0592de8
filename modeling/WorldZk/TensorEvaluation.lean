import WorldZk.GroupBackends
import WorldZk.SolidityVerifier

/-!
# Tensors, evaluations and the rows of a matrix

`evaluate_mle_from_data` weighs every entry of the data with the bits of its index,
`initialize_tensor` doubles a table in place from the last coordinate to the first, and the
opening of a committed input combines rows at the left half of a point before it weighs the
columns with the right half. The three agree for every point and all data, and the contract
computes the same words.
-/

namespace WorldZk.TensorEvaluation

open CheckedRuns Bn254Moduli FieldArithmetic VerifierBackend CommittedSumcheck InputLayers
open TensorProducts GroupBackends

/-! ## The table, filled in place -/

section Loop

variable (b : Backend)

/-- One turn of the inner loop of `initialize_tensor`. -/
def splitSlot (r oneMinusR len : ℕ) (table : List ℕ) (i : ℕ) : Checked (List ℕ) := do
  let val ← getIdx table i
  let table ← setIdx table (i + len) (b.mul val r)
  setIdx table i (b.mul val oneMinusR)

/-- One turn of the outer loop, which holds the table and the length of its filled part. -/
def splitTable (st : List ℕ × ℕ) (r : ℕ) : Checked (List ℕ × ℕ) := do
  let oneMinusR ← b.oneMinus r
  let table ← (List.range st.2).foldlM (splitSlot b r oneMinusR st.2) st.1
  pure (table, st.2 * 2)

/-- `initialize_tensor`, with the table of the source. -/
def initializeTensorLoop (coords : List ℕ) : Checked (List ℕ) := do
  require (b.tensorFits coords.length) .indexOutOfBounds
  let table := (List.replicate (b.shl1 coords.length) 0).set 0 1
  let filled ← coords.reverse.foldlM (splitTable b) (table, 1)
  pure filled.1

theorem splitSlot_append (r oneMinusR t z : ℕ) {as bs : List ℕ} (hlen : as.length = bs.length)
    (ts zs : List ℕ) :
    splitSlot b r oneMinusR (as.length + (ts.length + 1)) (as ++ t :: ts ++ bs ++ z :: zs)
        as.length =
      .ok ((as ++ [b.mul t oneMinusR]) ++ ts ++ (bs ++ [b.mul t r]) ++ zs) := by
  have hread : getIdx (as ++ t :: ts ++ bs ++ z :: zs) as.length = .ok t :=
    getIdx_eq_ok.mpr (by simp)
  have hhigh : setIdx (as ++ t :: ts ++ bs ++ z :: zs) (as.length + (as.length + (ts.length + 1)))
      (b.mul t r) = .ok (as ++ t :: ts ++ bs ++ b.mul t r :: zs) := by
    have hoffset :
        as.length + (as.length + (ts.length + 1)) - (as ++ t :: ts ++ bs).length = 0 := by
      simp
      omega
    rw [setIdx_of_lt (by simp; omega), List.set_append_right _ _ (by simp; omega), hoffset,
      List.set_cons_zero]
  rw [splitSlot, hread, ok_bind, hhigh, ok_bind, setIdx_of_lt (by simp)]
  simp

/-- The inner loop replaces the filled part by its two multiples. -/
theorem foldlM_splitSlot (r oneMinusR len : ℕ) (ts : List ℕ) {as bs zs : List ℕ}
    (hlen : as.length = bs.length) (hroom : ts.length ≤ zs.length)
    (hall : as.length + ts.length = len) :
    (List.range' as.length ts.length).foldlM (splitSlot b r oneMinusR len)
        (as ++ ts ++ bs ++ zs) =
      .ok (as ++ ts.map (fun t => b.mul t oneMinusR) ++ (bs ++ ts.map fun t => b.mul t r) ++
        zs.drop ts.length) := by
  induction ts generalizing as bs zs with
  | nil =>
    simp
    rfl
  | cons t ts ih =>
    cases zs with
    | nil => simp at hroom
    | cons z zs =>
      have hstep := splitSlot_append b r oneMinusR t z hlen ts zs
      have hfilled : (as ++ [b.mul t oneMinusR]).length = (bs ++ [b.mul t r]).length := by
        simp [hlen]
      have hroom' : ts.length ≤ zs.length := by simpa using hroom
      have hrest := ih hfilled hroom' (by simp at hall ⊢; omega)
      rw [List.length_append, List.length_singleton] at hrest
      subst hall
      rw [List.length_cons, List.range'_succ, List.foldlM_cons, hstep, ok_bind]
      rw [List.length_cons] at hrest
      rw [hrest]
      simp

/-- The outer loop, from the last coordinate to the first. -/
theorem foldlM_splitTable (coords : List ℕ) {zs : List ℕ}
    (hroom : 2 ^ coords.length ≤ zs.length + 1) :
    coords.reverse.foldlM (splitTable b) (1 :: zs, 1) =
      tensorTable b coords >>= fun table =>
        pure (table ++ zs.drop (2 ^ coords.length - 1), 2 ^ coords.length) := by
  induction coords with
  | nil => simp [tensorTable]
  | cons r rs ih =>
    rw [List.length_cons, pow_succ] at hroom
    rw [List.reverse_cons, List.foldlM_append, ih (by omega), tensorTable]
    cases htable : tensorTable b rs with
    | error e => rfl
    | ok table =>
      have hlen := length_tensorTable b htable
      cases hone : b.oneMinus r with
      | error e => simp [splitTable, hone]
      | ok y =>
        have hroom' : table.length ≤ (zs.drop (2 ^ rs.length - 1)).length := by
          rw [hlen, List.length_drop]
          omega
        have hinner := @foldlM_splitSlot b r y (2 ^ rs.length) table [] [] _ rfl hroom'
          (by simpa using hlen)
        simp only [List.length_nil, List.nil_append, List.append_nil, hlen, List.drop_drop,
          ← List.range_eq_range'] at hinner
        have hdrop : 2 ^ rs.length - 1 + 2 ^ rs.length = 2 ^ (r :: rs).length - 1 := by
          have hpos := Nat.two_pow_pos rs.length
          rw [List.length_cons, pow_succ]
          omega
        simp only [ok_bind, pure_bind_ok, List.foldlM_cons, List.foldlM_nil, splitTable, hone,
          hinner, hdrop]
        rw [List.length_cons, pow_succ]

theorem initializeTensorLoop_eq (hshl : ∀ n, b.tensorFits n = true → b.shl1 n = 2 ^ n)
    (coords : List ℕ) : initializeTensorLoop b coords = initializeTensor b coords := by
  rw [initializeTensorLoop, initializeTensor]
  cases hfits : b.tensorFits coords.length with
  | false => rfl
  | true =>
    have hpos := Nat.two_pow_pos coords.length
    obtain ⟨size, hsize⟩ : ∃ size, 2 ^ coords.length = size + 1 :=
      ⟨_, (Nat.sub_add_cancel hpos).symm⟩
    simp only [require_true, ok_bind, hshl _ hfits, hsize, List.replicate_succ, List.set_cons_zero]
    rw [foldlM_splitTable b coords (by rw [List.length_replicate, hsize])]
    cases htable : tensorTable b coords with
    | error e => rfl
    | ok table => simp [hsize]

end Loop

/-! ## Backends with 64-bit tables -/

/-- The backend computes modulo `r`, and numbers up to 63 coordinates in its word size. -/
structure TensorBackend (b : Backend) (r : ℕ) : Prop extends ComputesModulo b r where
  tensorFits : ∀ n, b.tensorFits n = decide (n < 64)
  shl1 : ∀ n < 64, b.shl1 n = 2 ^ n
  bitAt : ∀ w, ∀ n < 64, b.bitAt w n = w / 2 ^ n % 2

/-- `1 - x`, where it is defined. -/
def complement (b : Backend) (x : ℕ) : ℕ :=
  match b.oneMinus x with
  | .ok y => y
  | .error _ => 0

/-- The backend takes the complement of every coordinate. -/
def Complemented (b : Backend) (point : List ℕ) : Prop :=
  ∀ x ∈ point, b.oneMinus x = .ok (complement b x)

theorem complemented_of_tensorTable {b : Backend} {coords table : List ℕ}
    (h : tensorTable b coords = .ok table) : Complemented b coords := by
  induction coords generalizing table with
  | nil => simp [Complemented]
  | cons r rs ih =>
    simp only [tensorTable, bind_eq_ok] at h
    obtain ⟨rest, hrest, y, hy, -⟩ := h
    intro x hx
    rcases List.mem_cons.mp hx with rfl | hx
    · rw [complement, hy]
    · exact ih hrest x hx

section Evaluation

variable {b : Backend} {r : ℕ}

/-- The factors of a coordinate, for a zero and for a one. -/
def factors (b : Backend) (r : ℕ) (point : List ℕ) : List (ZMod r × ZMod r) :=
  point.map fun x => ((complement b x : ZMod r), (x : ZMod r))

@[simp] theorem length_factors (point : List ℕ) : (factors b r point).length = point.length :=
  List.length_map _

@[simp] theorem factors_nil : factors b r [] = [] := rfl

@[simp] theorem factors_cons (x : ℕ) (xs : List ℕ) :
    factors b r (x :: xs) = ((complement b x : ZMod r), (x : ZMod r)) :: factors b r xs := rfl

theorem factors_append (xs ys : List ℕ) :
    factors b r (xs ++ ys) = factors b r xs ++ factors b r ys := List.map_append

theorem scalars_tensorTable (hb : ComputesModulo b r) {coords : List ℕ}
    (hc : Complemented b coords) : ∃ table, tensorTable b coords = .ok table ∧
      scalars r table = factorTensor (factors b r coords) := by
  induction coords with
  | nil => exact ⟨[1], rfl, by simp [factorTensor]⟩
  | cons x xs ih =>
    obtain ⟨table, htable, hcast⟩ := ih fun y hy => hc y (List.mem_cons_of_mem _ hy)
    refine ⟨table.map (fun t => b.mul t (complement b x)) ++ table.map (fun t => b.mul t x), ?_, ?_⟩
    · rw [tensorTable, htable, ok_bind, hc x List.mem_cons_self, ok_bind]
      rfl
    · have hmul (y : ℕ) : scalars r (table.map fun t => b.mul t y) =
          (scalars r table).map fun t => t * (y : ZMod r) := by
        rw [scalars, scalars, List.map_map, List.map_map]
        apply List.map_congr_left
        intro t _
        exact hb.cast_mul t y
      rw [scalars, List.map_append, ← scalars, ← scalars, hmul, hmul, hcast, factors_cons,
        factorTensor]

variable (hb : TensorBackend b r)

include hb

/-- The tensor exists below 64 coordinates that have complements. -/
theorem TensorBackend.exists_initializeTensor (coords : List ℕ) :
    (∃ table, initializeTensor b coords = .ok table) ↔
      coords.length < 64 ∧ Complemented b coords := by
  simp only [initializeTensor, hb.tensorFits, bind_eq_ok, require_eq_ok, decide_eq_true_eq]
  constructor
  · rintro ⟨table, _, hlt, htable⟩
    exact ⟨hlt, complemented_of_tensorTable htable⟩
  · rintro ⟨hlt, hc⟩
    obtain ⟨table, htable, -⟩ := scalars_tensorTable hb.toComputesModulo hc
    exact ⟨table, (), hlt, htable⟩

theorem TensorBackend.initializeTensor_eq {coords : List ℕ} (hlt : coords.length < 64)
    (hc : Complemented b coords) : ∃ table, initializeTensor b coords = .ok table ∧
      scalars r table = factorTensor (factors b r coords) := by
  obtain ⟨table, htable, hcast⟩ := scalars_tensorTable hb.toComputesModulo hc
  refine ⟨table, ?_, hcast⟩
  rw [initializeTensor, hb.tensorFits, decide_eq_true hlt, require_true, ok_bind, htable]

theorem TensorBackend.eqWeight_eq {point : List ℕ} (hlt : point.length < 64)
    (hc : Complemented b point) (w : ℕ) : ∃ v, eqWeight b w point.length point = .ok v ∧
      (v : ZMod r) = factorWeight (factors b r point) w := by
  -- the coordinates from number `k` on, with the bits below them
  have hfold : ∀ (ps : List ℕ) (k acc : ℕ), k + ps.length = point.length → Complemented b ps →
      ∃ v, (ps.zip (List.range' k ps.length)).foldlM (fun eq xi => (do
        if b.bitAt w (point.length - 1 - xi.2) = 1 then pure (b.mul eq xi.1)
        else pure (b.mul eq (← b.oneMinus xi.1)) : Checked ℕ)) acc = .ok v ∧
        (v : ZMod r) = acc * factorWeight (factors b r ps) w := by
    intro ps
    induction ps with
    | nil => exact fun k acc _ _ => ⟨acc, rfl, by simp [factorWeight]⟩
    | cons p ps ih =>
      intro k acc hk hps
      rw [List.length_cons] at hk
      have hbit : point.length - 1 - k = ps.length := by omega
      have hrest (acc : ℕ) := ih (k + 1) acc (by omega)
        fun y hy => hps y (List.mem_cons_of_mem _ hy)
      have hlow : ps.length < 64 := by omega
      rw [List.length_cons, List.range'_succ, List.zip_cons_cons, List.foldlM_cons]
      simp only [hbit, hb.bitAt w ps.length hlow, hps p List.mem_cons_self]
      rw [factors_cons, factorWeight, length_factors]
      by_cases hone : w / 2 ^ ps.length % 2 = 1
      · obtain ⟨v, hv, hcast⟩ := hrest (b.mul acc p)
        refine ⟨v, by rw [if_pos hone, pure_bind_ok]; exact hv, ?_⟩
        rw [hcast, hb.cast_mul, if_pos hone, mul_assoc]
      · obtain ⟨v, hv, hcast⟩ := hrest (b.mul acc (complement b p))
        refine ⟨v, by rw [if_neg hone, ok_bind, pure_bind_ok]; exact hv, ?_⟩
        rw [hcast, hb.cast_mul, if_neg hone, mul_assoc]
  obtain ⟨v, hv, hcast⟩ := hfold point 0 1 (by simp) hc
  refine ⟨v, by rw [eqWeight, List.range_eq_range']; exact hv, ?_⟩
  rw [hcast, Nat.cast_one, one_mul]

/-- The evaluation of data at a point, as a word below the order. -/
theorem TensorBackend.evaluateMleFromData_eq {data point : List ℕ} (hlt : point.length < 64)
    (hdata : data.length ≤ 2 ^ point.length) (hc : Complemented b point) :
    ∃ v < r, evaluateMleFromData b data point = .ok v ∧
      (v : ZMod r) = dot (scalars r data) (factorTensor (factors b r point)) := by
  have hfold : ∀ (ds : List ℕ) (k : ℕ), ∀ acc < r,
      ∃ v < r, (ds.zip (List.range' k ds.length)).foldlM (fun result dw => (do
        if dw.1 = 0 then pure result
        else pure (b.add result (b.mul dw.1 (← eqWeight b dw.2 point.length point))) : Checked ℕ))
          acc = .ok v ∧
        (v : ZMod r) = acc + dot (scalars r ds)
          ((List.range' k ds.length).map (factorWeight (factors b r point))) := by
    intro ds
    induction ds with
    | nil => exact fun k acc hacc => ⟨acc, hacc, rfl, by simp⟩
    | cons d ds ih =>
      intro k acc hacc
      obtain ⟨e, he, hcast⟩ := hb.eqWeight_eq hlt hc k
      rw [List.length_cons, List.range'_succ, List.zip_cons_cons, List.foldlM_cons, List.map_cons,
        scalars_cons, dot_cons]
      by_cases hzero : d = 0
      · obtain ⟨v, hv, hrun, hvalue⟩ := ih (k + 1) acc hacc
        refine ⟨v, hv, by rw [if_pos hzero, pure_bind_ok]; exact hrun, ?_⟩
        rw [hvalue, hzero, Nat.cast_zero, zero_mul, zero_add]
      · obtain ⟨v, hv, hrun, hvalue⟩ := ih (k + 1) _ (hb.add_lt hacc (hb.mul_lt d e))
        refine ⟨v, hv, by rw [if_neg hzero, he, ok_bind, pure_bind_ok]; exact hrun, ?_⟩
        rw [hvalue, hb.cast_add hacc (hb.mul_lt d e), hb.cast_mul, hcast, add_assoc]
  obtain ⟨v, hv, hrun, hvalue⟩ := hfold data 0 0 hb.pos
  refine ⟨v, hv, ?_, ?_⟩
  · rw [evaluateMleFromData, hb.shl1 _ hlt, decide_eq_true hdata, require_true, ok_bind,
      List.range_eq_range']
    exact hrun
  · rw [hvalue, Nat.cast_zero, zero_add, factorTensor_eq_map_weight, length_factors,
      ← Nat.add_sub_cancel' hdata, List.range_add, List.map_append, ← List.range_eq_range',
      dot_append_right (by simp)]

end Evaluation

/-! ## Agreement -/

/-- The data, filled up with zeros to an entry for each vertex. -/
def zeroPad (data : List ℕ) (n : ℕ) : List ℕ := data ++ List.replicate (2 ^ n - data.length) 0

/-- A column of a matrix that is stored row by row. -/
def column (data : List ℕ) (rows columns j : ℕ) : List ℕ :=
  (List.range rows).map fun i => data.getD (i * columns + j) 0

/-- The rows of a matrix, combined with the entries of a tensor. -/
def combineRows (b : Backend) (data lCoeffs : List ℕ) (columns : ℕ) : Checked (List ℕ) :=
  (List.range columns).mapM fun j => innerProduct b (column data lCoeffs.length columns j) lCoeffs

/-- What the table and the value at a point have to do with each other: the value is that of
`evaluate_mle_from_data`, of the whole tensor, and of the two tensors of every split. -/
structure MleAgrees (b : Backend) (point data table : List ℕ) (value : ℕ) : Prop where
  tensor : initializeTensor b point = .ok table
  filled : initializeTensorLoop b point = .ok table
  evaluated : evaluateMleFromData b data point = .ok value
  weighed : innerProduct b (zeroPad data point.length) table = .ok value
  split : ∀ left right, point = left ++ right → ∃ lCoeffs rCoeffs row,
    initializeTensor b left = .ok lCoeffs ∧ initializeTensor b right = .ok rCoeffs ∧
      combineRows b (zeroPad data point.length) lCoeffs (2 ^ right.length) = .ok row ∧
        innerProduct b row rCoeffs = .ok value

section Agreement

variable {b : Backend} {r : ℕ} (hb : TensorBackend b r)

theorem length_zeroPad {data : List ℕ} {n : ℕ} (h : data.length ≤ 2 ^ n) :
    (zeroPad data n).length = 2 ^ n := by
  rw [zeroPad, List.length_append, List.length_replicate]
  omega

theorem dot_zeroPad {data : List ℕ} {n : ℕ} (h : data.length ≤ 2 ^ n) {ts : List (ZMod r)}
    (hts : ts.length = 2 ^ n) : dot (scalars r (zeroPad data n)) ts = dot (scalars r data) ts := by
  have hzeros (k : ℕ) (ts : List (ZMod r)) : dot (scalars r (List.replicate k 0)) ts = 0 := by
    induction k generalizing ts with
    | zero => rfl
    | succ k ih =>
      cases ts with
      | nil => simp [dot]
      | cons t ts => rw [List.replicate_succ, scalars_cons, dot_cons, ih, Nat.cast_zero, zero_mul,
          add_zero]
  have hparts : ts = ts.take data.length ++ ts.drop data.length := (List.take_append_drop _ _).symm
  have hlen : (scalars r data).length = (ts.take data.length).length := by
    rw [length_scalars, List.length_take]
    omega
  rw [zeroPad, scalars, List.map_append, ← scalars, ← scalars, hparts, dot_append hlen, hzeros,
    add_zero, dot_append_right hlen.le]

theorem getD_scalars (ws : List ℕ) (i : ℕ) : (scalars r ws).getD i 0 = (ws.getD i 0 : ℕ) := by
  rw [List.getD_eq_getElem?_getD, List.getD_eq_getElem?_getD, scalars, List.getElem?_map]
  cases ws[i]? with
  | none => simp
  | some w => rfl

include hb

theorem TensorBackend.combineRows_eq (data lCoeffs : List ℕ) (columns : ℕ) :
    ∃ row, combineRows b data lCoeffs columns = .ok row ∧ row.length = columns ∧
      scalars r row =
        (List.range columns).map (combinedRow (scalars r data) (scalars r lCoeffs) columns) := by
  have hcolumn (j : ℕ) (_ : j ∈ List.range columns) :
      ∃ v, innerProduct b (column data lCoeffs.length columns j) lCoeffs = .ok v ∧
        (v : ZMod r) = combinedRow (scalars r data) (scalars r lCoeffs) columns j := by
    have hlen : (column data lCoeffs.length columns j).length = lCoeffs.length := by
      rw [column, List.length_map, List.length_range]
    obtain ⟨v, -, hv, hcast⟩ := hb.innerProduct_eq hlen
    refine ⟨v, hv, ?_⟩
    rw [hcast, combinedRow, length_scalars, column, scalars, List.map_map]
    congr 1
    apply List.map_congr_left
    intro i _
    exact (getD_scalars data _).symm
  obtain ⟨row, hrow, hmap⟩ := exists_mapM_ok hcolumn
  refine ⟨row, hrow, ?_, hmap⟩
  simpa using congrArg List.length hmap

/-- Every table that `initialize_tensor` returns agrees with the evaluation of all data that fit
the point. -/
theorem TensorBackend.exists_mleAgrees {data point table : List ℕ}
    (htensor : initializeTensor b point = .ok table) (hdata : data.length ≤ 2 ^ point.length) :
    ∃ value < r, MleAgrees b point data table value := by
  obtain ⟨hlt, hc⟩ := (hb.exists_initializeTensor point).mp ⟨table, htensor⟩
  obtain ⟨value, hvalue, hrun, hcast⟩ := hb.evaluateMleFromData_eq hlt hdata hc
  -- words below the order with one residue are the same word
  have hunique {v : ℕ} (hv : v < r) (h : (v : ZMod r) = value) : v = value :=
    Nat.ModEq.eq_of_lt_of_lt ((ZMod.natCast_eq_natCast_iff _ _ _).mp h) hv hvalue
  have hpad := length_zeroPad hdata
  have hweigh : dot (scalars r (zeroPad data point.length)) (factorTensor (factors b r point)) =
      value := by
    rw [dot_zeroPad hdata (by rw [length_factorTensor, length_factors]), hcast]
  refine ⟨value, hvalue, htensor, ?_, hrun, ?_, ?_⟩
  · rw [initializeTensorLoop_eq b fun n hn => hb.shl1 n (by simpa [hb.tensorFits] using hn)]
    exact htensor
  · obtain ⟨table', htable', htensors⟩ := hb.initializeTensor_eq hlt hc
    obtain rfl := Except.ok.inj (htensor.symm.trans htable')
    have hlen : (zeroPad data point.length).length = table.length := by
      rw [hpad, ← length_scalars r table, htensors, length_factorTensor, length_factors]
    obtain ⟨v, hv, hinner, hdot⟩ := hb.innerProduct_eq hlen
    rw [hinner, hunique hv (by rw [hdot, htensors, hweigh])]
  · rintro left right rfl
    rw [List.length_append] at hlt hpad
    obtain ⟨lCoeffs, hl, hlcast⟩ := hb.initializeTensor_eq (by omega : left.length < 64)
      fun x hx => hc x (List.mem_append_left _ hx)
    obtain ⟨rCoeffs, hr, hrcast⟩ := hb.initializeTensor_eq (by omega : right.length < 64)
      fun x hx => hc x (List.mem_append_right _ hx)
    obtain ⟨row, hrow, hrowlen, hrowcast⟩ :=
      hb.combineRows_eq (zeroPad data (left ++ right).length) lCoeffs (2 ^ right.length)
    have hlen : row.length = rCoeffs.length := by
      rw [hrowlen, ← length_scalars r rCoeffs, hrcast, length_factorTensor, length_factors]
    obtain ⟨v, hv, hinner, hdot⟩ := hb.innerProduct_eq hlen
    have hsplit := dot_factorTensor_append (scalars r (zeroPad data (left ++ right).length))
      (factors b r left) (factors b r right) (by
        rw [length_scalars, List.length_append, List.length_append, length_factors, length_factors,
          hpad])
    refine ⟨lCoeffs, rCoeffs, row, hl, hr, hrow, ?_⟩
    rw [hinner, hunique hv]
    rw [hdot, hrowcast, hlcast, hrcast, ← length_factors (b := b) (r := r) right, ← hsplit,
      ← factors_append, hweigh]

end Agreement

/-! ## The two verifiers -/

open ZkmlVerifier SolidityVerifier

theorem zkml_tensorBackend : TensorBackend zkmlBackend FR_MOD where
  toComputesModulo := zkml_computesIn.toComputesModulo
  tensorFits _ := rfl
  shl1 _ hn := congrArg (2 ^ ·) (Nat.mod_eq_of_lt hn)
  bitAt w _ hn := congrArg (w / 2 ^ · % 2) (Nat.mod_eq_of_lt hn)

theorem sol_tensorBackend : TensorBackend solBackend FR_MOD where
  pos := FR_MOD_prime.pos
  add _ _ _ _ := rfl
  mul _ _ := rfl
  tensorFits _ := rfl
  shl1 _ hn := if_pos (hn.trans (by decide))
  bitAt _ _ _ := rfl

/-- The Rust crate takes the complement of every word. -/
theorem zkml_complemented (point : List ℕ) : Complemented zkmlBackend point := fun _ _ => rfl

/-- The contract takes the complement of the words up to the modulus, as the Rust crate does. -/
theorem sol_complemented {point : List ℕ} :
    Complemented solBackend point ↔ ∀ x ∈ point, x ≤ FR_MOD := by
  have hone (x : ℕ) : solBackend.oneMinus x = .ok (complement solBackend x) ↔ x ≤ FR_MOD := by
    by_cases hx : x ≤ FR_MOD
    · simp [complement, solBackend, modulusMinus, hx]
    · simp [complement, solBackend, modulusMinus, hx, require]
  exact forall₂_congr fun x _ => hone x

theorem oneMinus_eq {x : ℕ} (hx : x ≤ FR_MOD) : solBackend.oneMinus x = zkmlBackend.oneMinus x := by
  have hlt := FR_MOD_lt_word
  have hpos := FR_MOD_prime.one_lt
  have hsol : solBackend.oneMinus x = .ok ((1 + (FR_MOD - x)) % FR_MOD) := by
    simp only [solBackend, modulusMinus, decide_eq_true hx, require_true, ok_bind, pure_bind_ok]
    rfl
  have hzkml : zkmlBackend.oneMinus x = .ok (fieldSub 1 x FR_MOD) := rfl
  rw [hsol, hzkml]
  rcases Nat.lt_or_eq_of_le hx with hlt' | rfl
  · rw [fieldSub_eq_mod hlt hpos hlt']
  · rw [Nat.sub_self, Nat.add_zero, Nat.mod_eq_of_lt hpos, fieldSub, if_neg (by omega),
      subNoMod_of_le hlt hpos.le, subNoMod_of_le hlt (by omega)]
    congr 1

theorem initializeTensor_sol {point : List ℕ} (hpoint : ∀ x ∈ point, x ≤ FR_MOD) :
    initializeTensor solBackend point = initializeTensor zkmlBackend point := by
  have htable : tensorTable solBackend point = tensorTable zkmlBackend point := by
    induction point with
    | nil => rfl
    | cons x xs ih =>
      rw [tensorTable, tensorTable, ih fun y hy => hpoint y (List.mem_cons_of_mem _ hy),
        oneMinus_eq (hpoint x List.mem_cons_self)]
      rfl
  rw [initializeTensor, initializeTensor, htable, sol_tensorBackend.tensorFits,
    zkml_tensorBackend.tensorFits]

theorem evaluateMleFromData_sol {data point : List ℕ} (hlt : point.length < 64)
    (hpoint : ∀ x ∈ point, x ≤ FR_MOD) (hdata : data.length ≤ 2 ^ point.length) :
    evaluateMleFromData solBackend data point = evaluateMleFromData zkmlBackend data point := by
  obtain ⟨v, hv, hsol, hcast⟩ :=
    sol_tensorBackend.evaluateMleFromData_eq hlt hdata (sol_complemented.mpr hpoint)
  obtain ⟨w, hw, hzkml, hcast'⟩ :=
    zkml_tensorBackend.evaluateMleFromData_eq hlt hdata (zkml_complemented point)
  have hfactors : factors solBackend FR_MOD point = factors zkmlBackend FR_MOD point := by
    apply List.map_congr_left
    intro x hx
    rw [complement, complement, oneMinus_eq (hpoint x hx)]
  have hvalue : (v : ZMod FR_MOD) = w := by rw [hcast, hcast', hfactors]
  rw [hsol, hzkml, Nat.ModEq.eq_of_lt_of_lt ((ZMod.natCast_eq_natCast_iff _ _ _).mp hvalue) hv hw]

/-- For every point and all data that fit it, the evaluation of the data is their inner product
with the tensor of the point and, for every split of the point, the inner product of the rows
combined at the left half with the tensor of the right half. The contract computes the same table
and the same value. The Rust tensor exists for every point of fewer than 64 coordinates, that of
the contract when moreover no coordinate exceeds the modulus. -/
theorem mle_agreement {point data : List ℕ} (hdata : data.length ≤ 2 ^ point.length) :
    ((∃ table, initializeTensor zkmlBackend point = .ok table) ↔ point.length < 64) ∧
      ((∃ table, initializeTensor solBackend point = .ok table) ↔
        point.length < 64 ∧ ∀ x ∈ point, x ≤ FR_MOD) ∧
      (∀ table, initializeTensor zkmlBackend point = .ok table →
        ∃ value, MleAgrees zkmlBackend point data table value) ∧
      ∀ table, initializeTensor solBackend point = .ok table →
        ∃ value, MleAgrees solBackend point data table value ∧
          MleAgrees zkmlBackend point data table value := by
  have hsol := sol_tensorBackend.exists_initializeTensor point
  rw [sol_complemented] at hsol
  refine ⟨?_, hsol, ?_, ?_⟩
  · rw [zkml_tensorBackend.exists_initializeTensor]
    exact and_iff_left (zkml_complemented point)
  · intro table htable
    obtain ⟨value, -, hagrees⟩ := zkml_tensorBackend.exists_mleAgrees htable hdata
    exact ⟨value, hagrees⟩
  · intro table htable
    obtain ⟨hlt, hpoint⟩ := hsol.mp ⟨table, htable⟩
    obtain ⟨value, -, hagrees⟩ := sol_tensorBackend.exists_mleAgrees htable hdata
    rw [initializeTensor_sol hpoint] at htable
    obtain ⟨value', -, hagrees'⟩ := zkml_tensorBackend.exists_mleAgrees htable hdata
    have hvalue := hagrees.evaluated
    rw [evaluateMleFromData_sol hlt hpoint hdata, hagrees'.evaluated] at hvalue
    obtain rfl := Except.ok.inj hvalue
    exact ⟨_, hagrees, hagrees'⟩

/-- Three entries at an asymmetric point: the missing entry counts as a zero. -/
theorem three_entries_agree :
    [7, 8, 9].length ≤ 2 ^ [3, 5].length ∧
      initializeTensor zkmlBackend [3, 5] = .ok [8, FR_MOD - 10, FR_MOD - 12, 15] ∧
      ∃ value, MleAgrees zkmlBackend [3, 5] [7, 8, 9] [8, FR_MOD - 10, FR_MOD - 12, 15] value := by
  have htensor : initializeTensor zkmlBackend [3, 5] = .ok [8, FR_MOD - 10, FR_MOD - 12, 15] := by
    decide +kernel
  exact ⟨by decide, htensor, (mle_agreement (by decide)).2.2.1 _ htensor⟩

end WorldZk.TensorEvaluation
