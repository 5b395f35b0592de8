import WorldZk.NativeCurve

/-!
# The native operations are the group law

`ec_add` and `ec_mul` compute sum and scalar multiple on encodings of curve points. The
invariant carried through double-and-add is that a Jacobian triple is reduced and stands for
the running multiple.
-/

namespace WorldZk.NativeCurve

open Bn254Moduli FieldArithmetic ProofTypes JacobianLaw WeierstrassCurve

/-- The word `a` is the canonical representative of the field element `x`. -/
structure Reduced (a : ℕ) (x : ZMod FQ_MOD) : Prop where
  lt : a < FQ_MOD
  cast : (a : ZMod FQ_MOD) = x

namespace Reduced

variable {a b : ℕ} {x y : ZMod FQ_MOD}

theorem add (ha : Reduced a x) (hb : Reduced b y) : Reduced (fieldAdd a b FQ_MOD) (x + y) where
  lt := fieldAdd_lt FQ_MOD_lt_word ha.lt hb.lt
  cast := by rw [cast_fieldAdd FQ_MOD_lt_word ha.lt hb.lt, ha.cast, hb.cast]

theorem sub (ha : Reduced a x) (hb : Reduced b y) : Reduced (fieldSub a b FQ_MOD) (x - y) where
  lt := fieldSub_lt FQ_MOD_lt_word ha.lt hb.lt
  cast := by rw [cast_fieldSub FQ_MOD_lt_word ha.lt hb.lt, ha.cast, hb.cast]

theorem mul (ha : Reduced a x) (hb : Reduced b y) : Reduced (fieldMul a b FQ_MOD) (x * y) where
  lt := fieldMul_lt FQ_MOD_prime.pos a b
  cast := by rw [cast_fieldMul, ha.cast, hb.cast]

theorem inv (ha : Reduced a x) : Reduced (fieldInv a FQ_MOD) x⁻¹ where
  lt := fieldInv_lt FQ_MOD_prime.one_lt a
  cast := by rw [cast_fieldInv FQ_MOD_lt_word (by decide), ha.cast]

theorem val (x : ZMod FQ_MOD) : Reduced x.val x where
  lt := ZMod.val_lt x
  cast := ZMod.natCast_rightInverse x

theorem eq_val (ha : Reduced a x) : a = x.val := (cast_eq_iff ha.lt).mp ha.cast

theorem eq_zero_iff (ha : Reduced a x) : a = 0 ↔ x = 0 := by
  rw [← ha.cast, cast_eq_zero ha.lt]

end Reduced

/-- A reduced triple that stands for the curve point `P`. -/
def Stands (p : JacPoint) (P : G1) : Prop :=
  ∃ X Y Z, Reduced p.x X ∧ Reduced p.y Y ∧ Reduced p.z Z ∧ Represents P X Y Z

theorem stands_infinity : Stands JacPoint.infinity 0 := by
  refine ⟨1, 1, 0, ⟨?_, Nat.cast_one⟩, ⟨?_, Nat.cast_one⟩, ⟨?_, Nat.cast_zero⟩, ?_⟩
  · exact FQ_MOD_prime.one_lt
  · exact FQ_MOD_prime.one_lt
  · exact FQ_MOD_prime.pos
  · simp

private theorem val_pair_ne_zero {x y : ZMod FQ_MOD}
    (h : (shortCurve (3 : ZMod FQ_MOD)).Nonsingular x y) : ¬(x.val = 0 ∧ y.val = 0) := by
  rw [ZMod.val_eq_zero, ZMod.val_eq_zero]
  exact not_both_zero h

theorem stands_fromAffine (P : G1) :
    Stands (JacPoint.fromAffine (encode P).x (encode P).y) P := by
  cases P with
  | zero => exact stands_infinity
  | some x y h =>
    rw [encode_some, JacPoint.fromAffine, if_neg (val_pair_ne_zero h)]
    exact ⟨x, y, 1, .val x, .val y, ⟨FQ_MOD_prime.one_lt, Nat.cast_one⟩, by simp⟩

theorem Stands.z_eq_zero_iff {p : JacPoint} {P : G1} (h : Stands p P) : p.z = 0 ↔ P = 0 := by
  obtain ⟨X, Y, Z, -, -, hz, hrep⟩ := h
  rw [hz.eq_zero_iff, represents_zero_iff hrep]

theorem Stands.toAffine_eq {p : JacPoint} {P : G1} (h : Stands p P) :
    (⟨p.toAffine.1, p.toAffine.2⟩ : G1Point) = encode P := by
  have hzero := h.z_eq_zero_iff
  obtain ⟨X, Y, Z, hx, hy, hz, hrep⟩ := h
  by_cases hz0 : p.z = 0
  · rw [JacPoint.toAffine, if_pos hz0, hzero.mp hz0, encode_zero]
    rfl
  · rw [JacPoint.toAffine, if_neg hz0]
    cases P with
    | zero => exact absurd (hzero.mpr rfl) hz0
    | some x y hxy =>
      obtain ⟨hZ, rfl, rfl⟩ := hrep
      have hi := hz.inv
      have hx' := hx.mul (hi.mul hi)
      have hy' := hy.mul ((hi.mul hi).mul hi)
      simp only [encode, G1Point.mk.injEq, hx'.eq_val, hy'.eq_val]
      constructor <;> congr 1 <;> field_simp

theorem Stands.double {p : JacPoint} {P : G1} (h : Stands p P) : Stands p.double (P + P) := by
  have hzero := h.z_eq_zero_iff
  obtain ⟨X, Y, Z, hx, hy, hz, hrep⟩ := h
  rw [JacPoint.double]
  by_cases hdeg : p.z = 0 ∨ p.y = 0
  · have hPP : P + P = 0 := by
      rcases hdeg with hz0 | hy0
      · rw [hzero.mp hz0, add_zero]
      · rw [hy.eq_zero_iff.mp hy0] at hrep
        exact double_eq_zero_of_Y hrep
    rw [if_pos hdeg, hPP]
    exact stands_infinity
  · rw [if_neg hdeg]
    obtain ⟨hz0, hy0⟩ := not_or.mp hdeg
    have ha := hx.mul hx
    have hb := hy.mul hy
    have hc := hb.mul hb
    have hd := (((hx.add hb).mul (hx.add hb)).sub ha).sub hc
    have hd := hd.add hd
    have he := (ha.add ha).add ha
    have hx3 := ((he.mul he).sub hd).sub hd
    have hc8 := hc.add hc
    have hc8 := hc8.add hc8
    have hc8 := hc8.add hc8
    have hy3 := (he.mul (hd.sub hx3)).sub hc8
    have hz3 := (hy.add hy).mul hz
    refine ⟨_, _, _, hx3, hy3, hz3, ?_⟩
    convert represents_double two_ne_zero' hrep (mt hz.eq_zero_iff.mpr hz0)
      (mt hy.eq_zero_iff.mpr hy0) rfl rfl using 1 <;> ring

theorem Stands.addAffine {p : JacPoint} {P : G1} (h : Stands p P) (Q : G1) :
    Stands (p.addAffine (encode Q).x (encode Q).y) (P + Q) := by
  cases Q with
  | zero =>
    have hQ : P + (.zero : G1) = P := add_zero P
    rw [hQ]
    exact h
  | some x₂ y₂ h₂ =>
    rw [encode_some, JacPoint.addAffine, if_neg (val_pair_ne_zero h₂)]
    by_cases hz0 : p.z = 0
    · have hP : P = 0 := h.z_eq_zero_iff.mp hz0
      rw [if_pos hz0, hP, zero_add]
      exact stands_fromAffine (.some x₂ y₂ h₂)
    · rw [if_neg hz0]
      have hstands := h
      obtain ⟨X, Y, Z, hx, hy, hz, hrep⟩ := h
      have hZ : Z ≠ 0 := mt hz.eq_zero_iff.mpr hz0
      have hzz := hz.mul hz
      have hh := ((Reduced.val x₂).mul hzz).sub hx
      have hr := (((Reduced.val y₂).mul hz).mul hzz).sub hy
      have hHeq : x₂ * (Z * Z) - X = x₂ * Z ^ 2 - X := by ring
      have hReq : y₂ * Z * (Z * Z) - Y = y₂ * Z ^ 3 - Y := by ring
      rw [hHeq] at hh
      rw [hReq] at hr
      simp only [hh.eq_zero_iff, hr.eq_zero_iff]
      by_cases hH : x₂ * Z ^ 2 - X = 0
      · rw [if_pos hH]
        obtain ⟨hsame, hopp⟩ := addAffine_of_X_eq h₂ hrep hZ hH
        by_cases hR : y₂ * Z ^ 3 - Y = 0
        · rw [if_pos hR, ← hsame hR]
          exact hstands.double
        · rw [if_neg hR, hopp hR]
          exact stands_infinity
      · rw [if_neg hH]
        have hhh := hh.mul hh
        have hhhh := hh.mul hhh
        have hx1 := hx.mul hhh
        have hx3 := (((hr.mul hr).sub hhhh).sub hx1).sub hx1
        have hy3 := (hr.mul (hx1.sub hx3)).sub (hy.mul hhhh)
        have hz3 := hh.mul hz
        refine ⟨_, _, _, hx3, hy3, hz3, ?_⟩
        convert represents_addAffine h₂ hrep hZ rfl rfl hH rfl using 1 <;> ring

theorem fieldFromWord_encode (P : G1) :
    fieldFromWord (encode P).x FQ_MOD = (encode P).x ∧
      fieldFromWord (encode P).y FQ_MOD = (encode P).y := by
  cases P with
  | zero => exact ⟨fieldFromWord_of_lt FQ_MOD_prime.pos, fieldFromWord_of_lt FQ_MOD_prime.pos⟩
  | some x y h =>
    exact ⟨fieldFromWord_of_lt (ZMod.val_lt x), fieldFromWord_of_lt (ZMod.val_lt y)⟩

theorem ecAdd_encode (P Q : G1) : ecAdd (encode P) (encode Q) = encode (P + Q) := by
  rw [ecAdd]
  simp only [G1Point.isInfinity_iff, encode_eq_infinity_iff]
  by_cases hP : P = 0
  · rw [if_pos hP, hP, zero_add]
  · by_cases hQ : Q = 0
    · rw [if_neg hP, if_pos hQ, hQ, add_zero]
    · rw [if_neg hP, if_neg hQ, ecAddNative, (fieldFromWord_encode P).1,
        (fieldFromWord_encode P).2, (fieldFromWord_encode Q).1, (fieldFromWord_encode Q).2]
      exact ((stands_fromAffine P).addAffine Q).toAffine_eq

private theorem ecMulLoop_stands (P : G1) (s : ℕ) (bit : ℕ) (acc : JacPoint) (started : Bool)
    (hstarted : started = false → s / 2 ^ bit = 0) (hacc : Stands acc ((s / 2 ^ bit) • P)) :
    Stands (ecMulLoop (encode P).x (encode P).y s bit acc started) (s • P) := by
  induction bit generalizing acc started with
  | zero => simpa [ecMulLoop] using hacc
  | succ bit ih =>
    have hsplit : s / 2 ^ bit = 2 * (s / 2 ^ (bit + 1)) + s / 2 ^ bit % 2 := by
      rw [pow_succ, ← Nat.div_div_eq_div_mul]
      omega
    have hdouble : Stands (if started = true then acc.double else acc)
        ((2 * (s / 2 ^ (bit + 1))) • P) := by
      by_cases hs : started = true
      · rw [if_pos hs, two_mul, add_nsmul]
        exact hacc.double
      · have hzero := hstarted (by simpa using hs)
        rw [if_neg hs, hzero]
        simpa [hzero] using hacc
    simp only [ecMulLoop]
    by_cases hbit : s.testBit bit = true
    · have hodd : s / 2 ^ bit % 2 = 1 := by
        rwa [Nat.testBit_eq_decide_div_mod_eq, decide_eq_true_eq] at hbit
      rw [if_pos hbit]
      by_cases hs : started = true
      · rw [if_pos hs]
        rw [if_pos hs] at hdouble
        rw [if_pos hs]
        refine ih _ true (by simp) ?_
        rw [hsplit, hodd, add_nsmul, one_nsmul]
        exact hdouble.addAffine P
      · rw [if_neg hs]
        refine ih _ true (by simp) ?_
        rw [hsplit, hodd, hstarted (by simpa using hs)]
        simpa using stands_fromAffine P
    · have heven : s / 2 ^ bit % 2 = 0 := by
        rw [Nat.testBit_eq_decide_div_mod_eq, decide_eq_true_eq] at hbit
        omega
      rw [if_neg hbit]
      refine ih _ started ?_ ?_
      · intro hs
        rw [hsplit, heven, hstarted hs]
      · rw [hsplit, heven, add_zero]
        exact hdouble

/-- `ec_mul` multiplies a curve point by the whole 256-bit scalar. -/
theorem ecMul_encode (P : G1) {s : ℕ} (hs : s < WORD) : ecMul (encode P) s = encode (s • P) := by
  rw [ecMul]
  simp only [Bool.or_eq_true, G1Point.isInfinity_iff, encode_eq_infinity_iff, beq_iff_eq]
  by_cases hdeg : P = 0 ∨ s = 0
  · have hzero : s • P = 0 := by
      rcases hdeg with h | h
      · rw [h, nsmul_zero]
      · rw [h, zero_nsmul]
    rw [if_pos hdeg, hzero, encode_zero]
  · rw [if_neg hdeg, ecMulNative, (fieldFromWord_encode P).1, (fieldFromWord_encode P).2]
    obtain ⟨hP, hs0⟩ := not_or.mp hdeg
    have hcoords : ¬((encode P).x = 0 ∧ (encode P).y = 0) := by
      intro h
      refine hP ((encode_eq_infinity_iff P).mp ?_)
      cases hp : encode P
      simp_all [G1Point.INFINITY]
    rw [if_neg (by simp [hcoords, hs0])]
    have hhigh : s / 2 ^ 256 = 0 := Nat.div_eq_of_lt hs
    refine (ecMulLoop_stands P s 256 JacPoint.infinity false (fun _ => hhigh) ?_).toAffine_eq
    rw [hhigh, zero_nsmul]
    exact stands_infinity

end WorldZk.NativeCurve
