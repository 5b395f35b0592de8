import WorldZk.NativeCurveLaw
import Mathlib.GroupTheory.Perm.Cycle.Type
import Mathlib.Data.ZMod.Basic

/-!
# BN254's G1 has prime order

The generator `(1, 2)` has order `FR_MOD`, the curve has at most `2 q + 1 < 3 FR_MOD` points and
no point of order two, so the group has exactly `FR_MOD` elements and multiplication by a scalar
that is nonzero modulo `FR_MOD` is injective.
-/

namespace WorldZk.NativeCurve

open Bn254Moduli FieldArithmetic ProofTypes JacobianLaw WeierstrassCurve ModularPower
open scoped NamedInstances

theorem isOnCurve_iff (p : G1Point) : isOnCurve p = true ↔ ∃ P, encode P = p := by
  constructor
  · intro h
    unfold isOnCurve at h
    by_cases hinf : p.x = 0 ∧ p.y = 0
    · refine ⟨0, ?_⟩
      obtain ⟨x, y⟩ := p
      obtain ⟨hx, hy⟩ := hinf
      subst hx hy
      rfl
    · rw [if_neg hinf] at h
      by_cases hrange : FQ_MOD ≤ p.x ∨ FQ_MOD ≤ p.y
      · simp [hrange] at h
      · rw [if_neg hrange, beq_iff_eq] at h
        obtain ⟨hx, hy⟩ := not_or.mp hrange
        have heq : ((p.y : ZMod FQ_MOD)) ^ 2 = (p.x : ZMod FQ_MOD) ^ 3 + 3 := by
          have hcast := congrArg (Nat.cast : ℕ → ZMod FQ_MOD) h
          simp only [ZMod.natCast_mod, Nat.cast_mul, Nat.cast_add, Nat.cast_ofNat] at hcast
          linear_combination hcast
        refine ⟨.some _ _ (nonsingular_of_equation two_ne_zero' three_ne_zero' three_ne_zero'
          heq), ?_⟩
        rw [encode_some, ZMod.val_cast_of_lt (not_le.mp hx), ZMod.val_cast_of_lt (not_le.mp hy)]
  · rintro ⟨P, rfl⟩
    cases P with
    | zero => rfl
    | some x y hxy =>
      have heq := (equation_iff_short x y).mp hxy.1
      have hx := ZMod.val_lt x
      have hy := ZMod.val_lt y
      have hnat : y.val * y.val % FQ_MOD =
          (x.val * x.val % FQ_MOD * x.val % FQ_MOD + 3) % FQ_MOD := by
        refine (ZMod.natCast_eq_natCast_iff' _ _ FQ_MOD).mp ?_
        simp only [ZMod.natCast_mod, Nat.cast_mul, Nat.cast_add, Nat.cast_ofNat,
          ZMod.natCast_rightInverse _]
        linear_combination heq
      rw [encode_some, isOnCurve]
      split
      · rfl
      · rw [if_neg (not_or.mpr ⟨not_le.mpr hx, not_le.mpr hy⟩), beq_iff_eq]
        exact hnat

theorem isOnCurve_infinity : isOnCurve G1Point.INFINITY = true := rfl

theorem isOnCurve_ecMul {p : G1Point} (hp : isOnCurve p = true) {s : ℕ} (hs : s < WORD) :
    isOnCurve (ecMul p s) = true := by
  obtain ⟨P, rfl⟩ := (isOnCurve_iff p).mp hp
  rw [ecMul_encode P hs, isOnCurve_iff]
  exact ⟨_, rfl⟩

private theorem ecMulLoop_mod (px py s : ℕ) {bit : ℕ} (hbit : bit ≤ 256) (acc : JacPoint)
    (started : Bool) :
    ecMulLoop px py (s % 2 ^ 256) bit acc started = ecMulLoop px py s bit acc started := by
  induction bit generalizing acc started with
  | zero => rfl
  | succ bit ih =>
    have htest : (s % 2 ^ 256).testBit bit = s.testBit bit := by
      rw [Nat.testBit_mod_two_pow, decide_eq_true (by omega), Bool.true_and]
    simp only [ecMulLoop, htest, ih (by omega : bit ≤ 256)]

private theorem ecMulLoop_zero (px py bit : ℕ) (acc : JacPoint) :
    ecMulLoop px py 0 bit acc false = acc := by
  induction bit with
  | zero => rfl
  | succ bit ih => simpa [ecMulLoop] using ih

theorem isOnCurve_ecMul_any {p : G1Point} (hp : isOnCurve p = true) (s : ℕ) :
    isOnCurve (ecMul p s) = true := by
  by_cases hdeg : p.isInfinity = true ∨ s = 0
  · rw [ecMul, if_pos (by simpa using hdeg)]
    exact isOnCurve_infinity
  · obtain ⟨hinf, hs⟩ := not_or.mp hdeg
    have hmul : ecMul p s = ecMulNative p.x p.y s := by
      rw [ecMul, if_neg (by simp [hinf, hs])]
    by_cases hzero : s % 2 ^ 256 = 0
    · have hnative : ecMulNative p.x p.y s = G1Point.INFINITY := by
        rw [ecMulNative]
        split
        · rfl
        · rw [← ecMulLoop_mod _ _ s le_rfl, hzero, ecMulLoop_zero]
          rfl
      rw [hmul, hnative]
      exact isOnCurve_infinity
    · have hmod : ecMul p (s % 2 ^ 256) = ecMulNative p.x p.y s := by
        rw [ecMul, if_neg (by simp only [hinf, hzero, beq_iff_eq, Bool.or_eq_true]; decide),
          ecMulNative, ecMulNative, ecMulLoop_mod _ _ s le_rfl]
        simp only [hzero, hs]
      rw [hmul, ← hmod]
      exact isOnCurve_ecMul hp (Nat.mod_lt _ (Nat.two_pow_pos 256))

theorem isOnCurve_ecAdd {p q : G1Point} (hp : isOnCurve p = true) (hq : isOnCurve q = true) :
    isOnCurve (ecAdd p q) = true := by
  obtain ⟨P, rfl⟩ := (isOnCurve_iff p).mp hp
  obtain ⟨Q, rfl⟩ := (isOnCurve_iff q).mp hq
  rw [ecAdd_encode, isOnCurve_iff]
  exact ⟨_, rfl⟩

/-- On encodings of curve points, infinity among them as `(0, 0)`, the native operations are the
group law: `ec_add` is the sum of any two points, and `ec_mul` the multiple for any 256-bit
scalar, so it turns a sum of scalars into a sum of points. -/
theorem native_group_law (P Q : G1) {s : ℕ} (hs : s < WORD) :
    ecAdd (encode P) (encode Q) = encode (P + Q) ∧
      ecMul (encode P) s = encode (s • P) ∧
      ∀ t, s + t < WORD →
        ecMul (encode P) (s + t) = ecAdd (ecMul (encode P) s) (ecMul (encode P) t) := by
  refine ⟨ecAdd_encode P Q, ecMul_encode P hs, fun t hsum => ?_⟩
  have ht : t < WORD := (Nat.le_add_left t s).trans_lt hsum
  rw [ecMul_encode P hs, ecMul_encode P ht, ecMul_encode P hsum, ecAdd_encode, add_nsmul]

/-- The generator `(1, 2)`. -/
def generator : G1 :=
  .some 1 2 (nonsingular_of_equation two_ne_zero' three_ne_zero' three_ne_zero' (by norm_num))

theorem encode_generator : encode generator = ⟨1, 2⟩ := by
  have hone : (1 : ZMod FQ_MOD).val = 1 := by
    simpa using ZMod.val_cast_of_lt (n := FQ_MOD) (a := 1) (by decide)
  have htwo : (2 : ZMod FQ_MOD).val = 2 := by
    simpa using ZMod.val_cast_of_lt (n := FQ_MOD) (a := 2) (by decide)
  rw [generator, encode_some, hone, htwo]

/-- The generator is added to itself, and multiplied by the largest scalar. -/
theorem generator_group_law :
    ecAdd ⟨1, 2⟩ ⟨1, 2⟩ = encode (generator + generator) ∧
      ecMul ⟨1, 2⟩ (WORD - 1) = encode ((WORD - 1) • generator) ∧
      ecMul ⟨1, 2⟩ (WORD - 1) = ecAdd (ecMul ⟨1, 2⟩ (WORD - 2)) ⟨1, 2⟩ := by
  have hlargest := native_group_law generator generator (s := WORD - 1) (by decide)
  have hsplit := (native_group_law generator generator (s := WORD - 2) (by decide)).2.2 1
    (by decide)
  rw [encode_generator] at hlargest hsplit
  refine ⟨hlargest.1, hlargest.2.1, hsplit.trans ?_⟩
  have hone : ecMul ⟨1, 2⟩ 1 = ⟨1, 2⟩ := by decide +kernel
  rw [hone]

theorem FR_MOD_nsmul_generator : FR_MOD • generator = 0 := by
  have hmul : ecMul ⟨1, 2⟩ FR_MOD = G1Point.INFINITY := by decide +kernel
  rw [← encode_generator, ecMul_encode _ FR_MOD_lt_word] at hmul
  exact (encode_eq_infinity_iff _).mp hmul

theorem addOrderOf_generator : addOrderOf generator = FR_MOD :=
  addOrderOf_eq_prime FR_MOD_nsmul_generator (Affine.Point.some_ne_zero _)

/-- A point is determined by its first coordinate and by which of the two candidate second
coordinates has the smaller representative. -/
private def compress : G1 → Option (ZMod FQ_MOD × Bool)
  | .zero => none
  | .some x y _ => some (x, decide (y.val ≤ (-y).val))

private theorem compress_injective : Function.Injective compress := by
  intro P Q hPQ
  cases P with
  | zero =>
    cases Q with
    | zero => rfl
    | some x y h => simp [compress] at hPQ
  | some x y h =>
    cases Q with
    | zero => simp [compress] at hPQ
    | some x' y' h' =>
      simp only [compress, Option.some.injEq, Prod.mk.injEq, decide_eq_decide] at hPQ
      obtain ⟨rfl, hflag⟩ := hPQ
      have hy : y = y' := by
        rcases Affine.Y_eq_of_X_eq h.1 h'.1 rfl with hy | hy
        · exact hy
        · rw [negY_eq] at hy
          subst hy
          rw [neg_neg] at hflag
          refine ZMod.val_injective _ ?_
          rcases le_total y'.val (-y').val with hle | hle
          · exact le_antisymm (hflag.mpr hle) hle
          · exact le_antisymm hle (hflag.mp hle)
      subst hy
      rfl

instance : Finite G1 := Finite.of_injective compress compress_injective

theorem natCard_le : Nat.card G1 ≤ 2 * FQ_MOD + 1 := by
  have h := Nat.card_le_card_of_injective compress compress_injective
  have hbool : Nat.card Bool = 2 := by simp
  rw [Finite.card_option, Nat.card_prod, Nat.card_zmod, hbool] at h
  omega

private theorem cube_ne (x : ZMod FQ_MOD) : x ^ 3 ≠ -3 := by
  intro hx
  have hx0 : x ≠ 0 := by
    rintro rfl
    have : (3 : ZMod FQ_MOD) = 0 := by linear_combination hx
    exact three_ne_zero' this
  -- a cube raised to `(q - 1) / 3` is one, but `-3` is not
  have hpow : (-3 : ZMod FQ_MOD) ^ ((FQ_MOD - 1) / 3) = 1 := by
    have hexp : 3 * ((FQ_MOD - 1) / 3) = FQ_MOD - 1 := by decide
    rw [← hx, ← pow_mul, hexp]
    exact ZMod.pow_card_sub_one_eq_one hx0
  have hneg : (-3 : ZMod FQ_MOD) = ((FQ_MOD - 3 : ℕ) : ZMod FQ_MOD) := by
    have h3 : 3 ≤ FQ_MOD := by decide
    rw [Nat.cast_sub h3, ZMod.natCast_self]
    norm_num
  have hbits : (FQ_MOD - 1) / 3 < 2 ^ 256 := by decide
  have hcast := powMod_cast FQ_MOD 256 1 (FQ_MOD - 3) ((FQ_MOD - 1) / 3) hbits
  rw [Nat.cast_one, one_mul, ← hneg, hpow] at hcast
  have hone : powMod FQ_MOD 256 1 (FQ_MOD - 3) ((FQ_MOD - 1) / 3) = 1 := by
    have hlt : powMod FQ_MOD 256 1 (FQ_MOD - 3) ((FQ_MOD - 1) / 3) < FQ_MOD :=
      powMod_lt FQ_MOD_prime.pos FQ_MOD_prime.one_lt _ _ _
    have h1 : ((1 : ℕ) : ZMod FQ_MOD) = 1 := Nat.cast_one
    rw [← h1, ZMod.natCast_eq_natCast_iff', Nat.mod_eq_of_lt hlt,
      Nat.mod_eq_of_lt FQ_MOD_prime.one_lt] at hcast
    exact hcast
  exact absurd hone (by decide +kernel)

theorem eq_zero_of_double {P : G1} (h : P + P = 0) : P = 0 := by
  cases P with
  | zero => rfl
  | some x y hxy =>
    exfalso
    by_cases hy : y = (shortCurve (3 : ZMod FQ_MOD)).negY x y
    · rw [negY_eq] at hy
      have hy0 : y = 0 := by
        have : 2 * y = 0 := by linear_combination hy
        exact (mul_eq_zero.mp this).resolve_left two_ne_zero'
      have heq := (equation_iff_short x y).mp hxy.1
      rw [hy0] at heq
      exact cube_ne x (by linear_combination -heq)
    · rw [Affine.Point.add_self_of_Y_ne hy] at h
      exact Affine.Point.some_ne_zero _ h

/-- BN254's G1 has exactly `FR_MOD` elements. -/
theorem natCard_eq : Nat.card G1 = FR_MOD := by
  have hdvd : FR_MOD ∣ Nat.card G1 := addOrderOf_generator ▸ addOrderOf_dvd_natCard generator
  obtain ⟨k, hk⟩ := hdvd
  have hpos : 0 < Nat.card G1 := Nat.card_pos
  have hle := natCard_le
  have hbound : 2 * FQ_MOD + 1 < 3 * FR_MOD := by decide
  have hk3 : k < 3 := by
    by_contra hge
    have : FR_MOD * 3 ≤ FR_MOD * k := Nat.mul_le_mul_left _ (by omega)
    omega
  interval_cases k
  · omega
  · omega
  · exfalso
    have hcard : Nat.card G1 = 2 * FR_MOD := by omega
    obtain ⟨P, hP⟩ := exists_prime_addOrderOf_dvd_card' 2 (hcard ▸ dvd_mul_right 2 FR_MOD)
    have h2 : P + P = 0 := by
      rw [← two_nsmul, ← hP]
      exact addOrderOf_nsmul_eq_zero P
    rw [eq_zero_of_double h2, addOrderOf_zero] at hP
    exact absurd hP (by norm_num)

theorem FR_MOD_nsmul (P : G1) : FR_MOD • P = 0 := by
  rw [← natCard_eq]
  exact card_nsmul_eq_zero'

theorem nsmul_mod (s : ℕ) (P : G1) : (s % FR_MOD) • P = s • P := by
  conv_rhs => rw [← Nat.div_add_mod s FR_MOD, add_nsmul, mul_comm, mul_nsmul, FR_MOD_nsmul]
  rw [zero_add]

theorem nsmul_eq_zero_iff {s : ℕ} (hs : ¬FR_MOD ∣ s) (P : G1) : s • P = 0 ↔ P = 0 := by
  refine ⟨fun h => ?_, fun h => by rw [h, nsmul_zero]⟩
  have hcop : Nat.Coprime s FR_MOD := ((Nat.Prime.coprime_iff_not_dvd FR_MOD_prime).mpr hs).symm
  have h1 := addOrderOf_dvd_of_nsmul_eq_zero h
  have h2 := addOrderOf_dvd_of_nsmul_eq_zero (FR_MOD_nsmul P)
  have hdvd : addOrderOf P ∣ 1 := hcop ▸ Nat.dvd_gcd h1 h2
  exact AddMonoid.addOrderOf_eq_one_iff.mp (Nat.dvd_one.mp hdvd)

theorem nsmul_left_cancel {s : ℕ} (hs : ¬FR_MOD ∣ s) {P Q : G1} (h : s • P = s • Q) : P = Q := by
  have hsub : s • (P - Q) = 0 := by rw [nsmul_sub, h, sub_self]
  exact sub_eq_zero.mp ((nsmul_eq_zero_iff hs _).mp hsub)

end WorldZk.NativeCurve
