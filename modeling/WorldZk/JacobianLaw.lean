import Mathlib.AlgebraicGeometry.EllipticCurve.Affine.Point
import Mathlib.Tactic.FieldSimp
import Mathlib.Tactic.LinearCombination

/-!
# Jacobian formulas on short Weierstrass curves

Doubling and mixed addition in Jacobian coordinates on `y² = x³ + b`, over any field of
characteristic different from two, as representations of the group law of the affine points.
-/

namespace WorldZk.JacobianLaw

open WeierstrassCurve WeierstrassCurve.Affine

variable {F : Type*} [Field F]

/-- The curve `y² = x³ + b`. -/
def shortCurve (b : F) : Affine F where
  a₁ := 0
  a₂ := 0
  a₃ := 0
  a₄ := 0
  a₆ := b

variable {b : F}

@[simp] theorem negY_eq (x y : F) : (shortCurve b).negY x y = -y := by
  simp [negY, shortCurve]

theorem equation_iff_short (x y : F) :
    (shortCurve b).Equation x y ↔ y ^ 2 = x ^ 3 + b := by
  simp [Affine.equation_iff, shortCurve]

/-- Off characteristic two and three, with `b ≠ 0`, every point of the curve is nonsingular. -/
theorem nonsingular_of_equation (h2 : (2 : F) ≠ 0) (h3 : (3 : F) ≠ 0) (hb : b ≠ 0) {x y : F}
    (h : y ^ 2 = x ^ 3 + b) : (shortCurve b).Nonsingular x y := by
  rw [Affine.nonsingular_iff, equation_iff_short]
  refine ⟨h, ?_⟩
  by_contra hsing
  simp only [shortCurve, not_or, ne_eq, not_not] at hsing
  obtain ⟨hx, hy⟩ := hsing
  have hy0 : y = 0 := by
    have : 2 * y = 0 := by linear_combination hy
    exact (mul_eq_zero.mp this).resolve_left h2
  have hx0 : x = 0 := by
    have : 3 * x ^ 2 = 0 := by linear_combination -hx
    exact pow_eq_zero_iff (by norm_num) |>.mp ((mul_eq_zero.mp this).resolve_left h3)
  exact hb (by rw [hy0, hx0] at h; simpa using h.symm)

/-- The Jacobian triple `(X, Y, Z)` stands for the point `P`: `Z = 0` for the neutral element,
and `P = (X / Z², Y / Z³)` otherwise. -/
def Represents (P : (shortCurve b).Point) (X Y Z : F) : Prop :=
  match P with
  | .zero => Z = 0
  | .some x y _ => Z ≠ 0 ∧ X = x * Z ^ 2 ∧ Y = y * Z ^ 3

@[simp] theorem represents_zero (X Y Z : F) :
    Represents (0 : (shortCurve b).Point) X Y Z ↔ Z = 0 := Iff.rfl

@[simp] theorem represents_some {x y : F} (h : (shortCurve b).Nonsingular x y) (X Y Z : F) :
    Represents (.some x y h) X Y Z ↔ Z ≠ 0 ∧ X = x * Z ^ 2 ∧ Y = y * Z ^ 3 := Iff.rfl

theorem represents_zero_iff {P : (shortCurve b).Point} {X Y Z : F} (h : Represents P X Y Z) :
    P = 0 ↔ Z = 0 := by
  cases P with
  | zero => exact iff_of_true rfl h
  | some x y hxy => exact iff_of_false (Point.some_ne_zero hxy) h.1

variable [DecidableEq F]

/-- A point with vanishing second coordinate is its own inverse. -/
theorem double_eq_zero_of_Y {P : (shortCurve b).Point} {X Z : F} (h : Represents P X 0 Z) :
    P + P = 0 := by
  cases P with
  | zero => exact add_zero _
  | some x y hxy =>
    obtain ⟨hZ, -, hY⟩ := h
    have hy : y = 0 := (mul_eq_zero.mp hY.symm).resolve_right (pow_ne_zero 3 hZ)
    exact Point.add_self_of_Y_eq (by rw [negY_eq, hy, neg_zero])

/-- The doubling formula of the curves with `a = 0`. -/
theorem represents_double (h2 : (2 : F) ≠ 0) {P : (shortCurve b).Point} {X Y Z : F}
    (h : Represents P X Y Z) (hZ : Z ≠ 0) (hY : Y ≠ 0) {D X' : F}
    (hD : D = 2 * ((X + Y ^ 2) ^ 2 - X ^ 2 - Y ^ 4))
    (hX' : X' = (3 * X ^ 2) ^ 2 - D - D) :
    Represents (P + P) X' (3 * X ^ 2 * (D - X') - 8 * Y ^ 4) (2 * Y * Z) := by
  cases P with
  | zero => exact absurd h hZ
  | some x y hxy =>
    obtain ⟨-, rfl, rfl⟩ := h
    have hy : y ≠ 0 := fun h0 => hY (by simp [h0])
    have hyneg : y ≠ (shortCurve b).negY x y := by
      rw [negY_eq]
      intro hyy
      have : 2 * y = 0 := by linear_combination hyy
      exact (mul_ne_zero h2 hy) this
    have hslope : (shortCurve b).slope x x y y = 3 * x ^ 2 / (2 * y) := by
      rw [Affine.slope_of_Y_ne rfl hyneg, negY_eq]
      simp only [shortCurve]
      ring_nf
    rw [Point.add_self_of_Y_ne hyneg, represents_some]
    refine ⟨mul_ne_zero (mul_ne_zero h2 hY) hZ, ?_, ?_⟩
    · subst hX' hD
      simp only [Affine.addX, hslope]
      simp only [shortCurve]
      field_simp
      ring
    · subst hX' hD
      simp only [Affine.addY, Affine.negAddY, Affine.addX, negY_eq, hslope]
      simp only [shortCurve]
      field_simp
      ring

/-- Mixed addition with an affine point of a different first coordinate. -/
theorem represents_addAffine {P : (shortCurve b).Point} {X Y Z x₂ y₂ : F}
    (h₂ : (shortCurve b).Nonsingular x₂ y₂) (h : Represents P X Y Z) (hZ : Z ≠ 0) {H R X' : F}
    (hH : H = x₂ * Z ^ 2 - X) (hR : R = y₂ * Z ^ 3 - Y) (hH0 : H ≠ 0)
    (hX' : X' = R ^ 2 - H ^ 3 - X * H ^ 2 - X * H ^ 2) :
    Represents (P + .some x₂ y₂ h₂) X' (R * (X * H ^ 2 - X') - Y * H ^ 3) (H * Z) := by
  cases P with
  | zero => exact absurd h hZ
  | some x y hxy =>
    obtain ⟨-, rfl, rfl⟩ := h
    have hfac : H = (x₂ - x) * Z ^ 2 := by rw [hH]; ring
    have hx : x ≠ x₂ := by
      rintro rfl
      exact hH0 (by rw [hfac]; ring)
    have hdiff : x₂ - x ≠ 0 := sub_ne_zero.mpr (Ne.symm hx)
    have hslope : (shortCurve b).slope x x₂ y y₂ = (y₂ - y) / (x₂ - x) := by
      rw [Affine.slope_of_X_ne hx, ← neg_sub y₂ y, ← neg_sub x₂ x, neg_div_neg_eq]
    rw [Point.add_of_X_ne hx, represents_some]
    refine ⟨mul_ne_zero hH0 hZ, ?_, ?_⟩
    · subst hX' hR
      rw [hfac]
      simp only [Affine.addX, hslope]
      simp only [shortCurve]
      field_simp
      ring
    · subst hX' hR
      rw [hfac]
      simp only [Affine.addY, Affine.negAddY, Affine.addX, negY_eq, hslope]
      simp only [shortCurve]
      field_simp
      ring

/-- Mixed addition with the first coordinates equal: doubling or the neutral element. -/
theorem addAffine_of_X_eq {P : (shortCurve b).Point} {X Y Z x₂ y₂ : F}
    (h₂ : (shortCurve b).Nonsingular x₂ y₂) (h : Represents P X Y Z) (hZ : Z ≠ 0)
    (hH : x₂ * Z ^ 2 - X = 0) :
    (y₂ * Z ^ 3 - Y = 0 → P = .some x₂ y₂ h₂) ∧
      (y₂ * Z ^ 3 - Y ≠ 0 → P + .some x₂ y₂ h₂ = 0) := by
  cases P with
  | zero => exact absurd h hZ
  | some x y hxy =>
    obtain ⟨-, rfl, rfl⟩ := h
    have hx : x = x₂ := by
      have hfac : (x₂ - x) * Z ^ 2 = 0 := by linear_combination hH
      have hsub := (mul_eq_zero.mp hfac).resolve_right (pow_ne_zero 2 hZ)
      linear_combination -hsub
    subst hx
    refine ⟨fun hR => ?_, fun hR => ?_⟩
    · have hfac : (y₂ - y) * Z ^ 3 = 0 := by linear_combination hR
      have hsub := (mul_eq_zero.mp hfac).resolve_right (pow_ne_zero 3 hZ)
      have hy : y = y₂ := by linear_combination -hsub
      subst hy
      rfl
    · rcases Affine.Y_eq_of_X_eq hxy.1 h₂.1 rfl with hy | hy
      · exact absurd (by rw [hy]; ring) hR
      · exact Point.add_of_Y_eq rfl hy

end WorldZk.JacobianLaw
