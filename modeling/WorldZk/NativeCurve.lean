import WorldZk.FieldArithmetic
import WorldZk.JacobianLaw
import WorldZk.NamedInstances
import WorldZk.ProofTypes

/-!
# The native BN254 operations

The pure Rust curve arithmetic of `ec.rs`: double-and-add in Jacobian coordinates behind the
`ec_add` and `ec_mul` that the verifier calls. On encodings of curve points these are the group
law; the functions themselves never check that a point is on the curve.
-/

namespace WorldZk.NativeCurve

open Bn254Moduli FieldArithmetic ProofTypes JacobianLaw WeierstrassCurve
open scoped NamedInstances

/-- A Jacobian triple, standing for `(x / z², y / z³)`. -/
structure JacPoint where
  x : ℕ
  y : ℕ
  z : ℕ
deriving DecidableEq

namespace JacPoint

def infinity : JacPoint := ⟨1, 1, 0⟩

def fromAffine (x y : ℕ) : JacPoint := if x = 0 ∧ y = 0 then infinity else ⟨x, y, 1⟩

def toAffine (p : JacPoint) : ℕ × ℕ :=
  if p.z = 0 then (0, 0)
  else
    let zInv := fieldInv p.z FQ_MOD
    let zInv2 := fieldMul zInv zInv FQ_MOD
    let zInv3 := fieldMul zInv2 zInv FQ_MOD
    (fieldMul p.x zInv2 FQ_MOD, fieldMul p.y zInv3 FQ_MOD)

def double (p : JacPoint) : JacPoint :=
  if p.z = 0 ∨ p.y = 0 then infinity
  else
    let a := fieldMul p.x p.x FQ_MOD
    let b := fieldMul p.y p.y FQ_MOD
    let c := fieldMul b b FQ_MOD
    let xpb := fieldAdd p.x b FQ_MOD
    let d := fieldSub (fieldSub (fieldMul xpb xpb FQ_MOD) a FQ_MOD) c FQ_MOD
    let d := fieldAdd d d FQ_MOD
    let e := fieldAdd (fieldAdd a a FQ_MOD) a FQ_MOD
    let f := fieldMul e e FQ_MOD
    let x3 := fieldSub (fieldSub f d FQ_MOD) d FQ_MOD
    let c8 := fieldAdd c c FQ_MOD
    let c8 := fieldAdd c8 c8 FQ_MOD
    let c8 := fieldAdd c8 c8 FQ_MOD
    let y3 := fieldSub (fieldMul e (fieldSub d x3 FQ_MOD) FQ_MOD) c8 FQ_MOD
    let z3 := fieldMul (fieldAdd p.y p.y FQ_MOD) p.z FQ_MOD
    ⟨x3, y3, z3⟩

/-- Mixed addition with the affine point `(px, py)`. -/
def addAffine (p : JacPoint) (px py : ℕ) : JacPoint :=
  if px = 0 ∧ py = 0 then p
  else if p.z = 0 then fromAffine px py
  else
    let z1z1 := fieldMul p.z p.z FQ_MOD
    let u2 := fieldMul px z1z1 FQ_MOD
    let s2 := fieldMul (fieldMul py p.z FQ_MOD) z1z1 FQ_MOD
    let h := fieldSub u2 p.x FQ_MOD
    let r := fieldSub s2 p.y FQ_MOD
    if h = 0 then
      if r = 0 then p.double else infinity
    else
      let hh := fieldMul h h FQ_MOD
      let hhh := fieldMul h hh FQ_MOD
      let x1hh := fieldMul p.x hh FQ_MOD
      let x3 := fieldSub (fieldSub (fieldSub (fieldMul r r FQ_MOD) hhh FQ_MOD) x1hh FQ_MOD)
        x1hh FQ_MOD
      let y3 := fieldSub (fieldMul r (fieldSub x1hh x3 FQ_MOD) FQ_MOD)
        (fieldMul p.y hhh FQ_MOD) FQ_MOD
      let z3 := fieldMul h p.z FQ_MOD
      ⟨x3, y3, z3⟩

end JacPoint

/-- `ec_add_native` on the four words of its input. -/
def ecAddNative (x1 y1 x2 y2 : ℕ) : G1Point :=
  let p1 := JacPoint.fromAffine (fieldFromWord x1 FQ_MOD) (fieldFromWord y1 FQ_MOD)
  let result := p1.addAffine (fieldFromWord x2 FQ_MOD) (fieldFromWord y2 FQ_MOD)
  ⟨result.toAffine.1, result.toAffine.2⟩

/-- The scalar's bits from `bits - 1` down to 0, with the accumulator and the `started` flag. -/
def ecMulLoop (px py scalar : ℕ) : ℕ → JacPoint → Bool → JacPoint
  | 0, acc, _ => acc
  | bit + 1, acc, started =>
    let acc := if started then acc.double else acc
    if scalar.testBit bit then
      if started then ecMulLoop px py scalar bit (acc.addAffine px py) true
      else ecMulLoop px py scalar bit (JacPoint.fromAffine px py) true
    else ecMulLoop px py scalar bit acc started

/-- `ec_mul_native` on the three words of its input. -/
@[irreducible]
def ecMulNative (x y scalar : ℕ) : G1Point :=
  let px := fieldFromWord x FQ_MOD
  let py := fieldFromWord y FQ_MOD
  if (px = 0 ∧ py = 0) ∨ scalar = 0 then G1Point.INFINITY
  else
    let acc := ecMulLoop px py scalar 256 JacPoint.infinity false
    ⟨acc.toAffine.1, acc.toAffine.2⟩

/-- `ec_add`: an operand at infinity returns the other one as it is stored. -/
def ecAdd (p1 p2 : G1Point) : G1Point :=
  if p1.isInfinity then p2
  else if p2.isInfinity then p1
  else ecAddNative p1.x p1.y p2.x p2.y

def ecMul (p : G1Point) (s : ℕ) : G1Point :=
  if p.isInfinity || s == 0 then G1Point.INFINITY else ecMulNative p.x p.y s

/-! ## Curve points and their encodings -/

/-- BN254's G1, the affine points of `y² = x³ + 3`. -/
abbrev G1 : Type := (shortCurve (3 : ZMod FQ_MOD)).Point

/-- The stored form of a curve point. -/
def encode : G1 → G1Point
  | .zero => G1Point.INFINITY
  | .some x y _ => ⟨x.val, y.val⟩

/-- The membership test `HyraxVerifier.isOnCurve`, which the Rust crate does not make. -/
def isOnCurve (p : G1Point) : Bool :=
  if p.x = 0 ∧ p.y = 0 then true
  else if FQ_MOD ≤ p.x ∨ FQ_MOD ≤ p.y then false
  else p.y * p.y % FQ_MOD == (p.x * p.x % FQ_MOD * p.x % FQ_MOD + 3) % FQ_MOD

theorem three_ne_zero' : (3 : ZMod FQ_MOD) ≠ 0 := by
  intro h
  have hcast : ((3 : ℕ) : ZMod FQ_MOD) = 0 := by exact_mod_cast h
  rw [ZMod.natCast_eq_zero_iff] at hcast
  exact absurd (Nat.le_of_dvd (by norm_num) hcast) (by decide)

theorem two_ne_zero' : (2 : ZMod FQ_MOD) ≠ 0 := by
  intro h
  have hcast : ((2 : ℕ) : ZMod FQ_MOD) = 0 := by exact_mod_cast h
  rw [ZMod.natCast_eq_zero_iff] at hcast
  exact absurd (Nat.le_of_dvd (by norm_num) hcast) (by decide)

theorem cast_eq_zero {a : ℕ} (ha : a < FQ_MOD) : (a : ZMod FQ_MOD) = 0 ↔ a = 0 := by
  rw [ZMod.natCast_eq_zero_iff]
  exact ⟨fun h => Nat.eq_zero_of_dvd_of_lt h ha, fun h => h ▸ dvd_zero _⟩

theorem cast_eq_iff {a : ℕ} (ha : a < FQ_MOD) {x : ZMod FQ_MOD} :
    (a : ZMod FQ_MOD) = x ↔ a = x.val := by
  constructor
  · rintro rfl
    exact (ZMod.val_cast_of_lt ha).symm
  · rintro rfl
    exact ZMod.natCast_rightInverse x

@[simp] theorem encode_zero : encode 0 = G1Point.INFINITY := rfl

@[simp] theorem encode_some {x y : ZMod FQ_MOD} (h) :
    encode (.some x y h) = ⟨x.val, y.val⟩ := rfl

theorem not_both_zero {x y : ZMod FQ_MOD}
    (h : (shortCurve (3 : ZMod FQ_MOD)).Nonsingular x y) : ¬(x = 0 ∧ y = 0) := by
  rintro ⟨rfl, rfl⟩
  have heq := (equation_iff_short (0 : ZMod FQ_MOD) 0).mp h.1
  exact three_ne_zero' (by simpa using heq.symm)

@[simp] theorem encode_eq_infinity_iff (P : G1) : encode P = G1Point.INFINITY ↔ P = 0 := by
  cases P with
  | zero => exact iff_of_true rfl rfl
  | some x y h =>
    refine iff_of_false ?_ (Affine.Point.some_ne_zero h)
    simpa [encode, G1Point.INFINITY] using not_both_zero h

theorem encode_injective : Function.Injective encode := by
  intro P Q hPQ
  cases P with
  | zero => exact ((encode_eq_infinity_iff Q).mp hPQ.symm).symm
  | some x y h =>
    cases Q with
    | zero => exact absurd ((encode_eq_infinity_iff _).mp hPQ) (Affine.Point.some_ne_zero h)
    | some x' y' h' =>
      simp only [encode, G1Point.mk.injEq] at hPQ
      have hx := ZMod.val_injective _ hPQ.1
      have hy := ZMod.val_injective _ hPQ.2
      subst hx hy
      rfl

end WorldZk.NativeCurve
