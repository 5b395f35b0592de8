import WorldZk.Bn254Moduli
import Mathlib.FieldTheory.Finite.Basic

/-!
# Field arithmetic on 256-bit words

The free functions of `field.rs`, shared by `Fq` and `Fr`: a `U256` is the number its four
limbs hold, and every operation takes the modulus as an argument. The operations accept words
that are not reduced, exactly as the source does; the lemmas say when the result is the field
operation.
-/

namespace WorldZk.FieldArithmetic

open ModularPower Bn254Moduli

/-- The number of values of a `U256`. -/
def WORD : ℕ := 2 ^ 256

theorem one_lt_word : 1 < WORD := by decide

/-- `U256::sub_no_mod`: subtraction with the final borrow dropped. -/
def subNoMod (a b : ℕ) : ℕ := (a + (WORD - b)) % WORD

/-- `field_add`: one conditional subtraction, also taken on a carry out of 256 bits. -/
def fieldAdd (a b m : ℕ) : ℕ :=
  if WORD ≤ a + b ∨ m ≤ (a + b) % WORD then subNoMod ((a + b) % WORD) m else (a + b) % WORD

def fieldSub (a b m : ℕ) : ℕ :=
  if b ≤ a then subNoMod a b else subNoMod m (subNoMod b a)

def fieldNeg (a m : ℕ) : ℕ :=
  if a = 0 then a else subNoMod m a

/-- `field_mul`: the 512-bit product of `mul_wide`, reduced by `reduce_512`. -/
def fieldMul (a b m : ℕ) : ℕ := a * b % m

/-- `field_pow`: square-and-multiply over all 256 exponent bits, low bit first. -/
@[irreducible]
def fieldPow (base exp m : ℕ) : ℕ := powMod m 256 1 base exp

/-- `field_inv`: the exponent is the modulus with 2 subtracted from its lowest limb. -/
def fieldInv (a m : ℕ) : ℕ := fieldPow a (m - 2) m

/-- `field_from_be_bytes` on the decoded word: a single conditional subtraction. -/
def fieldFromWord (v m : ℕ) : ℕ := if m ≤ v then subNoMod v m else v

/-- `Fr::from_fq`. -/
def frFromFq (v : ℕ) : ℕ := fieldFromWord v FR_MOD

theorem subNoMod_of_le {a b : ℕ} (ha : a < WORD) (h : b ≤ a) : subNoMod a b = a - b := by
  have hab : a + (WORD - b) = a - b + WORD := by omega
  rw [subNoMod, hab, Nat.add_mod_right, Nat.mod_eq_of_lt (by omega)]

section Reduced

variable {m a b : ℕ} (hm : m < WORD)

include hm in
/-- With one operand reduced, `field_add` subtracts the modulus exactly when the sum reaches it. -/
theorem fieldAdd_eq_ite (ha : a < m) (hb : b < WORD) :
    fieldAdd a b m = if m ≤ a + b then a + b - m else a + b := by
  unfold fieldAdd
  by_cases hcarry : WORD ≤ a + b
  · have hlow : (a + b) % WORD = a + b - WORD := by
      rw [Nat.mod_eq_sub_mod hcarry, Nat.mod_eq_of_lt (by omega)]
    have hsum : a + b - WORD + (WORD - m) = a + b - m := by omega
    rw [if_pos (Or.inl hcarry), if_pos (by omega), hlow, subNoMod, hsum,
      Nat.mod_eq_of_lt (by omega)]
  · have hlow : (a + b) % WORD = a + b := Nat.mod_eq_of_lt (by omega)
    rw [hlow]
    by_cases hle : m ≤ a + b
    · rw [if_pos (Or.inr hle), if_pos hle, subNoMod_of_le (by omega) hle]
    · rw [if_neg (by omega), if_neg hle]

include hm in
theorem fieldAdd_eq_mod (ha : a < m) (hb : b < m) : fieldAdd a b m = (a + b) % m := by
  rw [fieldAdd_eq_ite hm ha (hb.trans hm)]
  split
  · rw [Nat.mod_eq_sub_mod ‹_›, Nat.mod_eq_of_lt (by omega)]
  · rw [Nat.mod_eq_of_lt (by omega)]

include hm in
theorem fieldSub_eq_mod (ha : a < m) (hb : b < m) : fieldSub a b m = (a + (m - b)) % m := by
  unfold fieldSub
  split
  · have hab : a + (m - b) = a - b + m := by omega
    rw [subNoMod_of_le (by omega) ‹_›, hab, Nat.add_mod_right, Nat.mod_eq_of_lt (by omega)]
  · have hab : m - (b - a) = a + (m - b) := by omega
    rw [subNoMod_of_le (a := b) (by omega) (by omega), subNoMod_of_le hm (by omega), hab,
      Nat.mod_eq_of_lt (by omega)]

include hm in
theorem fieldNeg_eq_mod (ha : a < m) : fieldNeg a m = (m - a) % m := by
  unfold fieldNeg
  split
  · simp [*]
  · rw [subNoMod_of_le hm ha.le, Nat.mod_eq_of_lt (by omega)]

end Reduced

theorem fieldMul_lt {m : ℕ} (hm : 0 < m) (a b : ℕ) : fieldMul a b m < m := Nat.mod_lt _ hm

section Cast

variable {m a b : ℕ} (hm : m < WORD)

include hm in
theorem cast_fieldAdd (ha : a < m) (hb : b < m) : (fieldAdd a b m : ZMod m) = a + b := by
  rw [fieldAdd_eq_mod hm ha hb, ZMod.natCast_mod, Nat.cast_add]

include hm in
theorem fieldAdd_lt (ha : a < m) (hb : b < m) : fieldAdd a b m < m := by
  rw [fieldAdd_eq_mod hm ha hb]
  exact Nat.mod_lt _ (by omega)

include hm in
theorem cast_fieldSub (ha : a < m) (hb : b < m) : (fieldSub a b m : ZMod m) = a - b := by
  rw [fieldSub_eq_mod hm ha hb, ZMod.natCast_mod, Nat.cast_add, Nat.cast_sub hb.le,
    ZMod.natCast_self]
  ring

include hm in
theorem fieldSub_lt (ha : a < m) (hb : b < m) : fieldSub a b m < m := by
  rw [fieldSub_eq_mod hm ha hb]
  exact Nat.mod_lt _ (by omega)

theorem cast_fieldMul (a b m : ℕ) : (fieldMul a b m : ZMod m) = a * b := by
  rw [fieldMul, ZMod.natCast_mod, Nat.cast_mul]

theorem fieldInv_lt (hm1 : 1 < m) (a : ℕ) : fieldInv a m < m := by
  unfold fieldInv fieldPow
  exact powMod_lt (by omega) hm1 _ _ _

include hm in
theorem cast_fieldInv [Fact m.Prime] (hm3 : 2 < m) (a : ℕ) :
    (fieldInv a m : ZMod m) = (a : ZMod m)⁻¹ := by
  have hexp : m - 2 < 2 ^ 256 := by
    have : m < 2 ^ 256 := hm
    omega
  unfold fieldInv fieldPow
  rw [powMod_cast _ _ _ _ _ hexp, Nat.cast_one, one_mul]
  by_cases ha : (a : ZMod m) = 0
  · rw [ha, inv_zero, zero_pow (by omega)]
  · have hsplit : m - 1 = m - 2 + 1 := by omega
    have hfermat := ZMod.pow_card_sub_one_eq_one ha
    rw [hsplit, pow_succ] at hfermat
    exact eq_inv_of_mul_eq_one_left hfermat

end Cast

theorem fieldFromWord_of_lt {v m : ℕ} (h : v < m) : fieldFromWord v m = v := by
  rw [fieldFromWord, if_neg (by omega)]

theorem frFromFq_eq_mod {v : ℕ} (hv : v < FQ_MOD) : frFromFq v = v % FR_MOD := by
  have hq := FQ_MOD_lt_two_mul
  have hw : v < WORD := hv.trans FQ_MOD_lt_word
  unfold frFromFq fieldFromWord
  split
  · rw [subNoMod_of_le hw ‹_›, Nat.mod_eq_sub_mod ‹_›, Nat.mod_eq_of_lt (by omega)]
  · rw [Nat.mod_eq_of_lt (by omega)]

end WorldZk.FieldArithmetic
