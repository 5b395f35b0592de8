import WorldZk.LimbArithmetic
import WorldZk.FieldArithmetic
import Mathlib.Data.Nat.Size

/-!
# Modular multiplication on limbs

`field_mul` of `field.rs` as it is computed: the schoolbook product of `mul_wide` and the long
division of `reduce_512`, on arrays of 64-bit limbs. Every operation on machine words is the
machine's: in a build with overflow checks it stops when the exact result does not fit, in a
build without them it wraps. The product modulo either modulus comes out in both builds.
-/

namespace WorldZk.FieldMultiplication

open CheckedRuns LimbArithmetic Bn254Moduli

/-- What stops the computation: the panics of the language, and a loop cut off by its fuel. -/
inductive Fault where
  | arithmeticOverflow
  | indexOutOfBounds
  | divisionByZero
  | outOfFuel
  deriving DecidableEq, Repr

/-- An array of `n` limbs, the low one first. -/
structure LimbArray (n : ℕ) where
  limbs : List ℕ
  length_eq : limbs.length = n
  bounded : Limbs (2 ^ 64) limbs

abbrev U256 := LimbArray 4

/-- The number an array holds. -/
def LimbArray.toNat {n : ℕ} (a : LimbArray n) : ℕ := Nat.ofDigits (2 ^ 64) a.limbs

section Words

variable (overflowChecks : Bool)

/-- A sum or product of `u128` operands with the exact value `x`. -/
def u128 (x : ℕ) : Except Fault ℕ :=
  if x < 2 ^ 128 then .ok x
  else if overflowChecks then .error .arithmeticOverflow
  else .ok (x % 2 ^ 128)

/-- A difference of `u128` operands. -/
def u128Sub (x y : ℕ) : Except Fault ℕ :=
  if y ≤ x then .ok (x - y)
  else if overflowChecks then .error .arithmeticOverflow
  else .ok (x + (2 ^ 128 - y))

/-- A difference of `i128` operands with the exact value `x`. -/
def i128 (x : ℤ) : Except Fault ℤ :=
  if -2 ^ 127 ≤ x ∧ x < 2 ^ 127 then .ok x
  else if overflowChecks then .error .arithmeticOverflow
  else .ok (x.bmod (2 ^ 128))

/-- `as u64` on an `i128`. -/
def asU64 (x : ℤ) : ℕ := (x % 2 ^ 64).toNat

/-- `<<` on a `u64`: only the amount is checked, and bits that leave the word are lost. -/
def shl (x s : ℕ) : Except Fault ℕ :=
  if s < 64 ∨ overflowChecks = false then .ok (x <<< (s % 64) % 2 ^ 64)
  else .error .arithmeticOverflow

/-- `>>` on a `u64`. -/
def shr (x s : ℕ) : Except Fault ℕ :=
  if s < 64 ∨ overflowChecks = false then .ok (x >>> (s % 64))
  else .error .arithmeticOverflow

end Words

def limb (xs : List ℕ) (i : ℕ) : Except Fault ℕ := getOr .indexOutOfBounds xs i

def setLimb (xs : List ℕ) (i x : ℕ) : Except Fault (List ℕ) := setOr .indexOutOfBounds xs i x

section Product

variable (overflowChecks : Bool)

/-- The inner body of `mul_wide`. -/
def mulTurn (ai carry r b : ℕ) : Except Fault (ℕ × ℕ) := do
  let product ← u128 overflowChecks (ai * b)
  let product ← u128 overflowChecks (product + r)
  let product ← u128 overflowChecks (product + carry)
  pure (product % 2 ^ 64, (product >>> 64) % 2 ^ 64)

/-- The outer body of `mul_wide`: the row of `a[i]`, with its last carry above it. -/
def mulRow (a b result : List ℕ) (i : ℕ) : Except Fault (List ℕ) := do
  let ai ← limb a i
  let (result, carry) ← carryLoop .indexOutOfBounds (mulTurn overflowChecks ai) i b 4 result 0
  setLimb result (i + 4) carry

def mulWide (a b : List ℕ) : Except Fault (List ℕ) :=
  (List.range 4).foldlM (mulRow overflowChecks a b) (List.replicate 8 0)

end Product

section Division

variable (overflowChecks : Bool)

/-- `u64::leading_zeros`. -/
def leadingZeros (x : ℕ) : ℕ := 64 - Nat.size x

/-- `(hi << s) | (lo >> (64 - s))`. -/
def joinUp (s hi lo : ℕ) : Except Fault ℕ := do
  let high ← shl overflowChecks hi s
  let low ← shr overflowChecks lo (64 - s)
  pure (high ||| low)

/-- `(lo >> s) | (hi << (64 - s))`. -/
def joinDown (s lo hi : ℕ) : Except Fault ℕ := do
  let low ← shr overflowChecks lo s
  let high ← shl overflowChecks hi (64 - s)
  pure (low ||| high)

/-- `vn`: the modulus with its top bit moved to the top of the top limb. -/
def normalizedDivisor (modulus : List ℕ) (s : ℕ) : Except Fault (List ℕ) := do
  let m₀ ← limb modulus 0
  let m₁ ← limb modulus 1
  let m₂ ← limb modulus 2
  let m₃ ← limb modulus 3
  if 0 < s then do
    let v₀ ← shl overflowChecks m₀ s
    let v₁ ← joinUp overflowChecks s m₁ m₀
    let v₂ ← joinUp overflowChecks s m₂ m₁
    let v₃ ← joinUp overflowChecks s m₃ m₂
    pure [v₀, v₁, v₂, v₃]
  else pure [m₀, m₁, m₂, m₃]

/-- The body of the loop that fills `un` from the top. -/
def shiftTurn (val : List ℕ) (s : ℕ) (un : List ℕ) (i : ℕ) : Except Fault (List ℕ) := do
  let hi ← limb val i
  let lo ← limb val (i - 1)
  let u ← joinUp overflowChecks s hi lo
  setLimb un i u

/-- `un`: the value shifted by the same amount, with a ninth limb for the bits that leave. -/
def normalizedDividend (val : List ℕ) (s : ℕ) : Except Fault (List ℕ) :=
  if 0 < s then do
    let v₇ ← limb val 7
    let top ← shr overflowChecks v₇ (64 - s)
    let un ← setLimb (List.replicate 9 0) 8 top
    let un ← [7, 6, 5, 4, 3, 2, 1].foldlM (shiftTurn overflowChecks val s) un
    let v₀ ← limb val 0
    let low ← shl overflowChecks v₀ s
    setLimb un 0 low
  else pure (val ++ [0])

/-- The test of the loop on `q_hat` and `r_hat`. -/
def tooLarge (vNext uNext qHat rHat : ℕ) : Except Fault Bool :=
  if 2 ^ 64 ≤ qHat then pure true
  else do
    let product ← u128 overflowChecks (qHat * vNext)
    pure (decide ((rHat <<< 64 % 2 ^ 128 ||| uNext) < product))

/-- The loop on `q_hat` and `r_hat`. A turn that goes on has raised `r_hat` and left it in one
word, so the loop ends; the fuel counts the turns. -/
def correctEstimate (vTop vNext uNext : ℕ) : ℕ → ℕ → ℕ → Except Fault ℕ
  | 0, _, _ => .error .outOfFuel
  | fuel + 1, qHat, rHat => do
    let above ← tooLarge overflowChecks vNext uNext qHat rHat
    if above then do
      let qHat ← u128Sub overflowChecks qHat 1
      let rHat ← u128 overflowChecks (rHat + vTop)
      if rHat < 2 ^ 64 then correctEstimate vTop vNext uNext fuel qHat rHat else pure qHat
    else pure qHat

/-- The body of the loop that subtracts `q_hat` times the divisor, with a signed borrow. -/
def subtractTurn (qHat : ℕ) (borrow : ℤ) (u v : ℕ) : Except Fault (ℕ × ℤ) := do
  let prod ← u128 overflowChecks (qHat * v)
  let t ← i128 overflowChecks (u - borrow)
  let t ← i128 overflowChecks (t - (prod % 2 ^ 64 : ℕ))
  let borrow ← i128 overflowChecks ((prod >>> 64 : ℕ) - t >>> (64 : ℕ))
  pure (asU64 t, borrow)

/-- The body of the loop that adds the divisor back. -/
def addBackTurn (carry u v : ℕ) : Except Fault (ℕ × ℕ) := do
  let sum ← u128 overflowChecks (u + v)
  let sum ← u128 overflowChecks (sum + carry)
  pure (sum % 2 ^ 64, (sum >>> 64) % 2 ^ 64)

/-- `q_hat` of one turn, from the top two limbs of the window and of the divisor. -/
def estimate (vn un : List ℕ) (j : ℕ) : Except Fault ℕ := do
  let u₄ ← limb un (j + 4)
  let u₃ ← limb un (j + 3)
  let vTop ← limb vn 3
  require (decide (vTop ≠ 0)) .divisionByZero
  let dividendTop := u₄ <<< 64 % 2 ^ 128 ||| u₃
  let vNext ← limb vn 2
  let u₂ ← limb un (j + 2)
  correctEstimate overflowChecks vTop vNext u₂ (2 ^ 64) (dividendTop / vTop) (dividendTop % vTop)

/-- Subtract `q_hat` times the divisor from the window at `j`; a negative top limb says that the
estimate was one too large. -/
def subtractEstimate (vn : List ℕ) (qHat : ℕ) (un : List ℕ) (j : ℕ) :
    Except Fault (List ℕ) := do
  let (un, borrow) ←
    carryLoop .indexOutOfBounds (subtractTurn overflowChecks qHat) j vn 4 un 0
  let u₄ ← limb un (j + 4)
  let t ← i128 overflowChecks (u₄ - borrow)
  let un ← setLimb un (j + 4) (asU64 t)
  if t < 0 then do
    let (un, carry) ← carryLoop .indexOutOfBounds (addBackTurn overflowChecks) j vn 4 un 0
    let u₄ ← limb un (j + 4)
    -- `wrapping_add`
    setLimb un (j + 4) ((u₄ + carry) % 2 ^ 64)
  else pure un

/-- The body of the main loop of `reduce_512`. -/
def divideTurn (vn un : List ℕ) (j : ℕ) : Except Fault (List ℕ) := do
  let qHat ← estimate overflowChecks vn un j
  subtractEstimate overflowChecks vn qHat un j

/-- The remainder shifted back down. -/
def denormalized (un : List ℕ) (s : ℕ) : Except Fault (List ℕ) := do
  let u₀ ← limb un 0
  let u₁ ← limb un 1
  let u₂ ← limb un 2
  let u₃ ← limb un 3
  if 0 < s then do
    let r₀ ← joinDown overflowChecks s u₀ u₁
    let r₁ ← joinDown overflowChecks s u₁ u₂
    let r₂ ← joinDown overflowChecks s u₂ u₃
    let r₃ ← shr overflowChecks u₃ s
    pure [r₀, r₁, r₂, r₃]
  else pure [u₀, u₁, u₂, u₃]

/-- `reduce_512`. -/
def reduce512 (val modulus : List ℕ) : Except Fault (List ℕ) := do
  let m₃ ← limb modulus 3
  let s := leadingZeros m₃
  let vn ← normalizedDivisor overflowChecks modulus s
  let un ← normalizedDividend overflowChecks val s
  let un ← [4, 3, 2, 1, 0].foldlM (divideTurn overflowChecks vn) un
  denormalized overflowChecks un s

end Division

/-- `field_mul`. -/
def fieldMul (overflowChecks : Bool) (a b modulus : U256) : Except Fault (List ℕ) := do
  let product ← mulWide overflowChecks a.limbs b.limbs
  reduce512 overflowChecks product modulus.limbs

/-- The limbs of the base-field modulus. -/
def FQ_LIMBS : U256 where
  limbs := [0x3c208c16d87cfd47, 0x97816a916871ca8d, 0xb85045b68181585d, 0x30644e72e131a029]
  length_eq := rfl
  bounded := by unfold Limbs; decide

/-- The limbs of the scalar-field modulus. -/
def FR_LIMBS : U256 where
  limbs := [0x43e1f593f0000001, 0x2833e84879b97091, 0xb85045b68181585d, 0x30644e72e131a029]
  length_eq := rfl
  bounded := by unfold Limbs; decide

theorem FQ_LIMBS_toNat : FQ_LIMBS.toNat = FQ_MOD := by decide

theorem FR_LIMBS_toNat : FR_LIMBS.toNat = FR_MOD := by decide

section WordLaws

variable (overflowChecks : Bool)

theorem u128_of_lt {x : ℕ} (h : x < 2 ^ 128) : u128 overflowChecks x = .ok x := if_pos h

theorem u128Sub_of_le {x y : ℕ} (h : y ≤ x) : u128Sub overflowChecks x y = .ok (x - y) := if_pos h

theorem i128_of_mem {x : ℤ} (hlo : -2 ^ 127 ≤ x) (hhi : x < 2 ^ 127) :
    i128 overflowChecks x = .ok x := if_pos ⟨hlo, hhi⟩

theorem shl_of_lt {s : ℕ} (hs : s < 64) (x : ℕ) :
    shl overflowChecks x s = .ok (x <<< s % 2 ^ 64) := by
  rw [shl, if_pos (Or.inl hs), Nat.mod_eq_of_lt hs]

theorem shr_of_lt {s : ℕ} (hs : s < 64) (x : ℕ) : shr overflowChecks x s = .ok (x >>> s) := by
  rw [shr, if_pos (Or.inl hs), Nat.mod_eq_of_lt hs]

theorem asU64_lt (x : ℤ) : asU64 x < 2 ^ 64 := by
  unfold asU64
  omega

theorem asU64_add (x : ℤ) : (asU64 x : ℤ) + 2 ^ 64 * (x >>> (64 : ℕ)) = x := by
  rw [asU64, Int.shiftRight_eq_div_pow]
  omega

theorem limb_of_lt {xs : List ℕ} {i : ℕ} (hi : i < xs.length) : limb xs i = .ok xs[i] :=
  getOr_of_lt hi

theorem limb_append {lo hi : List ℕ} {x i : ℕ} (hi' : i = lo.length) :
    limb (lo ++ x :: hi) i = .ok x := getOr_append hi'

theorem setLimb_append {lo hi : List ℕ} {x y i : ℕ} (hi' : i = lo.length) :
    setLimb (lo ++ x :: hi) i y = .ok (lo ++ y :: hi) := setOr_append hi'

end WordLaws

section ProductLaws

variable (overflowChecks : Bool)

theorem mulTurn_exact {ai : ℕ} (hai : ai < 2 ^ 64) :
    CarryStep (2 ^ 64) (mulTurn overflowChecks ai) ai (fun c => (c : ℤ)) (· < 2 ^ 64) where
  exact_step := by
    intro c u v hc hu hv
    have hmul : ai * v ≤ (2 ^ 64 - 1) * (2 ^ 64 - 1) := Nat.mul_le_mul (by omega) (by omega)
    have hsum : ai * v + u + c < 2 ^ 128 := by omega
    have hcarry : (ai * v + u + c) >>> 64 < 2 ^ 64 := by
      rw [Nat.shiftRight_eq_div_pow]
      omega
    refine ⟨(ai * v + u + c) % 2 ^ 64, (ai * v + u + c) >>> 64, ?_, Nat.mod_lt _ (by decide),
      hcarry, ?_⟩
    · rw [mulTurn, u128_of_lt _ (by omega), ok_bind, u128_of_lt _ (by omega), ok_bind,
        u128_of_lt _ hsum, ok_bind, Nat.mod_eq_of_lt hcarry]
      rfl
    · have hsplit := Nat.mod_add_div (ai * v + u + c) (2 ^ 64)
      rw [Nat.shiftRight_eq_div_pow]
      exact_mod_cast (by omega : u + ai * v + c = _)

/-- One row adds `a[i] * b` at limb `i`; the limbs above are still zero. -/
theorem mulRow_ok {a b ds : List ℕ} {i k : ℕ} (ha : Limbs (2 ^ 64) a) (hb : Limbs (2 ^ 64) b)
    (hi : i < a.length) (hblen : b.length = 4) (hds : Limbs (2 ^ 64) ds)
    (hlen : ds.length = i + 4) :
    ∃ ds', mulRow overflowChecks a b (ds ++ List.replicate (k + 1) 0) i =
        .ok (ds' ++ List.replicate k 0) ∧ Limbs (2 ^ 64) ds' ∧ ds'.length = i + 1 + 4 ∧
      Nat.ofDigits (2 ^ 64) ds' =
        Nat.ofDigits (2 ^ 64) ds + (2 ^ 64) ^ i * (a[i] * Nat.ofDigits (2 ^ 64) b) := by
  obtain ⟨hlo, hmid⟩ := Limbs.append_iff.mp ((List.take_append_drop i ds).symm ▸ hds)
  have hmidlen : (ds.drop i).length = 4 := by simp [hlen]
  have hlolen : i = (ds.take i).length := by simp [hlen]
  obtain ⟨row, carry, hrun, hrowlen, hrow, hcarry, hval⟩ :=
    (mulTurn_exact overflowChecks (ha.getElem hi)).carryLoop .indexOutOfBounds
      (List.replicate (k + 1) 0) hlolen hblen.ge hb hmidlen hmid (by decide : 0 < 2 ^ 64)
  refine ⟨ds.take i ++ row ++ [carry], ?_, ?_, ?_, ?_⟩
  · have hat : i + 4 = (ds.take i ++ row).length := by simp [hrowlen, hlen]
    rw [List.take_append_drop] at hrun
    rw [mulRow, limb_of_lt hi, ok_bind, hrun, ok_bind, List.replicate_succ]
    simpa only [List.append_assoc, List.singleton_append] using setLimb_append hat
  · exact Limbs.append_iff.mpr ⟨Limbs.append_iff.mpr ⟨hlo, hrow⟩, Limbs.singleton hcarry⟩
  · simp [hrowlen, hlen]
  · have hsplit := @Nat.ofDigits_append (2 ^ 64) (ds.take i) (ds.drop i)
    rw [List.take_append_drop, ← hlolen] at hsplit
    have hval' : Nat.ofDigits (2 ^ 64) (ds.drop i) + a[i] * Nat.ofDigits (2 ^ 64) b =
        Nat.ofDigits (2 ^ 64) row + (2 ^ 64) ^ 4 * carry := by
      rw [← hblen, List.take_length, hblen] at hval
      exact_mod_cast hval
    rw [Nat.ofDigits_append, Nat.ofDigits_append, Nat.ofDigits_singleton, List.length_append,
      ← hlolen, hrowlen, hsplit, pow_add]
    linear_combination (2 ^ 64) ^ i * hval'.symm

/-- After `n` rows the array holds the product with the low `n` limbs of `a`. -/
theorem mulRows_ok {a b : List ℕ} (ha : Limbs (2 ^ 64) a) (hb : Limbs (2 ^ 64) b)
    (halen : a.length = 4) (hblen : b.length = 4) {n k : ℕ} (hn : n + k = 4) :
    ∃ ds, (List.range n).foldlM (mulRow overflowChecks a b) (List.replicate 8 0) =
        .ok (ds ++ List.replicate k 0) ∧ Limbs (2 ^ 64) ds ∧ ds.length = n + 4 ∧
      Nat.ofDigits (2 ^ 64) ds = Nat.ofDigits (2 ^ 64) (a.take n) * Nat.ofDigits (2 ^ 64) b := by
  induction n generalizing k with
  | zero =>
    obtain rfl : k = 4 := by omega
    exact ⟨List.replicate 4 0, rfl, fun x hx => List.eq_of_mem_replicate hx ▸ (by decide), rfl,
      by rw [Nat.ofDigits_replicate_zero, List.take_zero, Nat.ofDigits_nil, Nat.zero_mul]⟩
  | succ n ih =>
    obtain ⟨ds, hrun, hds, hlen, hval⟩ := @ih (k + 1) (by omega)
    have hi : n < a.length := by omega
    obtain ⟨ds', hrow, hds', hlen', hval'⟩ :=
      @mulRow_ok overflowChecks a b ds n k ha hb hi hblen hds hlen
    refine ⟨ds', ?_, hds', hlen', ?_⟩
    · rw [List.range_succ, foldlM_append, hrun, ok_bind, List.foldlM_cons, hrow]
      rfl
    · rw [hval', hval, List.take_add_one, List.getElem?_eq_getElem hi, Option.toList_some,
        Nat.ofDigits_append, Nat.ofDigits_singleton, List.length_take_of_le hi.le]
      ring

theorem mulWide_ok (a b : U256) :
    ∃ product : LimbArray 8, mulWide overflowChecks a.limbs b.limbs = .ok product.limbs ∧
      product.toNat = a.toNat * b.toNat := by
  obtain ⟨ds, hrun, hds, hlen, hval⟩ :=
    @mulRows_ok overflowChecks _ _ a.bounded b.bounded a.length_eq b.length_eq 4 0 rfl
  have htake : a.limbs.take 4 = a.limbs := List.take_of_length_le a.length_eq.le
  rw [List.replicate_zero, List.append_nil] at hrun
  rw [htake] at hval
  exact ⟨⟨ds, hlen, hds⟩, hrun, hval⟩

end ProductLaws

end WorldZk.FieldMultiplication
