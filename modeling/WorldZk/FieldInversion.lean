import WorldZk.FieldReduction

/-!
# Inversion and reduction on limbs

The comparison, addition and subtraction of `U256`, and the field operations of `field.rs` that
rest on them: `field_pow` squares once for each of 256 exponent bits and multiplies where the bit
is set, `field_inv` raises to the modulus less two, `from_fq` subtracts the scalar-field modulus
once. Each does on limbs what its counterpart does on numbers, in a build with overflow checks and
in one without.
-/

namespace WorldZk.FieldInversion

open CheckedRuns LimbArithmetic ModularPower Bn254Moduli FieldMultiplication FieldReduction

section Words

/-- `U256::gte`, over the limbs at the indices given: the first that differ decide. -/
def gteLoop (a b : List ℕ) : List ℕ → Except Fault Bool
  | [] => pure true
  | i :: is => do
    let x ← limb a i
    let y ← limb b i
    if y < x then pure true else if x < y then pure false else gteLoop a b is

def gte (a b : List ℕ) : Except Fault Bool := gteLoop a b [3, 2, 1, 0]

/-- `u64::overflowing_sub`. -/
def overflowingSub (x y : ℕ) : ℕ × Bool := ((x + (2 ^ 64 - y)) % 2 ^ 64, decide (x < y))

/-- One turn of a loop that fills a result from the limbs of two words, with a carry. -/
def limbTurn (step : ℕ → ℕ → ℕ → Except Fault (ℕ × ℕ)) (a b : List ℕ) (acc : List ℕ × ℕ)
    (i : ℕ) : Except Fault (List ℕ × ℕ) := do
  let x ← limb a i
  let y ← limb b i
  let (digit, carry) ← step acc.2 x y
  let result ← setLimb acc.1 i digit
  pure (result, carry)

/-- The loop, low limb first. -/
def limbLoop (step : ℕ → ℕ → ℕ → Except Fault (ℕ × ℕ)) (a b : List ℕ) :
    Except Fault (List ℕ × ℕ) :=
  (List.range 4).foldlM (limbTurn step a b) ([0, 0, 0, 0], 0)

variable (overflowChecks : Bool)

/-- A sum of `u64` operands with the exact value `x`. -/
def u64 (x : ℕ) : Except Fault ℕ :=
  if x < 2 ^ 64 then .ok x
  else if overflowChecks then .error .arithmeticOverflow
  else .ok (x % 2 ^ 64)

/-- The body of `sub_no_mod`: the two borrows are added. -/
def subTurn (borrow x y : ℕ) : Except Fault (ℕ × ℕ) := do
  let (diff, b1) := overflowingSub x y
  let (diff2, b2) := overflowingSub diff borrow
  let borrow ← u64 overflowChecks (b1.toNat + b2.toNat)
  pure (diff2, borrow)

def subNoMod (a b : List ℕ) : Except Fault (List ℕ) := do
  let (result, _) ← limbLoop (subTurn overflowChecks) a b
  pure result

/-- `add_no_mod`. The body of its loop is that of the addition in `reduce_512`. -/
def addNoMod (a b : List ℕ) : Except Fault (List ℕ × Bool) := do
  let (result, carry) ← limbLoop (addBackTurn overflowChecks) a b
  pure (result, decide (carry ≠ 0))

end Words

section Operations

variable (overflowChecks : Bool)

def fieldAdd (a b modulus : List ℕ) : Except Fault (List ℕ) := do
  let (sum, carry) ← addNoMod overflowChecks a b
  -- `||` looks at the limbs only when there is no carry
  let above ← if carry then pure true else gte sum modulus
  if above then subNoMod overflowChecks sum modulus else pure sum

def fieldSub (a b modulus : List ℕ) : Except Fault (List ℕ) := do
  let above ← gte a b
  if above then subNoMod overflowChecks a b
  else do
    let diff ← subNoMod overflowChecks b a
    subNoMod overflowChecks modulus diff

/-- `field_mul` on the limbs alone. -/
def mulLimbs (a b modulus : List ℕ) : Except Fault (List ℕ) := do
  let product ← mulWide overflowChecks a b
  reduce512 overflowChecks product modulus

/-- The inner loop of `field_pow`, with the turns that are left: the running result, the base
squared so far and the bits of the exponent's limb not yet used. -/
def powBits (modulus : List ℕ) : ℕ → List ℕ → List ℕ → ℕ → Except Fault (List ℕ × List ℕ)
  | 0, result, b, _ => pure (result, b)
  | turns + 1, result, b, e => do
    let result ← if e &&& 1 = 1 then mulLimbs overflowChecks result b modulus else pure result
    let b ← mulLimbs overflowChecks b b modulus
    let e ← shr overflowChecks e 1
    powBits modulus turns result b e

/-- The outer body of `field_pow`. -/
def powLimb (exp modulus : List ℕ) (acc : List ℕ × List ℕ) (i : ℕ) :
    Except Fault (List ℕ × List ℕ) := do
  let e ← limb exp i
  powBits overflowChecks modulus 64 acc.1 acc.2 e

def fieldPow (base exp modulus : List ℕ) : Except Fault (List ℕ) := do
  let (result, _) ←
    (List.range 4).foldlM (powLimb overflowChecks exp modulus) ([1, 0, 0, 0], base)
  pure result

/-- `field_inv`: two are taken from the lowest limb, which may wrap. -/
def fieldInv (a modulus : List ℕ) : Except Fault (List ℕ) := do
  let low ← limb modulus 0
  let exp ← setLimb modulus 0 ((low + (2 ^ 64 - 2)) % 2 ^ 64)
  fieldPow overflowChecks a exp modulus

/-- `Fr::from_fq`. -/
def fromFq (fq : List ℕ) : Except Fault (List ℕ) := do
  let above ← gte fq FR_LIMBS.limbs
  if above then subNoMod overflowChecks fq FR_LIMBS.limbs else pure fq

end Operations

/-- The limbs of 1. -/
def ONE : U256 where
  limbs := [1, 0, 0, 0]
  length_eq := rfl
  bounded := by unfold Limbs; decide

/-- The limbs of 2. -/
def TWO : U256 where
  limbs := [2, 0, 0, 0]
  length_eq := rfl
  bounded := by unfold Limbs; decide

/-- The limbs of the largest base-field element. -/
def FQ_MAX : U256 where
  limbs := [0x3c208c16d87cfd46, 0x97816a916871ca8d, 0xb85045b68181585d, 0x30644e72e131a029]
  length_eq := rfl
  bounded := by unfold Limbs; decide

theorem ONE_toNat : ONE.toNat = 1 := by decide

theorem ofDigits_four (x₀ x₁ x₂ x₃ : ℕ) :
    Nat.ofDigits (2 ^ 64) [x₀, x₁, x₂, x₃] =
      x₀ + 2 ^ 64 * (x₁ + 2 ^ 64 * (x₂ + 2 ^ 64 * x₃)) := by
  simp [Nat.ofDigits_cons]

theorem toNat_lt (a : U256) : a.toNat < FieldArithmetic.WORD := by
  have hlt := a.bounded.ofDigits_lt (by decide)
  rw [a.length_eq] at hlt
  exact hlt

@[simp] theorem limb_cons_zero (x : ℕ) (xs : List ℕ) : limb (x :: xs) 0 = .ok x := rfl

@[simp] theorem limb_cons_succ (x : ℕ) (xs : List ℕ) (i : ℕ) :
    limb (x :: xs) (i + 1) = limb xs i := rfl

theorem limbs_eq_of_toNat_eq {a b : U256} (h : a.toNat = b.toNat) : a.limbs = b.limbs :=
  Nat.ofDigits_inj_of_len_eq (by decide : 1 < 2 ^ 64) (a.length_eq.trans b.length_eq.symm)
    a.bounded b.bounded h

section WordLaws

/-- A limb above `low` decides, and where it does not the limbs below do. -/
theorem gteLoop_cons {a b is : List ℕ} {i x y low low' W : ℕ} (hx : limb a i = .ok x)
    (hy : limb b i = .ok y) (hlow : low < W) (hlow' : low' < W)
    (hrest : gteLoop a b is = .ok (decide (low' ≤ low))) :
    gteLoop a b (i :: is) = .ok (decide (low' + W * y ≤ low + W * x)) := by
  rw [gteLoop, hx, ok_bind, hy, ok_bind]
  rcases lt_trichotomy x y with hlt | rfl | hlt
  · have hmul : W * (x + 1) ≤ W * y := Nat.mul_le_mul_left W hlt
    rw [mul_add, mul_one] at hmul
    rw [if_neg (by omega), if_pos hlt, decide_eq_false (by omega)]
    rfl
  · rw [if_neg (lt_irrefl x), if_neg (lt_irrefl x), hrest]
    simp only [add_le_add_iff_right]
  · have hmul : W * (y + 1) ≤ W * x := Nat.mul_le_mul_left W hlt
    rw [mul_add, mul_one] at hmul
    rw [if_pos hlt, decide_eq_true (by omega)]
    rfl

theorem gte_ok (a b : U256) : gte a.limbs b.limbs = .ok (decide (b.toNat ≤ a.toNat)) := by
  obtain ⟨as, halen, ha⟩ := a
  obtain ⟨bs, hblen, hb⟩ := b
  obtain ⟨a₀, a₁, a₂, a₃, rfl⟩ := List.length_eq_four.mp halen
  obtain ⟨b₀, b₁, b₂, b₃, rfl⟩ := List.length_eq_four.mp hblen
  simp only [Limbs.cons_iff, Limbs.nil, and_true] at ha hb
  obtain ⟨ha₀, ha₁, ha₂, -⟩ := ha
  obtain ⟨hb₀, hb₁, hb₂, -⟩ := hb
  have hnone : gteLoop [a₀, a₁, a₂, a₃] [b₀, b₁, b₂, b₃] [] = .ok (decide (0 ≤ 0)) := rfl
  have hlow := @gteLoop_cons _ _ _ 0 a₀ b₀ 0 0 1 rfl rfl (by omega) (by omega) hnone
  have hsecond := @gteLoop_cons _ _ _ 1 a₁ b₁ _ _ (2 ^ 64) rfl rfl (by omega) (by omega) hlow
  have hthird := @gteLoop_cons _ _ _ 2 a₂ b₂ _ _ (2 ^ 128) rfl rfl (by omega) (by omega) hsecond
  have htop := @gteLoop_cons _ _ _ 3 a₃ b₃ _ _ (2 ^ 192) rfl rfl (by omega) (by omega) hthird
  rw [gte, htop]
  simp only [LimbArray.toNat, ofDigits_four]
  congr 2
  exact propext (by omega)

theorem limbTurn_ok {step : ℕ → ℕ → ℕ → Except Fault (ℕ × ℕ)} {a b : List ℕ}
    {x y carry d carry' i : ℕ} {result : List ℕ} (hx : limb a i = .ok x) (hy : limb b i = .ok y)
    (hstep : step carry x y = .ok (d, carry')) (hi : i < result.length) :
    limbTurn step a b (result, carry) i = .ok (result.set i d, carry') := by
  simp only [limbTurn, hx, hy, hstep, ok_bind, setLimb, setOr, decide_eq_true hi, require_true]
  rfl

/-- A loop whose turns are exact is exact: the result and the last carry hold the value. -/
theorem limbLoop_ok {step : ℕ → ℕ → ℕ → Except Fault (ℕ × ℕ)} {k : ℤ} {weight : ℕ → ℤ}
    {Inv : ℕ → Prop} (hstep : CarryStep (2 ^ 64) step k weight Inv) (hzero : Inv 0) (a b : U256) :
    ∃ (r : U256) (carry : ℕ), limbLoop step a.limbs b.limbs = .ok (r.limbs, carry) ∧ Inv carry ∧
      (a.toNat : ℤ) + k * b.toNat + weight 0 = r.toNat + 2 ^ 256 * weight carry := by
  obtain ⟨as, halen, ha⟩ := a
  obtain ⟨bs, hblen, hb⟩ := b
  obtain ⟨a₀, a₁, a₂, a₃, rfl⟩ := List.length_eq_four.mp halen
  obtain ⟨b₀, b₁, b₂, b₃, rfl⟩ := List.length_eq_four.mp hblen
  simp only [Limbs.cons_iff, Limbs.nil, and_true] at ha hb
  obtain ⟨ha₀, ha₁, ha₂, ha₃⟩ := ha
  obtain ⟨hb₀, hb₁, hb₂, hb₃⟩ := hb
  obtain ⟨d₀, c₁, hrun₀, hd₀, hc₁, hval₀⟩ := hstep.exact_step hzero ha₀ hb₀
  obtain ⟨d₁, c₂, hrun₁, hd₁, hc₂, hval₁⟩ := hstep.exact_step hc₁ ha₁ hb₁
  obtain ⟨d₂, c₃, hrun₂, hd₂, hc₃, hval₂⟩ := hstep.exact_step hc₂ ha₂ hb₂
  obtain ⟨d₃, c₄, hrun₃, hd₃, hc₄, hval₃⟩ := hstep.exact_step hc₃ ha₃ hb₃
  have hdigits : Limbs (2 ^ 64) [d₀, d₁, d₂, d₃] := by
    simp only [Limbs.cons_iff, Limbs.nil, and_true]
    exact ⟨hd₀, hd₁, hd₂, hd₃⟩
  refine ⟨⟨[d₀, d₁, d₂, d₃], rfl, hdigits⟩, c₄, ?_, hc₄, ?_⟩
  · have hindices : List.range 4 = [0, 1, 2, 3] := rfl
    simp only [limbLoop, hindices, List.foldlM_cons, List.foldlM_nil]
    rw [limbTurn_ok rfl rfl hrun₀ (by simp), ok_bind, limbTurn_ok rfl rfl hrun₁ (by simp), ok_bind,
      limbTurn_ok rfl rfl hrun₂ (by simp), ok_bind, limbTurn_ok rfl rfl hrun₃ (by simp), ok_bind]
    rfl
  · simp only [LimbArray.toNat, ofDigits_four]
    push_cast
    linear_combination hval₀ + 2 ^ 64 * hval₁ + 2 ^ 128 * hval₂ + 2 ^ 192 * hval₃

variable (overflowChecks : Bool)

theorem overflowingSub_fst_lt (x y : ℕ) : (overflowingSub x y).1 < 2 ^ 64 :=
  Nat.mod_lt _ (by decide)

theorem overflowingSub_fst_add {x y : ℕ} (hx : x < 2 ^ 64) (hy : y < 2 ^ 64) :
    (overflowingSub x y).1 + y = x + 2 ^ 64 * (overflowingSub x y).2.toNat := by
  unfold overflowingSub
  by_cases hxy : x < y
  · rw [decide_eq_true hxy, Bool.toNat_true]
    omega
  · rw [decide_eq_false hxy, Bool.toNat_false]
    omega

/-- The two borrows are never both taken, so the borrow is a bit. -/
theorem subTurn_exact : CarryStep (2 ^ 64) (subTurn overflowChecks) (-1) (fun c => -(c : ℤ))
    (· ≤ 1) where
  exact_step := by
    intro c x y hc hx hy
    have hdiff := overflowingSub_fst_add hx hy
    have hlt := overflowingSub_fst_lt x y
    have hdiff2 := overflowingSub_fst_add hlt (by omega : c < 2 ^ 64)
    have hlt2 := overflowingSub_fst_lt (overflowingSub x y).1 c
    refine ⟨(overflowingSub (overflowingSub x y).1 c).1, (overflowingSub x y).2.toNat +
      (overflowingSub (overflowingSub x y).1 c).2.toNat, ?_, hlt2, by omega, by push_cast; omega⟩
    simp only [subTurn, u64]
    rw [if_pos (by omega), ok_bind]
    rfl

/-- `sub_no_mod` drops the last borrow. -/
theorem subNoMod_ok (a b : U256) :
    ∃ r : U256, subNoMod overflowChecks a.limbs b.limbs = .ok r.limbs ∧
      r.toNat = FieldArithmetic.subNoMod a.toNat b.toNat := by
  obtain ⟨r, borrow, hrun, hborrow, hval⟩ :=
    limbLoop_ok (subTurn_exact overflowChecks) (Nat.zero_le 1) a b
  have ha := toNat_lt a
  have hb := toNat_lt b
  have hr := toNat_lt r
  refine ⟨r, ?_, ?_⟩
  · rw [subNoMod, hrun]
    rfl
  · unfold FieldArithmetic.subNoMod
    unfold FieldArithmetic.WORD at ha hb hr ⊢
    omega

/-- `add_no_mod`: the flag is the carry out of the top limb. -/
theorem addNoMod_ok (a b : U256) :
    ∃ r : U256, addNoMod overflowChecks a.limbs b.limbs =
        .ok (r.limbs, decide (FieldArithmetic.WORD ≤ a.toNat + b.toNat)) ∧
      r.toNat = (a.toNat + b.toNat) % FieldArithmetic.WORD := by
  obtain ⟨r, carry, hrun, -, hval⟩ :=
    limbLoop_ok (addBackTurn_exact overflowChecks) (by decide : 0 < 2 ^ 64) a b
  have hr := toNat_lt r
  have hsum : a.toNat + b.toNat = r.toNat + FieldArithmetic.WORD * carry := by
    rw [FieldArithmetic.WORD]
    omega
  have hcarry : carry ≠ 0 ↔ FieldArithmetic.WORD ≤ a.toNat + b.toNat := by
    rw [FieldArithmetic.WORD] at hr hsum ⊢
    omega
  refine ⟨r, ?_, ?_⟩
  · rw [addNoMod, hrun, ok_bind]
    simp only [hcarry]
    rfl
  · rw [hsum, Nat.add_mul_mod_self_left, Nat.mod_eq_of_lt hr]

end WordLaws

section OperationLaws

variable (overflowChecks : Bool)

/-- The subtraction of the modulus where a word reaches it. -/
theorem conditionalSub_ok (v modulus : U256) :
    ∃ r : U256, (do
        let above ← gte v.limbs modulus.limbs
        if above then subNoMod overflowChecks v.limbs modulus.limbs else pure v.limbs) =
          .ok r.limbs ∧
      r.toNat = FieldArithmetic.fieldFromWord v.toNat modulus.toNat := by
  rw [gte_ok, ok_bind, FieldArithmetic.fieldFromWord]
  by_cases h : modulus.toNat ≤ v.toNat
  · rw [decide_eq_true h, if_pos rfl, if_pos h]
    exact subNoMod_ok overflowChecks v modulus
  · rw [decide_eq_false h, if_neg h]
    exact ⟨v, rfl, rfl⟩

theorem fieldAdd_ok (a b modulus : U256) :
    ∃ r : U256, fieldAdd overflowChecks a.limbs b.limbs modulus.limbs = .ok r.limbs ∧
      r.toNat = FieldArithmetic.fieldAdd a.toNat b.toNat modulus.toNat := by
  obtain ⟨sum, hsum, hval⟩ := addNoMod_ok overflowChecks a b
  rw [fieldAdd, hsum, ok_bind, FieldArithmetic.fieldAdd, ← hval]
  by_cases hcarry : FieldArithmetic.WORD ≤ a.toNat + b.toNat
  · simp only [decide_eq_true hcarry, if_pos, if_pos (Or.inl hcarry), pure_bind]
    exact subNoMod_ok overflowChecks sum modulus
  · simp only [hcarry, false_or]
    exact conditionalSub_ok overflowChecks sum modulus

theorem fieldSub_ok (a b modulus : U256) :
    ∃ r : U256, fieldSub overflowChecks a.limbs b.limbs modulus.limbs = .ok r.limbs ∧
      r.toNat = FieldArithmetic.fieldSub a.toNat b.toNat modulus.toNat := by
  rw [fieldSub, gte_ok, ok_bind, FieldArithmetic.fieldSub]
  by_cases h : b.toNat ≤ a.toNat
  · rw [decide_eq_true h, if_pos rfl, if_pos h]
    exact subNoMod_ok overflowChecks a b
  · obtain ⟨diff, hdiff, hval⟩ := subNoMod_ok overflowChecks b a
    rw [decide_eq_false h, if_neg Bool.false_ne_true, if_neg h, hdiff, ok_bind, ← hval]
    exact subNoMod_ok overflowChecks modulus diff

/-- `from_fq` is one conditional subtraction. -/
theorem fromFq_ok (fq : U256) :
    ∃ r : U256, fromFq overflowChecks fq.limbs = .ok r.limbs ∧
      r.toNat = FieldArithmetic.frFromFq fq.toNat := by
  rw [FieldArithmetic.frFromFq, ← FR_LIMBS_toNat]
  exact conditionalSub_ok overflowChecks fq FR_LIMBS

section Powers

variable {modulus : U256} (htop : 2 ^ 192 ≤ modulus.toNat)

include htop

theorem mulLimbs_ok (a b : U256) :
    ∃ r : U256, mulLimbs overflowChecks a.limbs b.limbs modulus.limbs = .ok r.limbs ∧
      r.toNat = a.toNat * b.toNat % modulus.toNat :=
  fieldMul_ok overflowChecks a b modulus htop

/-- The turns over a limb's bits are those of square-and-multiply. -/
theorem powBits_ok (result b : U256) (turns e : ℕ) :
    ∃ r b' : U256, powBits overflowChecks modulus.limbs turns result.limbs b.limbs e =
        .ok (r.limbs, b'.limbs) ∧
      r.toNat = powMod modulus.toNat turns result.toNat b.toNat e ∧
      b'.toNat = squareMod modulus.toNat turns b.toNat := by
  induction turns generalizing result b e with
  | zero => exact ⟨result, b, rfl, rfl, rfl⟩
  | succ turns ih =>
    obtain ⟨product, hproduct, hproductval⟩ := mulLimbs_ok overflowChecks htop result b
    obtain ⟨square, hsquare, hsquareval⟩ := mulLimbs_ok overflowChecks htop b b
    have hshift : shr overflowChecks e 1 = .ok (e / 2) := shr_of_lt overflowChecks (by decide) e
    rw [powBits, Nat.and_one_is_mod, powMod, squareMod, ← hsquareval, ← hproductval]
    by_cases hbit : e % 2 = 1
    · simp only [if_pos hbit, hproduct, hsquare, ok_bind, hshift]
      exact ih product square (e / 2)
    · simp only [if_neg hbit, pure_bind, hsquare, ok_bind, hshift]
      exact ih result square (e / 2)

/-- The limbs of the exponent one after another: each takes up where the last one left off. -/
theorem powDigits_ok (result b : U256) {es : List ℕ} (hes : Limbs (2 ^ 64) es) :
    ∃ r b' : U256, es.foldlM (fun acc e => powBits overflowChecks modulus.limbs 64 acc.1 acc.2 e)
        (result.limbs, b.limbs) = .ok (r.limbs, b'.limbs) ∧
      r.toNat = powMod modulus.toNat (64 * es.length) result.toNat b.toNat
        (Nat.ofDigits (2 ^ 64) es) := by
  induction es generalizing result b with
  | nil => exact ⟨result, b, rfl, rfl⟩
  | cons e es ih =>
    obtain ⟨he, hes⟩ := Limbs.cons_iff.mp hes
    obtain ⟨r, b', hrun, hr, hb'⟩ := powBits_ok overflowChecks htop result b 64 e
    obtain ⟨r', b'', hrun', hr'⟩ := ih r b' hes
    refine ⟨r', b'', ?_, ?_⟩
    · rw [List.foldlM_cons, hrun, ok_bind, hrun']
    · rw [hr', hr, hb', List.length_cons, mul_add, mul_one, Nat.add_comm _ 64, Nat.ofDigits_cons]
      exact (powMod_digits _ 64 _ _ _ e he).symm

omit htop in
theorem powMod_eq_fieldPow (m b e : ℕ) {bits : ℕ} (hbits : bits = 256) :
    powMod m bits 1 b e = FieldArithmetic.fieldPow b e m := by
  rw [hbits]
  unfold FieldArithmetic.fieldPow
  exact Eq.refl _

/-- `field_pow` is square-and-multiply over the 256 bits of the exponent. -/
theorem fieldPow_ok (base exp : U256) :
    ∃ r : U256, fieldPow overflowChecks base.limbs exp.limbs modulus.limbs = .ok r.limbs ∧
      r.toNat = FieldArithmetic.fieldPow base.toNat exp.toNat modulus.toNat := by
  obtain ⟨e₀, e₁, e₂, e₃, hexp⟩ := List.length_eq_four.mp exp.length_eq
  obtain ⟨r, b, hrun, hr⟩ := powDigits_ok overflowChecks htop ONE base exp.bounded
  have hindices : List.range 4 = [0, 1, 2, 3] := rfl
  refine ⟨r, ?_, ?_⟩
  · have hone : ONE.limbs = [1, 0, 0, 0] := rfl
    rw [hexp, hone] at hrun
    simp only [List.foldlM_cons, List.foldlM_nil] at hrun
    simp only [fieldPow, hindices, hexp, List.foldlM_cons, List.foldlM_nil, powLimb,
      limb_cons_succ, limb_cons_zero, ok_bind, hrun]
    rfl
  · rw [exp.length_eq, ONE_toNat] at hr
    exact hr.trans (powMod_eq_fieldPow _ _ _ rfl)

/-- `field_inv`: the lowest limb has the two to take. -/
theorem fieldInv_ok (hlow : 2 ≤ modulus.toNat % 2 ^ 64) (a : U256) :
    ∃ r : U256, fieldInv overflowChecks a.limbs modulus.limbs = .ok r.limbs ∧
      r.toNat = FieldArithmetic.fieldInv a.toNat modulus.toNat := by
  obtain ⟨ms, hlen, hms⟩ := modulus
  obtain ⟨m₀, m₁, m₂, m₃, rfl⟩ := List.length_eq_four.mp hlen
  have hlimbs := hms
  simp only [Limbs.cons_iff, Limbs.nil, and_true] at hlimbs
  obtain ⟨hm₀, hm₁, hm₂, hm₃⟩ := hlimbs
  have hlow' : 2 ≤ m₀ := by
    simp only [LimbArray.toNat, ofDigits_four] at hlow
    omega
  have hexp : Limbs (2 ^ 64) [m₀ - 2, m₁, m₂, m₃] := by
    simp only [Limbs.cons_iff, Limbs.nil, and_true]
    exact ⟨by omega, hm₁, hm₂, hm₃⟩
  obtain ⟨r, hrun, hr⟩ := fieldPow_ok overflowChecks htop a ⟨[m₀ - 2, m₁, m₂, m₃], rfl, hexp⟩
  have hwrap : (m₀ + (2 ^ 64 - 2)) % 2 ^ 64 = m₀ - 2 := by omega
  refine ⟨r, ?_, ?_⟩
  · rw [fieldInv, limb_cons_zero, ok_bind, hwrap]
    exact hrun
  · rw [hr, FieldArithmetic.fieldInv]
    have hsub : Nat.ofDigits (2 ^ 64) [m₀ - 2, m₁, m₂, m₃] =
        Nat.ofDigits (2 ^ 64) [m₀, m₁, m₂, m₃] - 2 := by
      rw [ofDigits_four, ofDigits_four]
      omega
    simp only [LimbArray.toNat, hsub]

end Powers

/-- In a prime field `field_inv` is the power by the modulus less two, and the inverse. -/
theorem fieldInv_inverse {modulus : U256} [Fact modulus.toNat.Prime]
    (htop : 2 ^ 192 ≤ modulus.toNat) (hlow : 2 ≤ modulus.toNat % 2 ^ 64) {a : U256}
    (hpos : 0 < a.toNat) (hlt : a.toNat < modulus.toNat) :
    ∃ inv : U256, fieldInv overflowChecks a.limbs modulus.limbs = .ok inv.limbs ∧
      inv.toNat = powMod modulus.toNat 256 1 a.toNat (modulus.toNat - 2) ∧
      inv.toNat = a.toNat ^ (modulus.toNat - 2) % modulus.toNat ∧
      FieldMultiplication.fieldMul overflowChecks a inv modulus = .ok ONE.limbs := by
  obtain ⟨inv, hrun, hval⟩ := fieldInv_ok overflowChecks htop hlow a
  have hword : modulus.toNat < 2 ^ 256 := toNat_lt modulus
  have hone : 1 < modulus.toNat := by omega
  have hpow : inv.toNat = powMod modulus.toNat 256 1 a.toNat (modulus.toNat - 2) := by
    rw [hval, FieldArithmetic.fieldInv, powMod_eq_fieldPow _ _ _ rfl]
  refine ⟨inv, hrun, hpow, ?_, ?_⟩
  · have hmod := powMod_modEq modulus.toNat 256 1 a.toNat (modulus.toNat - 2)
    rw [one_mul, Nat.mod_eq_of_lt (by omega : modulus.toNat - 2 < 2 ^ 256), ← hpow] at hmod
    have hinv : inv.toNat < modulus.toNat := by
      rw [hpow]
      exact powMod_lt (by omega) hone _ _ _
    rw [← Nat.mod_eq_of_lt hinv]
    exact hmod
  · obtain ⟨product, hproduct, hproductval⟩ := fieldMul_ok overflowChecks a inv modulus htop
    have hne : (a.toNat : ZMod modulus.toNat) ≠ 0 := by
      intro hzero
      exact absurd (Nat.le_of_dvd hpos ((ZMod.natCast_eq_zero_iff _ _).mp hzero)) (by omega)
    -- Fermat's theorem enters here, through the inverse of the field
    have hcast : (product.toNat : ZMod modulus.toNat) = (1 : ℕ) := by
      rw [hproductval, FieldArithmetic.cast_fieldMul, hval,
        FieldArithmetic.cast_fieldInv hword (by omega), mul_inv_cancel₀ hne, Nat.cast_one]
    have hreduced : product.toNat < modulus.toNat := by
      rw [hproductval]
      exact FieldArithmetic.fieldMul_lt (by omega) _ _
    have hvalue : product.toNat = ONE.toNat := by
      have hmod := (ZMod.natCast_eq_natCast_iff' _ _ _).mp hcast
      rwa [Nat.mod_eq_of_lt hreduced, Nat.mod_eq_of_lt hone, ← ONE_toNat] at hmod
    rw [hproduct, limbs_eq_of_toNat_eq hvalue]

/-- In both fields and both builds, `field_inv` raises to the modulus less two over the 256
exponent bits and its product with the operand is 1; and the conversion of a base-field element is
its value modulo the scalar-field modulus. -/
theorem inversion_and_reduction :
    (∀ modulus : U256, modulus = FQ_LIMBS ∨ modulus = FR_LIMBS → ∀ a : U256, 0 < a.toNat →
      a.toNat < modulus.toNat →
      ∃ inv : U256, fieldInv overflowChecks a.limbs modulus.limbs = .ok inv.limbs ∧
        inv.toNat = powMod modulus.toNat 256 1 a.toNat (modulus.toNat - 2) ∧
        inv.toNat = a.toNat ^ (modulus.toNat - 2) % modulus.toNat ∧
        FieldMultiplication.fieldMul overflowChecks a inv modulus = .ok ONE.limbs) ∧
    ∀ fq : U256, fq.toNat < FQ_MOD →
      ∃ fr : U256, fromFq overflowChecks fq.limbs = .ok fr.limbs ∧
        fr.toNat = fq.toNat % FR_MOD ∧ fr.toNat < FR_MOD := by
  refine ⟨?_, ?_⟩
  · rintro modulus (rfl | rfl) a hpos hlt
    · have : Fact FQ_LIMBS.toNat.Prime := FQ_LIMBS_toNat ▸ ⟨FQ_MOD_prime⟩
      exact fieldInv_inverse overflowChecks (by decide) (by decide) hpos hlt
    · have : Fact FR_LIMBS.toNat.Prime := FR_LIMBS_toNat ▸ ⟨FR_MOD_prime⟩
      exact fieldInv_inverse overflowChecks (by decide) (by decide) hpos hlt
  · intro fq hfq
    obtain ⟨fr, hrun, hval⟩ := fromFq_ok overflowChecks fq
    have hmod := FieldArithmetic.frFromFq_eq_mod hfq
    have hpos : 0 < FR_MOD := by decide
    rw [hmod] at hval
    exact ⟨fr, hrun, hval, hval.trans_lt (Nat.mod_lt _ hpos)⟩

/-- 2 has its inverse in both fields, and the largest base-field element is reduced by one
subtraction. -/
theorem two_inversion_largest_reduction :
    (∀ modulus : U256, modulus = FQ_LIMBS ∨ modulus = FR_LIMBS →
      ∃ inv : U256, fieldInv true TWO.limbs modulus.limbs = .ok inv.limbs ∧
        FieldMultiplication.fieldMul true TWO inv modulus = .ok ONE.limbs) ∧
    ∃ fr : U256, fromFq false FQ_MAX.limbs = .ok fr.limbs ∧ fr.toNat = FQ_MOD - 1 - FR_MOD := by
  refine ⟨?_, ?_⟩
  · rintro modulus (rfl | rfl)
    · obtain ⟨inv, hrun, -, -, hmul⟩ :=
        (inversion_and_reduction true).1 FQ_LIMBS (Or.inl rfl) TWO (by decide) (by decide)
      exact ⟨inv, hrun, hmul⟩
    · obtain ⟨inv, hrun, -, -, hmul⟩ :=
        (inversion_and_reduction true).1 FR_LIMBS (Or.inr rfl) TWO (by decide) (by decide)
      exact ⟨inv, hrun, hmul⟩
  · obtain ⟨fr, hrun, hval, -⟩ := (inversion_and_reduction false).2 FQ_MAX (by decide)
    exact ⟨fr, hrun, hval.trans (by decide)⟩

end OperationLaws

/-! ## The fields on limbs -/

/-- The base field and the scalar field. -/
inductive Field
  | fq
  | fr
deriving DecidableEq

def Field.modulus : Field → U256
  | fq => FQ_LIMBS
  | fr => FR_LIMBS

/-- A reduced word. -/
structure Residue (f : Field) where
  word : U256
  lt : word.toNat < f.modulus.toNat

variable {f : Field}

def Residue.value (x : Residue f) : ZMod f.modulus.toNat := x.word.toNat

theorem Field.prime (f : Field) : f.modulus.toNat.Prime := by
  cases f
  · exact FQ_LIMBS_toNat ▸ FQ_MOD_prime
  · exact FR_LIMBS_toNat ▸ FR_MOD_prime

theorem Field.modulus_bounds (f : Field) :
    2 ^ 192 ≤ f.modulus.toNat ∧ 2 ≤ f.modulus.toNat % 2 ^ 64 := by
  cases f <;> decide

/-- The computation returns the residue of an element of the field. -/
def Computes (f : Field) (run : Except Fault (List ℕ)) (x : ZMod f.modulus.toNat) : Prop :=
  ∃ r : Residue f, run = .ok r.word.limbs ∧ r.value = x

/-- In both builds and on all residues, the operations on limbs are those of the field. -/
theorem field_operations_exact (f : Field) (a b : Residue f) :
    Computes f (fieldAdd overflowChecks a.word.limbs b.word.limbs f.modulus.limbs)
        (a.value + b.value) ∧
      Computes f (fieldSub overflowChecks a.word.limbs b.word.limbs f.modulus.limbs)
        (a.value - b.value) ∧
      Computes f (FieldMultiplication.fieldMul overflowChecks a.word b.word f.modulus)
        (a.value * b.value) ∧
      Computes f (fieldInv overflowChecks a.word.limbs f.modulus.limbs) a.value⁻¹ := by
  have : Fact f.modulus.toNat.Prime := ⟨f.prime⟩
  obtain ⟨htop, hlow⟩ := f.modulus_bounds
  have hword : f.modulus.toNat < FieldArithmetic.WORD := toNat_lt f.modulus
  obtain ⟨sum, hsum, hsumval⟩ := fieldAdd_ok overflowChecks a.word b.word f.modulus
  obtain ⟨diff, hdiff, hdiffval⟩ := fieldSub_ok overflowChecks a.word b.word f.modulus
  obtain ⟨product, hproduct, hproductval⟩ := fieldMul_ok overflowChecks a.word b.word f.modulus htop
  obtain ⟨inv, hinv, hinvval⟩ := fieldInv_ok overflowChecks htop hlow a.word
  refine ⟨⟨⟨sum, ?_⟩, hsum, ?_⟩, ⟨⟨diff, ?_⟩, hdiff, ?_⟩, ⟨⟨product, ?_⟩, hproduct, ?_⟩,
    ⟨⟨inv, ?_⟩, hinv, ?_⟩⟩
  · exact hsumval ▸ FieldArithmetic.fieldAdd_lt hword a.lt b.lt
  · rw [Residue.value, hsumval]
    exact FieldArithmetic.cast_fieldAdd hword a.lt b.lt
  · exact hdiffval ▸ FieldArithmetic.fieldSub_lt hword a.lt b.lt
  · rw [Residue.value, hdiffval]
    exact FieldArithmetic.cast_fieldSub hword a.lt b.lt
  · exact hproductval ▸ FieldArithmetic.fieldMul_lt f.prime.pos _ _
  · rw [Residue.value, hproductval]
    exact FieldArithmetic.cast_fieldMul _ _ _
  · exact hinvval ▸ FieldArithmetic.fieldInv_lt f.prime.one_lt _
  · rw [Residue.value, hinvval]
    exact FieldArithmetic.cast_fieldInv hword (by omega) _

end WorldZk.FieldInversion
