import WorldZk.CircuitCompleteness
import WorldZk.CircuitDescription

/-!
# Arithmetic of `i64`

An operation on `i64` stops the program on overflow if the build checks for it, and wraps otherwise.
-/

namespace WorldZk.I64Arithmetic

open CircuitCompleteness CircuitPreparation TreeEnsemble
open scoped NamedInstances

inductive OverflowChecks where
  | on
  | off
deriving DecidableEq, Repr

instance (d : ℤ) : Decidable (FitsI64 d) := inferInstanceAs (Decidable (_ ∧ _))

/-- What an operation gives whose exact result is `n`. -/
def i64 : OverflowChecks → ℤ → Option ℤ
  | .on, n => if FitsI64 n then some n else none
  | .off, n => some (wrapI64 n)

/-- The loop `dot += x * y`. -/
def addProducts (checks : OverflowChecks) (dot : ℤ) (pairs : List (ℤ × ℤ)) : Option ℤ :=
  pairs.foldlM (fun dot p => do
    let product ← i64 checks (p.1 * p.2)
    i64 checks (dot + product)) dot

/-- The bits of a shifted number, with the assertions that they spell it. -/
def decompose (decompK : ℕ) (shifted : ℤ) : Option (List Bool) :=
  if shifted < 0 then none
  else
    let decompBits := (List.range decompK).map fun i => shifted.testBit i
    let reconstructed : ℤ :=
      (((List.range decompK).filter fun i => decompBits.getD i false).map fun i => 2 ^ i).sum
    if reconstructed ≠ shifted then none else some decompBits

/-- A bias at the scale of the products. -/
def quantizeBias {K : Type} [Field K] [LinearOrder K] [FloorRing K] (bias : K) : ℤ :=
  saturateI64 (roundHalfAway (bias * FIXED_POINT_SCALE * FIXED_POINT_SCALE))

/-- The exact sum. -/
def sumProducts {R : Type} [Mul R] [Add R] [Zero R] (xs ys : List R) : R :=
  (List.zipWith (· * ·) xs ys).sum

section SumProducts

variable {R : Type} [Mul R] [Add R] [Zero R]

@[simp] theorem sumProducts_nil_left (ys : List R) : sumProducts [] ys = 0 := rfl

@[simp] theorem sumProducts_nil_right (xs : List R) : sumProducts xs [] = 0 := by
  rw [sumProducts, List.zipWith_nil_right, List.sum_nil]

@[simp] theorem sumProducts_cons (x y : R) (xs ys : List R) :
    sumProducts (x :: xs) (y :: ys) = x * y + sumProducts xs ys := rfl

end SumProducts

theorem scale_pos {K : Type} [Field K] [LinearOrder K] [IsStrictOrderedRing K] :
    (0 : K) < (FIXED_POINT_SCALE : ℕ) := by
  rw [FIXED_POINT_SCALE]
  positivity

theorem quantize_of_fits {K : Type} [Field K] [LinearOrder K] [IsStrictOrderedRing K] [FloorRing K]
    {x : K} {k : ℤ} (hk : FitsI64 k) (h : x * FIXED_POINT_SCALE = k) : quantize x = k := by
  obtain ⟨hlow, hhigh⟩ := hk
  rw [quantize, h, CircuitDescription.roundHalfAway_intCast, saturateI64]
  omega

theorem quantizeBias_of_fits {K : Type} [Field K] [LinearOrder K] [IsStrictOrderedRing K]
    [FloorRing K] {bias : K} {k : ℤ} (hk : FitsI64 k)
    (h : bias * FIXED_POINT_SCALE * FIXED_POINT_SCALE = k) : quantizeBias bias = k := by
  obtain ⟨hlow, hhigh⟩ := hk
  rw [quantizeBias, h, CircuitDescription.roundHalfAway_intCast, saturateI64]
  omega

/-! ## Single operations -/

variable {checks : OverflowChecks} {n m : ℤ}

theorem i64_on_iff : i64 .on n = some m ↔ FitsI64 n ∧ m = n := by
  rw [i64]
  split
  · rename_i hfits
    rw [Option.some.injEq]
    exact ⟨fun h => ⟨hfits, h.symm⟩, fun h => h.2.symm⟩
  · rename_i hfits
    exact ⟨fun h => absurd h (by simp), fun h => absurd h.1 hfits⟩

theorem i64_spec (h : i64 checks n = some m) : FitsI64 m ∧ m % 2 ^ 64 = n % 2 ^ 64 := by
  cases checks with
  | on =>
    obtain ⟨hfits, rfl⟩ := i64_on_iff.mp h
    exact ⟨hfits, rfl⟩
  | off =>
    obtain rfl := Option.some.inj h
    rw [FitsI64, wrapI64]
    omega

theorem eq_of_emod_eq (hn : FitsI64 n) (hm : FitsI64 m) (h : n % 2 ^ 64 = m % 2 ^ 64) : n = m := by
  obtain ⟨hn, hn'⟩ := hn
  obtain ⟨hm, hm'⟩ := hm
  omega

/-! ## Sums of products -/

section Sums

variable {pairs : List (ℤ × ℤ)} {start dot : ℤ}

/-- Wherever a build overflows, the sum is right up to multiples of `2 ^ 64`. -/
theorem addProducts_emod (h : addProducts checks start pairs = some dot) :
    dot % 2 ^ 64 = (start + (pairs.map fun p => p.1 * p.2).sum) % 2 ^ 64 := by
  induction pairs generalizing start with
  | nil =>
    obtain rfl := Option.some.inj h
    rw [List.map_nil, List.sum_nil, add_zero]
  | cons p pairs ih =>
    rw [addProducts, List.foldlM_cons, Option.bind_eq_bind, Option.bind_eq_some_iff] at h
    obtain ⟨next, hstep, hrest⟩ := h
    obtain ⟨product, hproduct, hnext⟩ := Option.bind_eq_some_iff.mp hstep
    have hfirst := (i64_spec hproduct).2
    have hsecond := (i64_spec hnext).2
    have htail := ih hrest
    rw [List.map_cons, List.sum_cons]
    omega

end Sums

/-- All products and all partial sums are in range. -/
def SumsFit {R : Type} [Mul R] [Add R] (fits : R → Prop) : R → List (R × R) → Prop
  | _, [] => True
  | sum, p :: pairs =>
    fits (p.1 * p.2) ∧ fits (sum + p.1 * p.2) ∧ SumsFit fits (sum + p.1 * p.2) pairs

section SumsFit

variable {pairs : List (ℤ × ℤ)} {start dot : ℤ}

theorem addProducts_on_iff : addProducts .on start pairs = some dot ↔
    SumsFit FitsI64 start pairs ∧ dot = start + (pairs.map fun p => p.1 * p.2).sum := by
  induction pairs generalizing start with
  | nil =>
    rw [addProducts, List.foldlM_nil, List.map_nil, List.sum_nil, add_zero, SumsFit, true_and]
    exact ⟨fun h => (Option.some.inj h).symm, fun h => congrArg some h.symm⟩
  | cons p pairs ih =>
    rw [addProducts, List.foldlM_cons, Option.bind_eq_bind, Option.bind_eq_some_iff]
    simp only [Option.bind_eq_some_iff, i64_on_iff]
    rw [SumsFit, List.map_cons, List.sum_cons, ← add_assoc]
    constructor
    · rintro ⟨_, ⟨_, ⟨hproduct, rfl⟩, hsum, rfl⟩, hrest⟩
      obtain ⟨hfit, hdot⟩ := ih.mp hrest
      exact ⟨⟨hproduct, hsum, hfit⟩, hdot⟩
    · rintro ⟨⟨hproduct, hsum, hfit⟩, hdot⟩
      exact ⟨_, ⟨_, ⟨hproduct, rfl⟩, hsum, rfl⟩, ih.mpr ⟨hfit, hdot⟩⟩

theorem i64_off_of_on (h : i64 .on n = some m) : i64 .off n = some m := by
  obtain ⟨hfits, rfl⟩ := i64_on_iff.mp h
  rw [i64, wrapI64_of_fitsI64 hfits]

theorem addProducts_off_of_on (h : addProducts .on start pairs = some dot) :
    addProducts .off start pairs = some dot := by
  induction pairs generalizing start with
  | nil => exact h
  | cons p pairs ih =>
    rw [addProducts, List.foldlM_cons, Option.bind_eq_bind, Option.bind_eq_some_iff] at h ⊢
    obtain ⟨next, hstep, hrest⟩ := h
    obtain ⟨product, hproduct, hnext⟩ := Option.bind_eq_some_iff.mp hstep
    exact ⟨next, Option.bind_eq_some_iff.mpr ⟨product, i64_off_of_on hproduct, i64_off_of_on hnext⟩,
      ih hrest⟩

theorem sumsFit_append_zeros (hstart : FitsI64 start) (k : ℕ) :
    SumsFit FitsI64 start (pairs ++ List.replicate k (0, 0)) ↔ SumsFit FitsI64 start pairs := by
  have hzeros : ∀ {sum : ℤ}, FitsI64 sum → ∀ k, SumsFit FitsI64 sum (List.replicate k (0, 0)) := by
    intro sum hsum k
    induction k with
    | zero => trivial
    | succ k ih =>
      rw [List.replicate_succ, SumsFit, mul_zero, add_zero]
      exact ⟨by decide, hsum, ih⟩
  induction pairs generalizing start with
  | nil => exact iff_of_true (hzeros hstart k) trivial
  | cons p pairs ih =>
    rw [List.cons_append, SumsFit, SumsFit]
    refine and_congr_right fun _ => and_congr_right fun hnext => ih hnext

/-- A scaled number that an `i64` holds. -/
def FitsScaled {K : Type} [Field K] [LinearOrder K] (scale x : K) : Prop :=
  -2 ^ 63 ≤ x * scale ∧ x * scale < 2 ^ 63

theorem fitsScaled_iff {K : Type} [Field K] [LinearOrder K] [IsStrictOrderedRing K] {scale x : K}
    (h : (n : K) = x * scale) : FitsScaled scale x ↔ FitsI64 n := by
  rw [FitsScaled, ← h, FitsI64]
  exact and_congr (by exact_mod_cast Iff.rfl) (by exact_mod_cast Iff.rfl)

/-- Integer sums fit when the sums that they stand for do. -/
theorem sumsFit_scaled {K : Type} [Field K] [LinearOrder K] [IsStrictOrderedRing K] {scale sum : K}
    {rs : List (K × K)}
    (h : List.Forall₂ (fun p r => ((p.1 * p.2 : ℤ) : K) = r.1 * r.2 * scale) pairs rs)
    (hstart : (start : K) = sum * scale) :
    SumsFit (FitsScaled scale) sum rs ↔ SumsFit FitsI64 start pairs := by
  induction h generalizing start sum with
  | nil => exact Iff.rfl
  | @cons p r pairs rs hproduct _ ih =>
    have hnext : ((start + p.1 * p.2 : ℤ) : K) = (sum + r.1 * r.2) * scale := by
      rw [Int.cast_add, hstart, hproduct, add_mul]
    exact and_congr (fitsScaled_iff hproduct) (and_congr (fitsScaled_iff hnext) (ih hnext))

end SumsFit

theorem zip_products (xs ys : List ℤ) :
    ((xs.zip ys).map fun p => p.1 * p.2).sum = sumProducts xs ys := by
  rw [sumProducts, ← List.map_uncurry_zip_eq_zipWith]
  rfl

theorem sumProducts_padded {xs ys : List ℤ} (h : xs.length = ys.length) {k : ℕ}
    (hk : xs.length ≤ k) :
    sumProducts (resize xs k 0) (resize ys k 0) = sumProducts xs ys := by
  rw [sumProducts, resize, resize, List.take_of_length_le hk, List.take_of_length_le (h ▸ hk),
    List.zipWith_append h, List.sum_append, h, List.zipWith_replicate, mul_zero,
    List.sum_replicate, smul_zero, add_zero]
  rfl

end WorldZk.I64Arithmetic
