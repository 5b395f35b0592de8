import WorldZk.CheckedRuns
import Mathlib.Data.Nat.Digits.Defs
import Mathlib.Tactic.Linarith
import Mathlib.Tactic.LinearCombination
import Mathlib.Tactic.Positivity
import Mathlib.Tactic.Ring

/-!
# Arithmetic on arrays of limbs

A number is held by the list of its digits in a base `B`, low digit first. A loop that walks one
array over a window of another, with a carry, keeps a linear relation between the two values: one
rule covers the rows of a long multiplication, the subtraction of a multiple and the addition of a
divisor. Shifts by bits across the limbs and the digit estimate of a long division follow.
-/

namespace WorldZk.LimbArithmetic

open CheckedRuns

/-- The digits `xs` are limbs in base `B`. -/
def Limbs (B : ℕ) (xs : List ℕ) : Prop := ∀ x ∈ xs, x < B

namespace Limbs

variable {B : ℕ} {xs ys : List ℕ}

@[simp] theorem nil : Limbs B [] := fun _ hx => absurd hx List.not_mem_nil

theorem cons_iff {x : ℕ} : Limbs B (x :: xs) ↔ x < B ∧ Limbs B xs := List.forall_mem_cons

theorem append_iff : Limbs B (xs ++ ys) ↔ Limbs B xs ∧ Limbs B ys := List.forall_mem_append

theorem singleton {x : ℕ} (hx : x < B) : Limbs B [x] := cons_iff.mpr ⟨hx, nil⟩

theorem getElem (h : Limbs B xs) {i : ℕ} (hi : i < xs.length) : xs[i] < B :=
  h _ (List.getElem_mem hi)

theorem ofDigits_lt (hB : 1 < B) (h : Limbs B xs) : Nat.ofDigits B xs < B ^ xs.length :=
  Nat.ofDigits_lt_base_pow_length hB h

end Limbs

section Access

variable {ε : Type}

theorem getOr_append {e : ε} {lo hi : List ℕ} {x i : ℕ} (hi' : i = lo.length) :
    getOr e (lo ++ x :: hi) i = .ok x := by
  rw [getOr_eq_ok, hi']
  simp

theorem getOr_window {e : ε} {lo mid hi : List ℕ} {i x : ℕ} (h : mid[i]? = some x) :
    getOr e (lo ++ mid ++ hi) (lo.length + i) = .ok x := by
  have hlt : i < mid.length := (List.getElem?_eq_some_iff.mp h).1
  rw [getOr_eq_ok, List.append_assoc, List.getElem?_append_right (Nat.le_add_right _ _),
    Nat.add_sub_cancel_left, List.getElem?_append_left hlt, h]

theorem getOr_of_lt {e : ε} {xs : List ℕ} {i : ℕ} (hi : i < xs.length) :
    getOr e xs i = .ok xs[i] :=
  getOr_eq_ok.mpr (List.getElem?_eq_getElem hi)

/-- A checked write. -/
def setOr (e : ε) (xs : List ℕ) (i x : ℕ) : Except ε (List ℕ) := do
  require (decide (i < xs.length)) e
  pure (xs.set i x)

theorem setOr_append {e : ε} {lo hi : List ℕ} {x y i : ℕ} (hi' : i = lo.length) :
    setOr e (lo ++ x :: hi) i y = .ok (lo ++ y :: hi) := by
  subst hi'
  have hlt : lo.length < (lo ++ x :: hi).length := by simp
  rw [setOr, decide_eq_true hlt, require_true, ok_bind, List.set_append_right _ _ le_rfl,
    Nat.sub_self, List.set_cons_zero]
  rfl

end Access

section CarryLoops

variable {ε σ : Type}

/-- One turn: the digits at `base + i` and `i` and the carry make a digit, written back, and the
next carry. -/
def carryTurn (e : ε) (step : σ → ℕ → ℕ → Except ε (ℕ × σ)) (base : ℕ) (vs : List ℕ)
    (acc : List ℕ × σ) (i : ℕ) : Except ε (List ℕ × σ) := do
  let u ← getOr e acc.1 (base + i)
  let v ← getOr e vs i
  let (digit, carry) ← step acc.2 u v
  let us ← setOr e acc.1 (base + i) digit
  pure (us, carry)

/-- The loop over the first `n` digits of `vs`, in place on `us` from `base` on. -/
def carryLoop (e : ε) (step : σ → ℕ → ℕ → Except ε (ℕ × σ)) (base : ℕ) (vs : List ℕ) (n : ℕ)
    (us : List ℕ) (carry : σ) : Except ε (List ℕ × σ) :=
  (List.range n).foldlM (carryTurn e step base vs) (us, carry)

/-- A step that adds `k` times the digit of `vs`: digit and carry hold the exact sum, `weight`
being the value of a carry. -/
structure CarryStep (B : ℕ) (step : σ → ℕ → ℕ → Except ε (ℕ × σ)) (k : ℤ) (weight : σ → ℤ)
    (Inv : σ → Prop) : Prop where
  exact_step : ∀ {c u v}, Inv c → u < B → v < B →
    ∃ d c', step c u v = .ok (d, c') ∧ d < B ∧ Inv c' ∧
      (u : ℤ) + k * v + weight c = d + B * weight c'

theorem carryTurn_append (e : ε) {step : σ → ℕ → ℕ → Except ε (ℕ × σ)} {base i u d : ℕ}
    {vs lo : List ℕ} (hi : List ℕ) {c c' : σ} (hat : base + i = lo.length) (hi' : i < vs.length)
    (h : step c u vs[i] = .ok (d, c')) :
    carryTurn e step base vs (lo ++ u :: hi, c) i = .ok (lo ++ d :: hi, c') := by
  have hset := @setOr_append ε e lo hi u d _ hat
  simp only [carryTurn, getOr_append hat, getOr_of_lt hi', h, hset, ok_bind]
  rfl

/-- What the loop leaves: the window holds the new digits, the rest of the array is unchanged. -/
theorem CarryStep.carryLoop {B : ℕ} {step : σ → ℕ → ℕ → Except ε (ℕ × σ)} {k : ℤ}
    {weight : σ → ℤ} {Inv : σ → Prop} (hstep : CarryStep B step k weight Inv) (e : ε)
    {vs lo : List ℕ} (hi : List ℕ) {base n : ℕ} (hbase : base = lo.length) (hn : n ≤ vs.length)
    (hvs : Limbs B vs) {mid : List ℕ} (hlen : mid.length = n) (hmid : Limbs B mid) {c : σ}
    (hc : Inv c) :
    ∃ ds c', carryLoop e step base vs n (lo ++ mid ++ hi) c = .ok (lo ++ ds ++ hi, c') ∧
      ds.length = n ∧ Limbs B ds ∧ Inv c' ∧
      ((Nat.ofDigits B mid : ℕ) : ℤ) + k * (Nat.ofDigits B (vs.take n) : ℕ) + weight c =
        (Nat.ofDigits B ds : ℕ) + (B : ℤ) ^ n * weight c' := by
  induction n generalizing mid hi with
  | zero =>
    rw [List.length_eq_zero_iff] at hlen
    subst hlen
    exact ⟨[], c, rfl, rfl, Limbs.nil, hc, by simp⟩
  | succ n ih =>
    rcases List.eq_nil_or_concat mid with rfl | ⟨mid, u, rfl⟩
    · cases hlen
    rw [List.concat_eq_append] at hlen hmid ⊢
    have hmidlen : mid.length = n := by simpa using hlen
    obtain ⟨hmid, hu⟩ := Limbs.append_iff.mp hmid
    have hu : u < B := (Limbs.cons_iff.mp hu).1
    obtain ⟨ds, c₁, hrun, hdslen, hds, hc₁, hval⟩ :=
      ih (u :: hi) (by omega) hmidlen hmid
    have hv : n < vs.length := by omega
    obtain ⟨d, c₂, hturn, hd, hc₂, hdigit⟩ :=
      hstep.exact_step hc₁ hu (hvs.getElem hv)
    refine ⟨ds ++ [d], c₂, ?_, by simp [hdslen], Limbs.append_iff.mpr ⟨hds, Limbs.singleton hd⟩,
      hc₂, ?_⟩
    · have hat : base + n = (lo ++ ds).length := by rw [List.length_append, hbase, hdslen]
      rw [LimbArithmetic.carryLoop, List.range_succ, foldlM_append]
      have hwindow : lo ++ (mid ++ [u]) ++ hi = lo ++ mid ++ u :: hi := by simp
      have hturn := carryTurn_append e hi hat hv hturn
      rw [LimbArithmetic.carryLoop] at hrun
      rw [hwindow, hrun, ok_bind, List.foldlM_cons, hturn, ok_bind, List.foldlM_nil]
      simp only [List.append_assoc, List.singleton_append]
      rfl
    · rw [List.take_add_one, List.getElem?_eq_getElem hv, Option.toList_some,
        Nat.ofDigits_append, Nat.ofDigits_append, Nat.ofDigits_append, Nat.ofDigits_singleton,
        Nat.ofDigits_singleton, Nat.ofDigits_singleton, hmidlen, hdslen,
        List.length_take_of_le (by omega)]
      simp only [Nat.cast_add, Nat.cast_mul, Nat.cast_pow]
      -- the digit's equation enters at the weight of its place
      linear_combination hval + (B : ℤ) ^ n * hdigit

end CarryLoops

section Shifts

variable {w s : ℕ}

theorem shiftLeft_mod (hs : s ≤ w) (x : ℕ) : x <<< s % 2 ^ w = 2 ^ s * (x % 2 ^ (w - s)) := by
  have hpow : (2 : ℕ) ^ w = 2 ^ s * 2 ^ (w - s) := by rw [← pow_add, Nat.add_sub_cancel' hs]
  rw [Nat.shiftLeft_eq, hpow, mul_comm x, Nat.mul_mod_mul_left]

theorem shiftRight_lt (hs : s ≤ w) {x : ℕ} (hx : x < 2 ^ w) : x >>> s < 2 ^ (w - s) := by
  rw [Nat.shiftRight_eq_div_pow, Nat.div_lt_iff_lt_mul (by positivity), ← pow_add,
    Nat.sub_add_cancel hs]
  exact hx

theorem joinUp_eq (hs : s ≤ w) (x : ℕ) {y : ℕ} (hy : y < 2 ^ w) :
    (x <<< s % 2 ^ w ||| y >>> (w - s)) = 2 ^ s * (x % 2 ^ (w - s)) + y / 2 ^ (w - s) := by
  have hlow : y >>> (w - s) < 2 ^ s := by
    simpa [Nat.sub_sub_self hs] using shiftRight_lt (Nat.sub_le w s) hy
  rw [shiftLeft_mod hs, ← Nat.two_pow_add_eq_or_of_lt hlow, Nat.shiftRight_eq_div_pow]

theorem joinUp_lt (x : ℕ) {y : ℕ} (hy : y < 2 ^ w) :
    (x <<< s % 2 ^ w ||| y >>> (w - s)) < 2 ^ w :=
  Nat.or_lt_two_pow (Nat.mod_lt _ (by positivity))
    ((Nat.shiftRight_le _ _).trans_lt hy)

/-- The limbs shifted up by `s` bits, with the bits that leave `below` entering first; the last
limb holds what leaves at the top. -/
def shiftUp (w s : ℕ) : ℕ → List ℕ → List ℕ
  | below, [] => [below >>> (w - s)]
  | below, x :: xs => (x <<< s % 2 ^ w ||| below >>> (w - s)) :: shiftUp w s x xs

theorem ofDigits_shiftUp (hs : s ≤ w) {below : ℕ} (hb : below < 2 ^ w) {xs : List ℕ}
    (hxs : Limbs (2 ^ w) xs) :
    Nat.ofDigits (2 ^ w) (shiftUp w s below xs) =
      2 ^ s * Nat.ofDigits (2 ^ w) xs + below / 2 ^ (w - s) := by
  induction xs generalizing below with
  | nil => simp [shiftUp, Nat.shiftRight_eq_div_pow]
  | cons x xs ih =>
    obtain ⟨hx, hxs⟩ := Limbs.cons_iff.mp hxs
    have hpow : (2 : ℕ) ^ w = 2 ^ s * 2 ^ (w - s) := by rw [← pow_add, Nat.add_sub_cancel' hs]
    have hsplit := Nat.mod_add_div x (2 ^ (w - s))
    rw [shiftUp, Nat.ofDigits_cons, Nat.ofDigits_cons, ih hx hxs, joinUp_eq hs x hb]
    calc 2 ^ s * (x % 2 ^ (w - s)) + below / 2 ^ (w - s) +
          2 ^ w * (2 ^ s * Nat.ofDigits (2 ^ w) xs + x / 2 ^ (w - s))
        = 2 ^ s * (x % 2 ^ (w - s)) + below / 2 ^ (w - s) +
          (2 ^ s * 2 ^ (w - s) * (x / 2 ^ (w - s)) +
            2 ^ w * (2 ^ s * Nat.ofDigits (2 ^ w) xs)) := by
          rw [← hpow]
          ring
      _ = 2 ^ s * (x % 2 ^ (w - s) + 2 ^ (w - s) * (x / 2 ^ (w - s))) + below / 2 ^ (w - s) +
            2 ^ w * (2 ^ s * Nat.ofDigits (2 ^ w) xs) := by ring
      _ = 2 ^ s * (x + 2 ^ w * Nat.ofDigits (2 ^ w) xs) + below / 2 ^ (w - s) := by
          rw [hsplit]
          ring

theorem shiftUp_limbs {below : ℕ} (hb : below < 2 ^ w) {xs : List ℕ}
    (hxs : Limbs (2 ^ w) xs) : Limbs (2 ^ w) (shiftUp w s below xs) := by
  induction xs generalizing below with
  | nil => exact Limbs.singleton ((Nat.shiftRight_le _ _).trans_lt hb)
  | cons x xs ih =>
    obtain ⟨hx, hxs⟩ := Limbs.cons_iff.mp hxs
    exact Limbs.cons_iff.mpr ⟨joinUp_lt x hb, ih hx hxs⟩

/-- The limbs shifted down by `s` bits. -/
def shiftDown (w s : ℕ) : List ℕ → List ℕ
  | [] => []
  | [x] => [x >>> s]
  | x :: y :: ys => (x >>> s ||| y <<< (w - s) % 2 ^ w) :: shiftDown w s (y :: ys)

theorem ofDigits_shiftDown (hs : s ≤ w) {xs : List ℕ} (hxs : Limbs (2 ^ w) xs) :
    Nat.ofDigits (2 ^ w) (shiftDown w s xs) = Nat.ofDigits (2 ^ w) xs / 2 ^ s := by
  induction xs using shiftDown.induct with
  | case1 => simp [shiftDown]
  | case2 x => simp [shiftDown, Nat.shiftRight_eq_div_pow]
  | case3 x y ys ih =>
    obtain ⟨hx, hys⟩ := Limbs.cons_iff.mp hxs
    have hjoin := joinUp_eq (Nat.sub_le w s) y hx
    rw [Nat.sub_sub_self hs] at hjoin
    have hpow : (2 : ℕ) ^ w = 2 ^ s * 2 ^ (w - s) := by rw [← pow_add, Nat.add_sub_cancel' hs]
    -- the bits that move into the low limb are the low bits of the rest
    have hlow : y % 2 ^ s = Nat.ofDigits (2 ^ w) (y :: ys) % 2 ^ s := by
      rw [Nat.ofDigits_cons, hpow, mul_assoc, Nat.add_mul_mod_self_left]
    rw [shiftDown, Nat.ofDigits_cons, ih hys, Nat.or_comm, hjoin, hlow,
      @Nat.ofDigits_cons _ x (y :: ys)]
    generalize Nat.ofDigits (2 ^ w) (y :: ys) = r
    have hsplit := Nat.mod_add_div r (2 ^ s)
    have hsum : x + 2 ^ w * r = x + 2 ^ s * (2 ^ (w - s) * r) := by rw [hpow, mul_assoc]
    rw [hsum, Nat.add_mul_div_left _ _ (by positivity)]
    calc 2 ^ (w - s) * (r % 2 ^ s) + x / 2 ^ s + 2 ^ w * (r / 2 ^ s)
        = x / 2 ^ s + 2 ^ (w - s) * (r % 2 ^ s + 2 ^ s * (r / 2 ^ s)) := by
          rw [hpow]
          ring
      _ = x / 2 ^ s + 2 ^ (w - s) * r := by rw [hsplit]

theorem shiftDown_limbs {xs : List ℕ} (hxs : Limbs (2 ^ w) xs) :
    Limbs (2 ^ w) (shiftDown w s xs) := by
  induction xs using shiftDown.induct with
  | case1 => exact Limbs.nil
  | case2 x =>
    exact Limbs.singleton ((Nat.shiftRight_le _ _).trans_lt (Limbs.cons_iff.mp hxs).1)
  | case3 x y ys ih =>
    obtain ⟨hx, hys⟩ := Limbs.cons_iff.mp hxs
    refine Limbs.cons_iff.mpr ⟨?_, ih hys⟩
    exact Nat.or_lt_two_pow ((Nat.shiftRight_le _ _).trans_lt hx) (Nat.mod_lt _ (by positivity))

end Shifts

section Estimates

variable {U V : ℕ}

/-- The quotient of the leading parts is not below the quotient. -/
theorem quotient_le_estimate {u v X : ℕ} (hv : 0 < v) (hV : v * X ≤ V)
    (hU : U < (u + 1) * X) : U / V ≤ u / v := by
  have hmul : U / V * v * X < (u + 1) * X :=
    calc U / V * v * X = U / V * (v * X) := mul_assoc _ _ _
      _ ≤ U / V * V := Nat.mul_le_mul_left _ hV
      _ ≤ U := Nat.div_mul_le_self U V
      _ < (u + 1) * X := hU
  have hlt : U / V * v < u + 1 := lt_of_mul_lt_mul_right hmul (Nat.zero_le X)
  exact (Nat.le_div_iff_mul_le hv).mpr (Nat.le_of_lt_succ hlt)

/-- An estimate whose product with the leading part of the divisor exceeds the leading part of the
dividend is above the quotient. -/
theorem quotient_lt_estimate {u v X q : ℕ} (hV : v * X ≤ V) (hU : U < (u + 1) * X)
    (hq : u < q * v) : U / V < q := by
  have hmul : U < q * V :=
    calc U < (u + 1) * X := hU
      _ ≤ q * v * X := Nat.mul_le_mul_right _ hq
      _ = q * (v * X) := mul_assoc _ _ _
      _ ≤ q * V := Nat.mul_le_mul_left _ hV
  exact Nat.div_lt_of_lt_mul (by rwa [mul_comm])

/-- An estimate that passes the test on the leading parts is above the quotient by one at most. -/
theorem estimate_mul_lt {u v X q B : ℕ} (hVhi : V < (v + 1) * X) (hU : u * X ≤ U)
    (hB : B * X ≤ V) (hqB : q ≤ B) (hq : q * v ≤ u) (hV : 0 < V) : q * V < U + V := by
  rcases Nat.eq_zero_or_pos q with rfl | hpos
  · omega
  · calc q * V < q * ((v + 1) * X) := Nat.mul_lt_mul_of_pos_left hVhi hpos
      _ = q * v * X + q * X := by ring
      _ ≤ u * X + B * X := Nat.add_le_add (Nat.mul_le_mul_right _ hq) (Nat.mul_le_mul_right _ hqB)
      _ ≤ U + V := Nat.add_le_add hU hB

/-- The leading digits of a window `U` and a divisor `V` in base `B`: two of the divisor, three of
the window, over lower digits of the weight `X`. The quotient is one digit. -/
structure LeadingDigits (B U V X vTop vNext u₄ u₃ u₂ : ℕ) : Prop where
  divisor_le : (vTop * B + vNext) * X ≤ V
  divisor_lt : V < (vTop * B + vNext + 1) * X
  window_le : ((u₄ * B + u₃) * B + u₂) * X ≤ U
  window_lt : U < ((u₄ * B + u₃) * B + u₂ + 1) * X
  one_digit : U < V * B
  vTop_pos : 0 < vTop
  vNext_lt : vNext < B
  u₃_lt : u₃ < B
  u₂_lt : u₂ < B

namespace LeadingDigits

variable {B X vTop vNext u₄ u₃ u₂ : ℕ}

/-- The two sides of the test are those of the comparison of leading parts. -/
theorem leading_eq {q r : ℕ} (hqr : q * vTop + r = u₄ * B + u₃) :
    q * (vTop * B + vNext) + (r * B + u₂) = (u₄ * B + u₃) * B + u₂ + q * vNext := by
  rw [← hqr]
  ring

variable (h : LeadingDigits B U V X vTop vNext u₄ u₃ u₂)

include h

theorem base_pos : 0 < B := (Nat.zero_le _).trans_lt h.vNext_lt

theorem weight_pos : 0 < X := by
  rcases Nat.eq_zero_or_pos X with rfl | hX
  · exact absurd h.divisor_lt (by simp)
  · exact hX

theorem divisor_pos : 0 < V := by
  have hlead : 0 < vTop * B + vNext := Nat.add_pos_left (Nat.mul_pos h.vTop_pos h.base_pos) _
  exact (Nat.mul_pos hlead h.weight_pos).trans_le h.divisor_le

theorem quotient_lt : U / V < B := Nat.div_lt_of_lt_mul h.one_digit

/-- The top digit of the window does not pass the divisor's. -/
theorem top_le : u₄ ≤ vTop := by
  have hlead : vTop * B + vNext + 1 ≤ (vTop + 1) * B := by
    have := h.vNext_lt
    rw [add_mul]
    omega
  have hmul : u₄ * (B * B * X) < (vTop + 1) * (B * B * X) :=
    calc u₄ * (B * B * X) ≤ ((u₄ * B + u₃) * B + u₂) * X := by
          rw [show u₄ * (B * B * X) = u₄ * B * B * X by ring]
          exact Nat.mul_le_mul_right _ ((Nat.mul_le_mul_right _ (Nat.le_add_right _ _)).trans
            (Nat.le_add_right _ _))
      _ ≤ U := h.window_le
      _ < V * B := h.one_digit
      _ ≤ (vTop + 1) * B * X * B :=
          Nat.mul_le_mul_right _ (h.divisor_lt.le.trans (Nat.mul_le_mul_right _ hlead))
      _ = (vTop + 1) * (B * B * X) := by ring
  exact Nat.le_of_lt_succ (lt_of_mul_lt_mul_right hmul (Nat.zero_le _))

/-- The first estimate, from two digits by one, is not below the quotient. -/
theorem quotient_le : U / V ≤ (u₄ * B + u₃) / vTop := by
  refine quotient_le_estimate h.vTop_pos (X := B * X) ?_ ?_
  · calc vTop * (B * X) = vTop * B * X := (mul_assoc _ _ _).symm
      _ ≤ (vTop * B + vNext) * X := Nat.mul_le_mul_right _ (Nat.le_add_right _ _)
      _ ≤ V := h.divisor_le
  · have hlead : (u₄ * B + u₃) * B + u₂ + 1 ≤ (u₄ * B + u₃ + 1) * B := by
      have := h.u₂_lt
      rw [add_mul _ 1]
      omega
    calc U < ((u₄ * B + u₃) * B + u₂ + 1) * X := h.window_lt
      _ ≤ (u₄ * B + u₃ + 1) * B * X := Nat.mul_le_mul_right _ hlead
      _ = (u₄ * B + u₃ + 1) * (B * X) := mul_assoc _ _ _

section Turn

variable {q r : ℕ} (hqr : q * vTop + r = u₄ * B + u₃)

include hqr

theorem quotient_lt_of_test (htest : r * B + u₂ < q * vNext) : U / V < q := by
  have hlead := @leading_eq B vTop vNext u₄ u₃ u₂ q r hqr
  exact quotient_lt_estimate h.divisor_le h.window_lt (by omega)

theorem mul_lt_of_test (hq : q ≤ B) (htest : q * vNext ≤ r * B + u₂) : q * V < U + V := by
  have hlead := @leading_eq B vTop vNext u₄ u₃ u₂ q r hqr
  have hB : B * X ≤ V := (Nat.mul_le_mul_right _ ((Nat.le_mul_of_pos_left B h.vTop_pos).trans
    (Nat.le_add_right _ _))).trans h.divisor_le
  exact estimate_mul_lt h.divisor_lt h.window_le hB hq (by omega) h.divisor_pos

/-- Once the partial remainder passes a digit, the estimate is one digit and passes the test. -/
theorem lt_base_of_remainder (hr : B ≤ r) : q < B := by
  by_contra hq
  have h₁ : B * vTop ≤ q * vTop := Nat.mul_le_mul_right _ (by omega)
  have h₂ : u₄ * B ≤ B * vTop := by
    rw [mul_comm B]
    exact Nat.mul_le_mul_right _ h.top_le
  have := h.u₃_lt
  omega

theorem mul_lt_of_remainder (hr : B ≤ r) : q * V < U + V := by
  have hq := h.lt_base_of_remainder hqr hr
  refine h.mul_lt_of_test hqr hq.le ?_
  calc q * vNext ≤ B * B := Nat.mul_le_mul hq.le h.vNext_lt.le
    _ ≤ r * B := Nat.mul_le_mul_right _ hr
    _ ≤ r * B + u₂ := Nat.le_add_right _ _

end Turn

end LeadingDigits

/-- Subtracting an estimate times the divisor leaves the remainder, or the remainder less the
divisor with a borrow of one out of the window. -/
theorem subtracted_window {q D N : ℕ} {t : ℤ} (hV : 0 < V) (hVN : V ≤ N) (hD : D < N)
    (hlow : U / V ≤ q) (hhigh : q * V < U + V) (hval : (U : ℤ) - q * V = D + N * t) :
    (t = 0 ∧ D = U % V) ∨ (t = -1 ∧ D + V = U % V + N) := by
  have hsplit := Nat.div_add_mod' U V
  have hmod := Nat.mod_lt U hV
  have hq : q < U / V + 2 := by
    have : q * V < (U / V + 2) * V := by
      have : (U / V + 2) * V = U / V * V + V + V := by ring
      omega
    exact lt_of_mul_lt_mul_right this (Nat.zero_le V)
  have hU : (U : ℤ) = (U / V : ℕ) * V + (U % V : ℕ) := by exact_mod_cast hsplit.symm
  have hDN : (D : ℤ) < N := by exact_mod_cast hD
  have hmodN : ((U % V : ℕ) : ℤ) < V := by exact_mod_cast hmod
  have hVN' : (V : ℤ) ≤ N := by exact_mod_cast hVN
  have hN : (0 : ℤ) ≤ N := Int.natCast_nonneg N
  rcases (by omega : q = U / V ∨ q = U / V + 1) with rfl | rfl
  · left
    have hrem : ((U % V : ℕ) : ℤ) = D + N * t := by linarith
    have hlo : -1 < t := lt_of_mul_lt_mul_left (by omega : (N : ℤ) * -1 < N * t) hN
    have hhi : t < 1 := lt_of_mul_lt_mul_left (by omega : (N : ℤ) * t < N * 1) hN
    have ht : t = 0 := by omega
    rw [ht, mul_zero, add_zero] at hrem
    exact ⟨ht, by exact_mod_cast hrem.symm⟩
  · right
    rw [Nat.cast_add, Nat.cast_one, add_mul, one_mul] at hval
    have hrem : ((U % V : ℕ) : ℤ) - V = D + N * t := by linarith
    have hlo : -2 < t := lt_of_mul_lt_mul_left (by omega : (N : ℤ) * -2 < N * t) hN
    have hhi : t < 0 := lt_of_mul_lt_mul_left (by omega : (N : ℤ) * t < N * 0) hN
    have ht : t = -1 := by omega
    subst ht
    exact ⟨rfl, by omega⟩

end Estimates

end WorldZk.LimbArithmetic
