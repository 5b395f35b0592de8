import Mathlib.NumberTheory.LucasPrimality
import Mathlib.Tactic.Positivity
import Mathlib.Tactic.Ring

/-!
# Square-and-multiply and Lucas certificates

Binary exponentiation modulo `m`, written so that the kernel can run it on numbers of a few
hundred bits, and primality certificates checked with it. Nothing here depends on a particular
modulus.
-/

namespace WorldZk.ModularPower

/-- Right-to-left square-and-multiply over `bits` exponent bits, with running result `acc`. -/
def powMod (m : ℕ) : ℕ → ℕ → ℕ → ℕ → ℕ
  | 0, acc, _, _ => acc
  | bits + 1, acc, b, e =>
    powMod m bits (if e % 2 = 1 then acc * b % m else acc) (b * b % m) (e / 2)

theorem powMod_modEq (m : ℕ) (bits acc b e : ℕ) :
    powMod m bits acc b e ≡ acc * b ^ (e % 2 ^ bits) [MOD m] := by
  induction bits generalizing acc b e with
  | zero => simp [powMod, Nat.mod_one, Nat.ModEq]
  | succ bits ih =>
    have hsplit : e % 2 ^ (bits + 1) = e % 2 + 2 * (e / 2 % 2 ^ bits) := by
      rw [pow_succ', Nat.mod_mul]
    have hsq : (b * b % m) ^ (e / 2 % 2 ^ bits) ≡ b ^ (2 * (e / 2 % 2 ^ bits)) [MOD m] := by
      rw [pow_mul, sq]
      exact (Nat.mod_modEq (b * b) m).pow _
    have hstep := ih (if e % 2 = 1 then acc * b % m else acc) (b * b % m) (e / 2)
    refine hstep.trans ?_
    rw [hsplit, pow_add]
    by_cases he : e % 2 = 1
    · rw [if_pos he, he, pow_one, ← mul_assoc]
      exact (Nat.mod_modEq (acc * b) m).mul hsq
    · have he0 : e % 2 = 0 := by omega
      rw [if_neg he, he0, pow_zero, one_mul]
      exact hsq.mul_left acc

theorem powMod_lt {m : ℕ} (hm : 0 < m) {acc : ℕ} (hacc : acc < m) (bits b e : ℕ) :
    powMod m bits acc b e < m := by
  induction bits generalizing acc b e with
  | zero => simpa [powMod] using hacc
  | succ bits ih =>
    simp only [powMod]
    refine ih ?_ _ _
    split
    · exact Nat.mod_lt _ hm
    · exact hacc

theorem powMod_cast (m bits acc b e : ℕ) (he : e < 2 ^ bits) :
    (powMod m bits acc b e : ZMod m) = acc * (b : ZMod m) ^ e := by
  have h := (ZMod.natCast_eq_natCast_iff _ _ m).mpr (powMod_modEq m bits acc b e)
  rw [h, Nat.mod_eq_of_lt he]
  push_cast
  rfl

/-- The base after `bits` squarings. -/
def squareMod (m : ℕ) : ℕ → ℕ → ℕ
  | 0, b => b
  | bits + 1, b => squareMod m bits (b * b % m)

/-- Only the bits that are run over matter. -/
theorem powMod_low (m bits acc b e : ℕ) :
    powMod m bits acc b (e % 2 ^ bits) = powMod m bits acc b e := by
  induction bits generalizing acc b e with
  | zero => rfl
  | succ bits ih =>
    simp only [powMod, pow_succ', Nat.mod_mul_right_mod, Nat.mod_mul_right_div_self, ih]

/-- A run over the low bits, and from its result a run over the high ones. -/
theorem powMod_add (m bits k acc b e : ℕ) :
    powMod m (bits + k) acc b e =
      powMod m k (powMod m bits acc b e) (squareMod m bits b) (e / 2 ^ bits) := by
  induction bits generalizing acc b e with
  | zero => simp [powMod, squareMod]
  | succ bits ih =>
    rw [Nat.add_right_comm, powMod, ih, powMod, squareMod, Nat.div_div_eq_div_mul, pow_succ']

/-- The exponent in digits of `bits` bits each: the low digit comes first. -/
theorem powMod_digits (m bits k acc b d : ℕ) {e : ℕ} (hd : d < 2 ^ bits) :
    powMod m (bits + k) acc b (d + 2 ^ bits * e) =
      powMod m k (powMod m bits acc b d) (squareMod m bits b) e := by
  have hlow : (d + 2 ^ bits * e) % 2 ^ bits = d := by
    rw [Nat.add_mul_mod_self_left, Nat.mod_eq_of_lt hd]
  have hhigh : (d + 2 ^ bits * e) / 2 ^ bits = e := by
    rw [Nat.add_mul_div_left _ _ (by positivity), Nat.div_eq_of_lt hd, Nat.zero_add]
  rw [powMod_add, ← powMod_low m bits acc b (d + _), hlow, hhigh]

/-- The numerical part of a Lucas certificate for `p`: the listed prime powers multiply to
`p - 1`, and `a` has exact order `p - 1`. -/
def lucasCheck (p a : ℕ) (factors : List (ℕ × ℕ)) : Bool :=
  decide (1 < p) && decide (p < 2 ^ 256) &&
    decide ((factors.map fun f => f.1 ^ f.2).prod = p - 1) &&
    decide (powMod p 256 1 a (p - 1) = 1) &&
    factors.all fun f => decide (powMod p 256 1 a ((p - 1) / f.1) ≠ 1)

private theorem cast_eq_one_iff {p x : ℕ} (hp : 1 < p) (hx : x < p) :
    (x : ZMod p) = 1 ↔ x = 1 := by
  have h := ZMod.natCast_eq_natCast_iff' x 1 p
  rwa [Nat.cast_one, Nat.mod_eq_of_lt hx, Nat.mod_eq_of_lt hp] at h

private theorem pow_eq_one_iff {p a e : ℕ} (hp : 1 < p) (he : e < 2 ^ 256) :
    (a : ZMod p) ^ e = 1 ↔ powMod p 256 1 a e = 1 := by
  have hcast := powMod_cast p 256 1 a e he
  rw [Nat.cast_one, one_mul] at hcast
  rw [← hcast]
  exact cast_eq_one_iff hp (powMod_lt (by omega) hp _ _ _)

/-- A Lucas certificate for `p`: a primitive root, the factorisation of `p - 1`, the numerical
check of the two, and the primality of the factors. -/
structure LucasCertificate (p : ℕ) where
  root : ℕ
  factors : List (ℕ × ℕ)
  checked : lucasCheck p root factors = true
  primes : ∀ f ∈ factors, f.1.Prime

/-- A number with a Lucas certificate is prime. -/
theorem LucasCertificate.prime {p : ℕ} (cert : LucasCertificate p) : p.Prime := by
  obtain ⟨a, factors, hcheck, hfactors⟩ := cert
  simp only [lucasCheck, Bool.and_eq_true, decide_eq_true_eq, List.all_eq_true] at hcheck
  obtain ⟨⟨⟨⟨hp, hbits⟩, hprod⟩, hone⟩, hneq⟩ := hcheck
  -- every prime divisor of `p - 1` is one of the certified factors
  have hmem : ∀ l : ℕ, l.Prime → l ∣ p - 1 → ∃ f ∈ factors, f.1 = l := by
    intro l hl hdvd
    rw [← hprod, Prime.dvd_prod_iff hl.prime] at hdvd
    obtain ⟨_, hx, hlx⟩ := hdvd
    obtain ⟨f, hf, rfl⟩ := List.mem_map.mp hx
    have hlf := (Nat.prime_dvd_prime_iff_eq hl (hfactors f hf)).mp (hl.dvd_of_dvd_pow hlx)
    exact ⟨f, hf, hlf.symm⟩
  refine lucas_primality p (a : ZMod p) ((pow_eq_one_iff hp (by omega)).mpr hone) ?_
  intro l hl hdvd hpow
  obtain ⟨f, hf, rfl⟩ := hmem l hl hdvd
  have hexp : (p - 1) / f.1 < 2 ^ 256 := (Nat.div_le_self _ _).trans_lt (by omega)
  exact hneq f hf ((pow_eq_one_iff hp hexp).mp hpow)

end WorldZk.ModularPower
