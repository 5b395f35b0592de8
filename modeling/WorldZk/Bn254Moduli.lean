import WorldZk.ModularPower
import Mathlib.Tactic.NormNum.Prime

/-!
# The two moduli of BN254

`FQ_MOD` and `FR_MOD` are the base-field and scalar-field moduli that every verifier of the
repository carries as constants. Both are proved prime here, from Lucas certificates whose
large factors are certified in turn.
-/

namespace WorldZk.Bn254Moduli

open ModularPower

/-- The base-field modulus `q`, the coordinates' field. -/
def FQ_MOD : ℕ :=
  0x30644e72e131a029b85045b68181585d97816a916871ca8d3c208c16d87cfd47

/-- The scalar-field modulus `r`, the order of the curve group. -/
def FR_MOD : ℕ :=
  0x30644e72e131a029b85045b68181585d2833e84879b9709143e1f593f0000001

theorem FQ_MOD_lt_two_mul : FQ_MOD < 2 * FR_MOD := by decide

theorem FQ_MOD_lt_word : FQ_MOD < 2 ^ 256 := by decide

theorem FR_MOD_lt_word : FR_MOD < 2 ^ 256 := by decide

private def cert405928799 : LucasCertificate 405928799 where
  root := 22
  factors := [(2, 1), (11, 1), (3691, 1), (4999, 1)]
  checked := by decide +kernel
  primes := by norm_num

private def cert12048837557 : LucasCertificate 12048837557 where
  root := 2
  factors := [(2, 2), (7, 2), (661, 1), (93001, 1)]
  checked := by decide +kernel
  primes := by norm_num

private def cert5156902474397 : LucasCertificate 5156902474397 where
  root := 2
  factors := [(2, 2), (107, 1), (12048837557, 1)]
  checked := by decide +kernel
  primes := by
    simp only [List.forall_mem_cons]
    exact ⟨by norm_num, by norm_num, cert12048837557.prime, by simp⟩

private def cert1670836401704629 : LucasCertificate 1670836401704629 where
  root := 2
  factors := [(2, 2), (3, 4), (5156902474397, 1)]
  checked := by decide +kernel
  primes := by
    simp only [List.forall_mem_cons]
    exact ⟨by norm_num, by norm_num, cert5156902474397.prime, by simp⟩

private def cert639533339 : LucasCertificate 639533339 where
  root := 2
  factors := [(2, 1), (229, 1), (853, 1), (1637, 1)]
  checked := by decide +kernel
  primes := by norm_num

private def cert65865678001877903 : LucasCertificate 65865678001877903 where
  root := 5
  factors := [(2, 1), (83, 1), (379, 1), (1637, 1), (639533339, 1)]
  checked := by decide +kernel
  primes := by
    simp only [List.forall_mem_cons]
    exact ⟨by norm_num, by norm_num, by norm_num, by norm_num, cert639533339.prime, by simp⟩

private def cert13818364434197438864469338081 : LucasCertificate 13818364434197438864469338081 where
  root := 3
  factors := [(2, 5), (5, 1), (823, 1), (1593227, 1), (65865678001877903, 1)]
  checked := by decide +kernel
  primes := by
    simp only [List.forall_mem_cons]
    exact ⟨by norm_num, by norm_num, by norm_num, by norm_num, cert65865678001877903.prime, by simp⟩

private def cert11465965001 : LucasCertificate 11465965001 where
  root := 3
  factors := [(2, 3), (5, 4), (7, 1), (327599, 1)]
  checked := by decide +kernel
  primes := by norm_num

private def cert173171039 : LucasCertificate 173171039 where
  root := 13
  factors := [(2, 1), (73, 1), (89, 1), (13327, 1)]
  checked := by decide +kernel
  primes := by norm_num

private def cert1263766531 : LucasCertificate 1263766531 where
  root := 10
  factors := [(2, 1), (3, 1), (5, 1), (13, 1), (911, 1), (3557, 1)]
  checked := by decide +kernel
  primes := by norm_num

private def cert35385462869 : LucasCertificate 35385462869 where
  root := 2
  factors := [(2, 2), (7, 1), (1263766531, 1)]
  checked := by decide +kernel
  primes := by
    simp only [List.forall_mem_cons]
    exact ⟨by norm_num, by norm_num, cert1263766531.prime, by simp⟩

private def cert2480874801745591 : LucasCertificate 2480874801745591 where
  root := 6
  factors := [(2, 1), (3, 2), (5, 1), (19, 1), (41, 1), (35385462869, 1)]
  checked := by decide +kernel
  primes := by
    simp only [List.forall_mem_cons]
    exact ⟨by norm_num, by norm_num, by norm_num, by norm_num, by norm_num, cert35385462869.prime,
      by simp⟩

private def cert13427688667394608761327070753331941386769 :
    LucasCertificate 13427688667394608761327070753331941386769 where
  root := 17
  factors := [(2, 4), (3, 1), (7, 1), (11, 1), (1853641, 1), (4562087, 1), (173171039, 1),
    (2480874801745591, 1)]
  checked := by decide +kernel
  primes := by
    simp only [List.forall_mem_cons]
    exact ⟨by norm_num, by norm_num, by norm_num, by norm_num, by norm_num, by norm_num,
      cert173171039.prime, cert2480874801745591.prime, by simp⟩

private def certFR : LucasCertificate FR_MOD where
  root := 5
  factors := [(2, 28), (3, 2), (13, 1), (29, 1), (983, 1), (11003, 1), (237073, 1), (405928799, 1),
    (1670836401704629, 1), (13818364434197438864469338081, 1)]
  checked := by decide +kernel
  primes := by
    simp only [List.forall_mem_cons]
    exact ⟨by norm_num, by norm_num, by norm_num, by norm_num, by norm_num, by norm_num,
      by norm_num, cert405928799.prime, cert1670836401704629.prime,
      cert13818364434197438864469338081.prime, by simp⟩

theorem FR_MOD_prime : Nat.Prime FR_MOD :=
  certFR.prime

private def certFQ : LucasCertificate FQ_MOD where
  root := 3
  factors := [(2, 1), (3, 2), (13, 1), (29, 1), (67, 1), (229, 1), (311, 1), (983, 1), (11003, 1),
    (405928799, 1), (11465965001, 1), (13427688667394608761327070753331941386769, 1)]
  checked := by decide +kernel
  primes := by
    simp only [List.forall_mem_cons]
    exact ⟨by norm_num, by norm_num, by norm_num, by norm_num, by norm_num, by norm_num,
      by norm_num, by norm_num, by norm_num, cert405928799.prime, cert11465965001.prime,
      cert13427688667394608761327070753331941386769.prime, by simp⟩

theorem FQ_MOD_prime : Nat.Prime FQ_MOD :=
  certFQ.prime

instance : Fact (Nat.Prime FQ_MOD) := ⟨FQ_MOD_prime⟩

instance : Fact (Nat.Prime FR_MOD) := ⟨FR_MOD_prime⟩

end WorldZk.Bn254Moduli
