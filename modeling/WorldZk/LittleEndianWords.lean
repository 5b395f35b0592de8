import WorldZk.Transcript

/-!
# Little-endian words

`to_le_bytes` of the machine integers that the guest programs hash.
-/

namespace WorldZk.LittleEndianWords

open Transcript

/-- The low `n` bytes of a number. -/
def leDigits (n w : ℕ) : List UInt8 := (List.range n).map fun i => UInt8.ofNat (w / 256 ^ i)

def u32ToLeBytes (w : UInt32) : List UInt8 := leDigits 4 w.toNat

def u64ToLeBytes (w : UInt64) : List UInt8 := leDigits 8 w.toNat

def i64ToLeBytes (z : Int64) : List UInt8 := u64ToLeBytes z.toUInt64

theorem length_leDigits (n w : ℕ) : (leDigits n w).length = n := by
  rw [leDigits, List.length_map, List.length_range]

theorem leDigits_leValue {n : ℕ} {bytes : List UInt8} (h : bytes.length = n) :
    leDigits n (leValue bytes) = bytes := by
  subst h
  exact digits_leValue bytes

theorem leValue_leDigits {n w : ℕ} (h : w < 256 ^ n) : leValue (leDigits n w) = w :=
  (leValue_digits n w).trans (Nat.mod_eq_of_lt h)

theorem leValue_lt (bytes : List UInt8) : leValue bytes < 256 ^ bytes.length := by
  have hvalue := leValue_digits bytes.length (leValue bytes)
  rw [digits_leValue] at hvalue
  rw [hvalue]
  exact Nat.mod_lt _ (by positivity)

theorem existsUnique_u32 {bytes : List UInt8} (h : bytes.length = 4) :
    ∃! w, u32ToLeBytes w = bytes := by
  have hlt : leValue bytes < 2 ^ 32 := by
    have := leValue_lt bytes
    rwa [h] at this
  refine ⟨UInt32.ofNat (leValue bytes), ?_, fun w hw => ?_⟩
  · change leDigits 4 (UInt32.ofNat (leValue bytes)).toNat = bytes
    rw [UInt32.toNat_ofNat_of_lt' hlt, leDigits_leValue h]
  · rw [← hw, u32ToLeBytes, leValue_leDigits w.toNat_lt, UInt32.ofNat_toNat]

theorem existsUnique_u64 {bytes : List UInt8} (h : bytes.length = 8) :
    ∃! w, u64ToLeBytes w = bytes := by
  have hlt : leValue bytes < 2 ^ 64 := by
    have := leValue_lt bytes
    rwa [h] at this
  refine ⟨UInt64.ofNat (leValue bytes), ?_, fun w hw => ?_⟩
  · change leDigits 8 (UInt64.ofNat (leValue bytes)).toNat = bytes
    rw [UInt64.toNat_ofNat_of_lt' hlt, leDigits_leValue h]
  · rw [← hw, u64ToLeBytes, leValue_leDigits w.toNat_lt, UInt64.ofNat_toNat]

theorem existsUnique_i64 {bytes : List UInt8} (h : bytes.length = 8) :
    ∃! z, i64ToLeBytes z = bytes := by
  obtain ⟨w, hw, hunique⟩ := existsUnique_u64 h
  refine ⟨w.toInt64, hw, fun z hz => ?_⟩
  rw [← hunique z.toUInt64 hz]
  rfl

end WorldZk.LittleEndianWords
