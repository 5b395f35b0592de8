import Mathlib.Data.Nat.Notation

/-!
# Hex text

The texts that `hex::encode` writes and `hex::decode` reads back, as lists of characters.
-/

namespace WorldZk.HexText

def hexDigit (n : ℕ) : Char := Char.ofNat (if n < 10 then 48 + n else 87 + n)

/-- `hex::encode`. -/
def hexEncode (bytes : List UInt8) : List Char :=
  bytes.flatMap fun x => [hexDigit (x.toNat / 16), hexDigit (x.toNat % 16)]

/-- The value of a digit, of either case. -/
def hexValue (c : Char) : Option ℕ :=
  let n := c.toNat
  if 48 ≤ n ∧ n ≤ 57 then some (n - 48)
  else if 97 ≤ n ∧ n ≤ 102 then some (n - 87)
  else if 65 ≤ n ∧ n ≤ 70 then some (n - 55)
  else none

/-- `hex::decode`. -/
def hexDecode : List Char → Option (List UInt8)
  | [] => some []
  | [_] => none
  | high :: low :: rest => do
    let h ← hexValue high
    let l ← hexValue low
    let bytes ← hexDecode rest
    pure (UInt8.ofNat (16 * h + l) :: bytes)

/-- The text after an optional `0x`. -/
def stripHexPrefix : List Char → List Char
  | '0' :: 'x' :: stripped => stripped
  | text => text

private theorem hexValue_hexDigit : ∀ n < 16, hexValue (hexDigit n) = some n := by decide

theorem hexDecode_hexEncode (bytes : List UInt8) : hexDecode (hexEncode bytes) = some bytes := by
  induction bytes with
  | nil => rfl
  | cons x bytes ih =>
    have hx : x.toNat < 256 := x.toNat_lt
    have hsplit : 16 * (x.toNat / 16) + x.toNat % 16 = x.toNat := by omega
    have hcons : hexEncode (x :: bytes) =
        hexDigit (x.toNat / 16) :: hexDigit (x.toNat % 16) :: hexEncode bytes := rfl
    rw [hcons, hexDecode, hexValue_hexDigit _ (by omega), hexValue_hexDigit _ (by omega), ih]
    simp only [bind, Option.bind, pure, hsplit, UInt8.ofNat_toNat]

theorem hexEncode_injective : Function.Injective hexEncode := by
  intro bytes bytes' h
  have hdecode : some bytes = some bytes' := by
    rw [← hexDecode_hexEncode bytes, h, hexDecode_hexEncode]
  exact Option.some.inj hdecode

end WorldZk.HexText
