import Mathlib.Data.List.Lex
import Mathlib.Tactic.IntervalCases

/-!
# Padded decimal texts

The decimal digits of a number with zeros in front. Numbers that fit the width are ordered like
their texts, and so are sequences of such texts between fixed separators.
-/

namespace WorldZk.PaddedDecimals

/-! ## Texts with a common length -/

section Texts

variable {a b x y : List Char}

theorem append_lt_append_iff (h : a.length = b.length) :
    a ++ x < b ++ y ↔ a < b ∨ a = b ∧ x < y := by
  induction a generalizing b with
  | nil =>
    rw [List.eq_nil_of_length_eq_zero h.symm]
    simp
  | cons c a ih =>
    cases b with
    | nil => cases h
    | cons c' b =>
      rw [List.cons_append, List.cons_append, List.cons_lt_cons_iff, List.cons_lt_cons_iff,
        ih (Nat.succ.inj h), List.cons.injEq]
      tauto

theorem cons_lt_cons_self_iff {c : Char} : c :: x < c :: y ↔ x < y := by
  rw [List.cons_lt_cons_iff]
  simp

end Texts

/-! ## Numbers -/

/-- `{:0width}`. -/
def formatPadded (width n : ℕ) : List Char := (Nat.toDigits 10 n).leftpad width '0'

theorem formatPadded_of_lt {n : ℕ} (h : n < 10) (width : ℕ) :
    formatPadded width n = List.replicate (width - 1) '0' ++ [Nat.digitChar n] := by
  rw [formatPadded, Nat.toDigits_of_lt_base h, List.leftpad]
  rfl

theorem formatPadded_succ {width : ℕ} (hwidth : 0 < width) (n : ℕ) :
    formatPadded (width + 1) n = formatPadded width (n / 10) ++ [Nat.digitChar (n % 10)] := by
  by_cases hlt : n < 10
  · rw [formatPadded_of_lt hlt, Nat.div_eq_of_lt hlt, Nat.mod_eq_of_lt hlt,
      formatPadded_of_lt (by decide)]
    obtain ⟨k, rfl⟩ := Nat.exists_eq_succ_of_ne_zero hwidth.ne'
    rw [Nat.succ_sub_one, Nat.succ_sub_one, List.replicate_succ']
    rfl
  · rw [formatPadded, formatPadded, Nat.toDigits_of_base_le (by decide) (not_lt.mp hlt),
      List.leftpad, List.leftpad, List.length_append, List.length_singleton, Nat.add_sub_add_right,
      List.append_assoc]

theorem length_formatPadded {width : ℕ} (hwidth : 0 < width) {n : ℕ} (hn : n < 10 ^ width) :
    (formatPadded width n).length = width := by
  induction width, hwidth using Nat.le_induction generalizing n with
  | base =>
    rw [formatPadded_of_lt hn]
    rfl
  | succ width hwidth ih =>
    rw [formatPadded_succ hwidth, List.length_append,
      ih (Nat.div_lt_of_lt_mul (by rwa [Nat.pow_succ'] at hn))]
    rfl

theorem digitChar_lt_iff : ∀ m < 10, ∀ n < 10, m.digitChar < n.digitChar ↔ m < n := by
  decide

theorem formatPadded_lt_iff {width : ℕ} (hwidth : 0 < width) {m n : ℕ} (hm : m < 10 ^ width)
    (hn : n < 10 ^ width) : formatPadded width m < formatPadded width n ↔ m < n := by
  induction width, hwidth using Nat.le_induction generalizing m n with
  | base =>
    rw [formatPadded_of_lt hm, formatPadded_of_lt hn]
    change [Nat.digitChar m] < [Nat.digitChar n] ↔ m < n
    rw [List.cons_lt_cons_iff, ← digitChar_lt_iff m hm n hn]
    simp
  | succ width hwidth ih =>
    have hm' : m / 10 < 10 ^ width := Nat.div_lt_of_lt_mul (by rwa [Nat.pow_succ'] at hm)
    have hn' : n / 10 < 10 ^ width := Nat.div_lt_of_lt_mul (by rwa [Nat.pow_succ'] at hn)
    have hprefix : formatPadded width (m / 10) = formatPadded width (n / 10) ↔
        m / 10 = n / 10 := by
      refine ⟨fun heq => ?_, congrArg _⟩
      have hlt := mt (ih hm' hn').mpr (heq ▸ List.lt_irrefl _)
      have hgt := mt (ih hn' hm').mpr (heq ▸ List.lt_irrefl _)
      omega
    have hlast : [Nat.digitChar (m % 10)] < [Nat.digitChar (n % 10)] ↔ m % 10 < n % 10 := by
      rw [List.cons_lt_cons_iff,
        ← digitChar_lt_iff _ (Nat.mod_lt m (by decide)) _ (Nat.mod_lt n (by decide))]
      simp
    rw [formatPadded_succ hwidth, formatPadded_succ hwidth, append_lt_append_iff
      ((length_formatPadded hwidth hm').trans (length_formatPadded hwidth hn').symm),
      ih hm' hn', hprefix, hlast]
    omega

theorem formatPadded_inj {width : ℕ} (hwidth : 0 < width) {m n : ℕ} (hm : m < 10 ^ width)
    (hn : n < 10 ^ width) : formatPadded width m = formatPadded width n ↔ m = n := by
  refine ⟨fun heq => ?_, congrArg _⟩
  have hlt := mt (formatPadded_lt_iff hwidth hm hn).mpr (heq ▸ List.lt_irrefl _)
  have hgt := mt (formatPadded_lt_iff hwidth hn hm).mpr (heq ▸ List.lt_irrefl _)
  omega

theorem isDigit_of_mem_formatPadded {width n : ℕ} {c : Char} (h : c ∈ formatPadded width n) :
    c.isDigit := by
  rcases List.mem_append.mp h with hpad | hdigits
  · rw [List.eq_of_mem_replicate hpad]
    rfl
  · exact Nat.isDigit_of_mem_toDigits (by decide) (by decide) hdigits

end WorldZk.PaddedDecimals
