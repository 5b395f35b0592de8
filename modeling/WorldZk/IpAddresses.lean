import Mathlib.Data.List.Induction
import Mathlib.Data.Nat.Bitwise

/-!
# Internet addresses

Addresses of both versions, the texts in which they are written, and ranges of addresses. An IPv4
address has a strict text of four decimal numbers, and the looser texts of the URL standard, in
which the numbers may be fewer, octal or hexadecimal.
-/

namespace WorldZk.IpAddresses

/-! ## Numbers -/

/-- The value of a digit, of either case. -/
def digitValue (c : Char) : ℕ :=
  if c.isDigit then c.toNat - 48
  else if 97 ≤ c.toNat then c.toNat - 87
  else c.toNat - 55

def isDigitOf (radix : ℕ) (c : Char) : Bool := c.isAlphanum && decide (digitValue c < radix)

def numberValue (radix : ℕ) (digits : List Char) : ℕ :=
  digits.foldl (fun n c => radix * n + digitValue c) 0

/-! ## IPv4 -/

structure Ipv4Addr where
  a : ℕ
  b : ℕ
  c : ℕ
  d : ℕ
deriving DecidableEq, Repr

def Ipv4Addr.value (ip : Ipv4Addr) : ℕ := ip.a * 2 ^ 24 + ip.b * 2 ^ 16 + ip.c * 2 ^ 8 + ip.d

def Ipv4Addr.ofValue (n : ℕ) : Ipv4Addr :=
  ⟨n / 2 ^ 24 % 256, n / 2 ^ 16 % 256, n / 2 ^ 8 % 256, n % 256⟩

/-- The four numbers are bytes. -/
structure Ipv4Addr.Valid (ip : Ipv4Addr) : Prop where
  a_lt : ip.a < 256
  b_lt : ip.b < 256
  c_lt : ip.c < 256
  d_lt : ip.d < 256

/-- Up to three digits without leading zeros. -/
def parseOctet (text : List Char) : Option ℕ :=
  if text ≠ [] ∧ text.length ≤ 3 ∧ text.all (isDigitOf 10) ∧
      (text.head? = some '0' → text = ['0']) ∧ numberValue 10 text < 256 then
    some (numberValue 10 text)
  else none

/-- The strict text. -/
def parseIpv4 (text : List Char) : Option Ipv4Addr :=
  match text.splitOn '.' with
  | [a, b, c, d] => do
    let a ← parseOctet a
    let b ← parseOctet b
    let c ← parseOctet c
    let d ← parseOctet d
    some ⟨a, b, c, d⟩
  | _ => none

/-- A number of the URL standard: hexadecimal after `0x`, octal after `0`, else decimal. -/
def parseIpv4Number (text : List Char) : Option ℕ :=
  let (radix, digits) := match text with
    | '0' :: 'x' :: digits => (16, digits)
    | '0' :: 'X' :: digits => (16, digits)
    | '0' :: c :: digits => (8, c :: digits)
    | digits => (10, digits)
  if text ≠ [] ∧ digits.all (isDigitOf radix) then some (numberValue radix digits) else none

/-- The parts of a name, without an empty one after a final dot. -/
def dotParts (text : List Char) : List (List Char) :=
  let parts := text.splitOn '.'
  if parts.getLast? = some [] ∧ 1 < parts.length then parts.dropLast else parts

/-- Whether a name has to be an IPv4 address. -/
def endsInNumber (text : List Char) : Bool :=
  match (dotParts text).getLast? with
  | some part => decide (part ≠ []) && (part.all Char.isDigit || (parseIpv4Number part).isSome)
  | none => false

/-- The last number fills what the others leave, which have a byte each. -/
def looseValue : ℕ → List ℕ → ℕ
  | _, [] => 0
  | _, [last] => last
  | k, n :: numbers => n * 256 ^ k + looseValue (k - 1) numbers

/-- The looser texts: up to four numbers. -/
def parseLooseIpv4 (text : List Char) : Option Ipv4Addr := do
  let numbers ← (dotParts text).mapM parseIpv4Number
  let last ← numbers.getLast?
  if numbers.length ≤ 4 ∧ numbers.dropLast.all (· < 256) ∧ last < 256 ^ (5 - numbers.length) then
    some (.ofValue (looseValue 3 numbers))
  else none

/-! ## IPv6 -/

/-- The eight groups of sixteen bits. -/
abbrev Ipv6Addr : Type := List ℕ

def parseGroup (text : List Char) : Option ℕ :=
  if text ≠ [] ∧ text.length ≤ 4 ∧ text.all (isDigitOf 16) then some (numberValue 16 text) else none

/-- Groups, of which the last two may be written as an IPv4 address. -/
def parseGroups : List (List Char) → Option (List ℕ)
  | [] => some []
  | [last] =>
    match parseIpv4 last with
    | some ip => some [ip.a * 256 + ip.b, ip.c * 256 + ip.d]
    | none => (parseGroup last).map fun group => [group]
  | text :: texts => do
    let group ← parseGroup text
    let groups ← parseGroups texts
    some (group :: groups)

/-- One side of `::`. -/
def parseSide (text : List Char) : Option (List ℕ) :=
  if text = [] then some [] else parseGroups (text.splitOn ':')

/-- Before and after the first `::`. -/
def cutColons : List Char → Option (List Char × List Char)
  | ':' :: ':' :: rest => some ([], rest)
  | c :: rest => (cutColons rest).map fun sides => (c :: sides.1, sides.2)
  | [] => none

/-- `::` stands for one group of zeros at least, and no IPv4 address precedes it. -/
def parseIpv6 (text : List Char) : Option Ipv6Addr :=
  match cutColons text with
  | none => do
    let groups ← parseGroups (text.splitOn ':')
    if groups.length = 8 then some groups else none
  | some (head, tail) => do
    let front ← parseSide head
    let back ← parseSide tail
    if '.' ∉ head ∧ front.length + back.length ≤ 7 then
      some (front ++ List.replicate (8 - (front.length + back.length)) 0 ++ back)
    else none

inductive IpAddr
  | v4 (ip : Ipv4Addr)
  | v6 (ip : Ipv6Addr)
deriving DecidableEq, Repr

/-- `str::parse::<IpAddr>`. -/
def parseIpAddr (text : List Char) : Option IpAddr :=
  match parseIpv4 text with
  | some ip => some (.v4 ip)
  | none => (parseIpv6 text).map .v6

/-! ## Strict texts -/

section Texts

variable {text : List Char} {ip : Ipv4Addr}

theorem mem_splitOn {sep c : Char} (h : c ∈ text) :
    c = sep ∨ ∃ part ∈ text.splitOn sep, c ∈ part := by
  induction text with
  | nil => cases h
  | cons x text ih =>
    rw [List.splitOn_cons_eq_if_modifyHead]
    by_cases hx : x = sep
    · rw [if_pos (beq_iff_eq.mpr hx)]
      rcases List.mem_cons.mp h with rfl | h
      · exact .inl hx
      · refine (ih h).imp_right ?_
        rintro ⟨part, hpart, hc⟩
        exact ⟨part, List.mem_cons_of_mem _ hpart, hc⟩
    · rw [if_neg (by simpa using hx)]
      obtain ⟨first, parts, hparts⟩ := List.exists_cons_of_ne_nil (List.splitOn_ne_nil sep text)
      rw [hparts] at ih ⊢
      rcases List.mem_cons.mp h with rfl | h
      · exact .inr ⟨c :: first, List.mem_cons_self, List.mem_cons_self⟩
      · refine (ih h).imp_right ?_
        rintro ⟨part, hpart, hc⟩
        rcases List.mem_cons.mp hpart with rfl | hpart
        · exact ⟨x :: part, List.mem_cons_self, List.mem_cons_of_mem _ hc⟩
        · exact ⟨part, List.mem_cons_of_mem _ hpart, hc⟩

theorem isDigit_of_isDigitOf {c : Char} (h : isDigitOf 10 c = true) : c.isDigit = true := by
  by_contra hdigit
  rw [isDigitOf, Bool.and_eq_true, decide_eq_true_eq, digitValue, if_neg hdigit] at h
  obtain ⟨halpha, hvalue⟩ := h
  change ((decide (c.val ≥ 'A'.val ∧ c.val ≤ 'Z'.val) || c.val ≥ 'a'.val && c.val ≤ 'z'.val) ||
    c.isDigit) = true at halpha
  simp only [hdigit, Bool.or_false, Bool.or_eq_true, Bool.and_eq_true, decide_eq_true_eq]
    at halpha
  simp only [UInt32.le_iff_toNat_le, ge_iff_le] at halpha
  have hn : c.val.toNat = c.toNat := rfl
  have hA : 'A'.val.toNat = 65 := rfl
  have hZ : 'Z'.val.toNat = 90 := rfl
  have ha : 'a'.val.toNat = 97 := rfl
  have hz : 'z'.val.toNat = 122 := rfl
  split at hvalue <;> omega

theorem parseIpv4Number_of_digits (hne : text ≠ []) (hdigits : text.all (isDigitOf 10) = true)
    (hzero : text.head? = some '0' → text = ['0']) :
    parseIpv4Number text = some (numberValue 10 text) := by
  cases text with
  | nil => exact absurd rfl hne
  | cons c rest =>
    by_cases hc : c = '0'
    · subst hc
      rw [hzero rfl]
      rfl
    · simp [parseIpv4Number, hc, hdigits]

theorem parseOctet_eq_some {n : ℕ} (h : parseOctet text = some n) :
    text ≠ [] ∧ text.all Char.isDigit = true ∧ parseIpv4Number text = some n ∧ n < 256 := by
  unfold parseOctet at h
  split at h
  case isFalse => cases h
  case isTrue hoctet =>
    obtain ⟨hne, -, hdigits, hzero, hlt⟩ := hoctet
    cases h
    exact ⟨hne, List.all_eq_true.mpr fun c hc =>
      isDigit_of_isDigitOf (List.all_eq_true.mp hdigits c hc),
      parseIpv4Number_of_digits hne hdigits hzero, hlt⟩

theorem parseIpv4_eq_some (h : parseIpv4 text = some ip) :
    ∃ a b c d, text.splitOn '.' = [a, b, c, d] ∧ parseOctet a = some ip.a ∧
      parseOctet b = some ip.b ∧ parseOctet c = some ip.c ∧ parseOctet d = some ip.d := by
  unfold parseIpv4 at h
  split at h
  case h_2 => cases h
  case h_1 a b c d hparts =>
    obtain ⟨a', ha, h⟩ := Option.bind_eq_some_iff.mp h
    obtain ⟨b', hb, h⟩ := Option.bind_eq_some_iff.mp h
    obtain ⟨c', hc, h⟩ := Option.bind_eq_some_iff.mp h
    obtain ⟨d', hd, h⟩ := Option.bind_eq_some_iff.mp h
    cases h
    exact ⟨a, b, c, d, hparts, ha, hb, hc, hd⟩

theorem valid_of_parseIpv4 (h : parseIpv4 text = some ip) : ip.Valid := by
  obtain ⟨a, b, c, d, -, ha, hb, hc, hd⟩ := parseIpv4_eq_some h
  exact ⟨(parseOctet_eq_some ha).2.2.2, (parseOctet_eq_some hb).2.2.2,
    (parseOctet_eq_some hc).2.2.2, (parseOctet_eq_some hd).2.2.2⟩

theorem digit_or_dot_of_parseIpv4 (h : parseIpv4 text = some ip) {c : Char} (hc : c ∈ text) :
    c.isDigit = true ∨ c = '.' := by
  obtain ⟨w, x, y, z, hparts, hw, hx, hy, hz⟩ := parseIpv4_eq_some h
  rcases @mem_splitOn text '.' c hc with rfl | ⟨part, hpart, hmem⟩
  · exact .inr rfl
  · rw [hparts] at hpart
    have hdigits : part.all Char.isDigit = true := by
      simp only [List.mem_cons, List.not_mem_nil, or_false] at hpart
      rcases hpart with rfl | rfl | rfl | rfl
      · exact (parseOctet_eq_some hw).2.1
      · exact (parseOctet_eq_some hx).2.1
      · exact (parseOctet_eq_some hy).2.1
      · exact (parseOctet_eq_some hz).2.1
    exact .inl (List.all_eq_true.mp hdigits c hmem)

theorem ofValue_value (h : ip.Valid) : Ipv4Addr.ofValue ip.value = ip := by
  obtain ⟨ha, hb, hc, hd⟩ := h
  obtain ⟨a, b, c, d⟩ := ip
  simp only [Ipv4Addr.ofValue, Ipv4Addr.value, Ipv4Addr.mk.injEq] at ha hb hc hd ⊢
  omega

theorem dotParts_of_parseIpv4 (h : parseIpv4 text = some ip) :
    ∃ a b c d, dotParts text = [a, b, c, d] ∧ parseOctet a = some ip.a ∧
      parseOctet b = some ip.b ∧ parseOctet c = some ip.c ∧ parseOctet d = some ip.d := by
  obtain ⟨a, b, c, d, hparts, ha, hb, hc, hd⟩ := parseIpv4_eq_some h
  refine ⟨a, b, c, d, ?_, ha, hb, hc, hd⟩
  simp only [dotParts, hparts]
  exact if_neg fun hempty => (parseOctet_eq_some hd).1 (Option.some.inj hempty.1)

theorem endsInNumber_of_parseIpv4 (h : parseIpv4 text = some ip) : endsInNumber text = true := by
  obtain ⟨a, b, c, d, hparts, -, -, -, hd⟩ := dotParts_of_parseIpv4 h
  obtain ⟨hne, hdigits, -, -⟩ := parseOctet_eq_some hd
  simp only [endsInNumber, hparts, List.getLast?_cons_cons, List.getLast?_singleton, hdigits,
    decide_eq_true hne, Bool.true_or, Bool.and_true]

theorem parseLooseIpv4_of_parseIpv4 (h : parseIpv4 text = some ip) :
    parseLooseIpv4 text = some ip := by
  have hvalid := valid_of_parseIpv4 h
  obtain ⟨a, b, c, d, hparts, ha, hb, hc, hd⟩ := dotParts_of_parseIpv4 h
  have hnumbers : (dotParts text).mapM parseIpv4Number = some [ip.a, ip.b, ip.c, ip.d] := by
    simp only [hparts, List.mapM_cons, List.mapM_nil, (parseOctet_eq_some ha).2.2.1,
      (parseOctet_eq_some hb).2.2.1, (parseOctet_eq_some hc).2.2.1, (parseOctet_eq_some hd).2.2.1]
    rfl
  have hvalue : looseValue 3 [ip.a, ip.b, ip.c, ip.d] = ip.value := by
    simp only [looseValue, Ipv4Addr.value]
    omega
  obtain ⟨hlta, hltb, hltc, hltd⟩ := hvalid
  rw [parseLooseIpv4, hnumbers]
  change (if _ then some (Ipv4Addr.ofValue (looseValue 3 [ip.a, ip.b, ip.c, ip.d])) else none) = _
  rw [if_pos ⟨Nat.le_refl 4, by simp [hlta, hltb, hltc], by simpa using hltd⟩, hvalue,
    ofValue_value ⟨hlta, hltb, hltc, hltd⟩]

/-- The characters of an IPv6 text. -/
def IsIpv6Char (c : Char) : Prop := c = ':' ∨ c = '.' ∨ isDigitOf 16 c = true

theorem toNat_le_of_isDigit {c : Char} (h : c.isDigit = true) : c.toNat ≤ 57 := by
  rw [Char.isDigit, Bool.and_eq_true, decide_eq_true_eq, decide_eq_true_eq] at h
  exact UInt32.le_iff_toNat_le.mp h.2

theorem isDigitOf_of_isDigit {c : Char} (h : c.isDigit = true) : isDigitOf 16 c = true := by
  have hvalue : c.toNat - 48 < 16 := by
    have hle := toNat_le_of_isDigit h
    omega
  rw [isDigitOf, digitValue, if_pos h, decide_eq_true hvalue, Char.isAlphanum, h, Bool.or_true,
    Bool.and_true]

theorem isIpv6Char_of_parseGroup {n : ℕ} (h : parseGroup text = some n) {c : Char}
    (hc : c ∈ text) : IsIpv6Char c := by
  unfold parseGroup at h
  split at h
  case isTrue hgroup => exact .inr (.inr (List.all_eq_true.mp hgroup.2.2 c hc))
  case isFalse => cases h

theorem parseGroups_eq_some {texts : List (List Char)} {groups : List ℕ}
    (h : parseGroups texts = some groups) :
    groups.length ≤ texts.length + 1 ∧ ∀ text ∈ texts, ∀ c ∈ text, IsIpv6Char c := by
  induction texts generalizing groups with
  | nil =>
    cases h
    exact ⟨Nat.zero_le _, nofun⟩
  | cons first texts ih =>
    cases texts with
    | nil =>
      simp only [parseGroups] at h
      split at h
      case h_1 ip hip =>
        cases h
        refine ⟨le_refl 2, fun text htext c hc => ?_⟩
        rw [List.mem_singleton.mp htext] at hc
        rcases digit_or_dot_of_parseIpv4 hip hc with hdigit | hdot
        · exact .inr (.inr (isDigitOf_of_isDigit hdigit))
        · exact .inr (.inl hdot)
      case h_2 =>
        obtain ⟨group, hgroup, hgroups⟩ := Option.map_eq_some_iff.mp h
        rw [← hgroups]
        refine ⟨Nat.le_succ 1, fun text htext c hc => ?_⟩
        rw [List.mem_singleton.mp htext] at hc
        exact isIpv6Char_of_parseGroup hgroup hc
    | cons second texts =>
      rw [parseGroups] at h
      obtain ⟨group, hgroup, h⟩ := Option.bind_eq_some_iff.mp h
      obtain ⟨rest, hrest, h⟩ := Option.bind_eq_some_iff.mp h
      cases h
      obtain ⟨hlength, hchars⟩ := ih hrest
      refine ⟨Nat.succ_le_succ hlength, fun text htext c hc => ?_⟩
      rcases List.mem_cons.mp htext with rfl | htext
      · exact isIpv6Char_of_parseGroup hgroup hc
      · exact hchars text htext c hc
      · exact nofun

theorem isIpv6Char_of_splitOn {groups : List ℕ}
    (h : parseGroups (text.splitOn ':') = some groups) {c : Char} (hc : c ∈ text) :
    IsIpv6Char c := by
  rcases @mem_splitOn text ':' c hc with hcolon | ⟨part, hpart, hmem⟩
  · exact .inl hcolon
  · exact (parseGroups_eq_some h).2 part hpart c hmem

theorem isIpv6Char_of_parseSide {groups : List ℕ} (h : parseSide text = some groups) {c : Char}
    (hc : c ∈ text) : IsIpv6Char c := by
  unfold parseSide at h
  split at h
  case isTrue hempty =>
    rw [hempty] at hc
    cases hc
  case isFalse => exact isIpv6Char_of_splitOn h hc

theorem cutColons_eq_some {head tail : List Char} (h : cutColons text = some (head, tail)) :
    text = head ++ ':' :: ':' :: tail := by
  induction text using cutColons.induct generalizing head with
  | case1 rest =>
    cases h
    rfl
  | case2 c rest hne ih =>
    rw [cutColons] at h
    · obtain ⟨⟨head', tail'⟩, hrest, hsides⟩ := Option.map_eq_some_iff.mp h
      cases hsides
      rw [ih hrest, List.cons_append]
    · exact hne
  | case3 => cases h

theorem isIpv6Char_of_parseIpv6 {ip : Ipv6Addr} (h : parseIpv6 text = some ip) {c : Char}
    (hc : c ∈ text) : IsIpv6Char c := by
  unfold parseIpv6 at h
  split at h
  case h_1 =>
    obtain ⟨groups, hgroups, -⟩ := Option.bind_eq_some_iff.mp h
    exact isIpv6Char_of_splitOn hgroups hc
  case h_2 head tail hcut =>
    obtain ⟨front, hfront, h⟩ := Option.bind_eq_some_iff.mp h
    obtain ⟨back, hback, -⟩ := Option.bind_eq_some_iff.mp h
    rw [cutColons_eq_some hcut] at hc
    rcases List.mem_append.mp hc with hc | hc
    · exact isIpv6Char_of_parseSide hfront hc
    · rcases List.mem_cons.mp hc with rfl | hc
      · exact .inl rfl
      · rcases List.mem_cons.mp hc with rfl | hc
        · exact .inl rfl
        · exact isIpv6Char_of_parseSide hback hc

theorem colon_mem_of_parseIpv6 {ip : Ipv6Addr} (h : parseIpv6 text = some ip) : ':' ∈ text := by
  unfold parseIpv6 at h
  split at h
  case h_1 =>
    obtain ⟨groups, hgroups, h⟩ := Option.bind_eq_some_iff.mp h
    by_contra hcolon
    rw [List.splitOn_eq_singleton hcolon] at hgroups
    have hlength := (parseGroups_eq_some hgroups).1
    split at h
    case isTrue height =>
      rw [height, List.length_singleton] at hlength
      exact absurd hlength (Nat.not_le.mpr (by omega))
    case isFalse => cases h
  case h_2 head tail hcut =>
    rw [cutColons_eq_some hcut]
    exact List.mem_append_right _ List.mem_cons_self

theorem parseIpv4_eq_none_of_parseIpv6 {ip : Ipv6Addr} (h : parseIpv6 text = some ip) :
    parseIpv4 text = none := by
  cases h4 : parseIpv4 text with
  | none => rfl
  | some ip4 =>
    rcases digit_or_dot_of_parseIpv4 h4 (colon_mem_of_parseIpv6 h) with hdigit | hdot
    · exact absurd hdigit (by decide)
    · exact absurd hdot (by decide)

/-- Eight groups of sixteen bits. -/
structure Ipv6Addr.Valid (ip : Ipv6Addr) : Prop where
  length_eq : ip.length = 8
  lt : ∀ group ∈ ip, group < 2 ^ 16

theorem numberValue_lt {radix : ℕ} (h : text.all (isDigitOf radix) = true) :
    numberValue radix text < radix ^ text.length := by
  induction text using List.reverseRecOn with
  | nil => exact Nat.one_pos
  | append_singleton text c ih =>
    rw [List.all_append, Bool.and_eq_true] at h
    have hrest := ih h.1
    have hdigit : digitValue c < radix := by
      rw [List.all_cons, Bool.and_eq_true, isDigitOf, Bool.and_eq_true] at h
      exact of_decide_eq_true h.2.1.2
    rw [numberValue, List.foldl_append, List.length_append, List.length_singleton, pow_succ']
    change radix * numberValue radix text + digitValue c < radix * radix ^ text.length
    have hmul : radix * (numberValue radix text + 1) ≤ radix * radix ^ text.length :=
      Nat.mul_le_mul_left radix hrest
    rw [Nat.mul_add, Nat.mul_one] at hmul
    omega

theorem lt_of_parseGroup {n : ℕ} (h : parseGroup text = some n) : n < 2 ^ 16 := by
  unfold parseGroup at h
  split at h
  case isTrue hgroup =>
    cases h
    have hlt := numberValue_lt hgroup.2.2
    have hpow : 16 ^ text.length ≤ 16 ^ 4 := Nat.pow_le_pow_right (by decide) hgroup.2.1
    omega
  case isFalse => cases h

theorem lt_of_parseGroups {texts : List (List Char)} {groups : List ℕ}
    (h : parseGroups texts = some groups) : ∀ group ∈ groups, group < 2 ^ 16 := by
  induction texts generalizing groups with
  | nil =>
    cases h
    exact nofun
  | cons first texts ih =>
    cases texts with
    | nil =>
      simp only [parseGroups] at h
      split at h
      case h_1 ip hip =>
        cases h
        obtain ⟨ha, hb, hc, hd⟩ := valid_of_parseIpv4 hip
        intro group hgroup
        rcases List.mem_cons.mp hgroup with rfl | hgroup
        · omega
        · rw [List.mem_singleton.mp hgroup]
          omega
      case h_2 =>
        obtain ⟨group, hgroup, hgroups⟩ := Option.map_eq_some_iff.mp h
        rw [← hgroups]
        intro n hn
        rw [List.mem_singleton.mp hn]
        exact lt_of_parseGroup hgroup
    | cons second texts =>
      rw [parseGroups] at h
      obtain ⟨group, hgroup, h⟩ := Option.bind_eq_some_iff.mp h
      obtain ⟨rest, hrest, h⟩ := Option.bind_eq_some_iff.mp h
      cases h
      intro n hn
      rcases List.mem_cons.mp hn with rfl | hn
      · exact lt_of_parseGroup hgroup
      · exact ih hrest n hn
      · exact nofun

theorem lt_of_parseSide {groups : List ℕ} (h : parseSide text = some groups) :
    ∀ group ∈ groups, group < 2 ^ 16 := by
  unfold parseSide at h
  split at h
  case isTrue =>
    cases h
    exact nofun
  case isFalse => exact lt_of_parseGroups h

theorem valid_of_parseIpv6 {ip : Ipv6Addr} (h : parseIpv6 text = some ip) : ip.Valid := by
  unfold parseIpv6 at h
  split at h
  case h_1 =>
    obtain ⟨groups, hgroups, h⟩ := Option.bind_eq_some_iff.mp h
    split at h
    case isTrue hlength =>
      cases h
      exact ⟨hlength, lt_of_parseGroups hgroups⟩
    case isFalse => cases h
  case h_2 head tail hcut =>
    obtain ⟨front, hfront, h⟩ := Option.bind_eq_some_iff.mp h
    obtain ⟨back, hback, h⟩ := Option.bind_eq_some_iff.mp h
    split at h
    case isTrue hlength =>
      cases h
      refine ⟨?_, fun group hgroup => ?_⟩
      · have hle := hlength.2
        simp only [List.length_append, List.length_replicate]
        omega
      · simp only [List.mem_append, List.mem_replicate] at hgroup
        rcases hgroup with (hgroup | ⟨-, rfl⟩) | hgroup
        · exact lt_of_parseSide hfront group hgroup
        · exact Nat.two_pow_pos 16
        · exact lt_of_parseSide hback group hgroup
    case isFalse => cases h

end Texts

/-! ## Ranges -/

/-- The addresses that share their first bits with the network. -/
structure Network where
  address : ℕ
  bits : ℕ

def Network.Contains (width : ℕ) (network : Network) (address : ℕ) : Prop :=
  address / 2 ^ (width - network.bits) = network.address / 2 ^ (width - network.bits)

def Ipv6Addr.value (ip : Ipv6Addr) : ℕ := ip.foldl (fun n group => 2 ^ 16 * n + group) 0

theorem and_highMask (x m k : ℕ) : x &&& ((2 ^ m - 1) <<< k) = x / 2 ^ k % 2 ^ m * 2 ^ k := by
  have hshift : x &&& ((2 ^ m - 1) <<< k) = ((x >>> k) &&& (2 ^ m - 1)) <<< k := by
    refine Nat.eq_of_testBit_eq fun i => ?_
    simp only [Nat.testBit_and, Nat.testBit_shiftLeft, Nat.testBit_shiftRight]
    by_cases hi : k ≤ i
    · rw [Nat.add_sub_cancel' hi]
      simp [hi]
    · simp [hi]
  rw [hshift, Nat.and_two_pow_sub_one_eq_mod, Nat.shiftRight_eq_div_pow, Nat.shiftLeft_eq]

end WorldZk.IpAddresses
