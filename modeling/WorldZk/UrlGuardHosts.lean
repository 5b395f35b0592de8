import WorldZk.UrlGuard

/-!
# The hosts that the URL guard lets through

The guard and the URL parser each cut a host out of the text. This file compares the two, and says
for which URLs a host that the guard accepts is not a blocked one.
-/

namespace WorldZk.UrlGuardHosts

open IpAddresses StandardHosts UrlGuard

/-! ## What is wanted -/

/-- A name without its final dot. -/
def withoutDot (name : List Char) : List Char :=
  if name.getLast? = some '.' then name.dropLast else name

def BlockedName (name : List Char) : Prop :=
  lowerAscii (withoutDot name) ∈ BLOCKED_HOSTNAMES ∨
    ∃ suffix ∈ BLOCKED_HOSTNAME_SUFFIXES, suffix <:+ lowerAscii (withoutDot name)

def Blocked : Host → Prop
  | .domain name => BlockedName name
  | .ip address => BlockedIp address

variable (toLowercase : List Char → List Char) (domainToAscii : List Char → Option (List Char))

/-- When the guard accepts the URL, the host that the parser finds in it is not blocked. -/
def HostAllowed (url : List Char) : Prop :=
  validateUrlSsrf toLowercase url = .ok () →
    ∀ host, standardHost domainToAscii url = some host → ¬ Blocked host

/-! ## Spellings -/

def IsAscii (text : List Char) : Prop := ∀ c ∈ text, c.toNat < 128

/-- What is used of `to_lowercase`. -/
structure Lowercases : Prop where
  ascii : ∀ text, IsAscii text → toLowercase text = lowerAscii text
  colon : ∀ text, ':' ∈ text → ':' ∈ toLowercase text

/-- The authority has no backslash, which the parser takes for a slash. -/
def NoBackslash (url : List Char) : Prop :=
  ∀ scheme rest, splitScheme (trim url) = some (scheme, rest) → '\\' ∉ guardAuthority rest

/-- The text of the host is in brackets, or it is what the parser makes of it up to the case of the
letters, with no final dot, and with strict numbers if it is an IPv4 address. -/
def PlainHost (text : List Char) : Prop :=
  text.head? = some '[' ∨ ∀ name, domainToAscii text = some name →
    IsAscii text ∧ name = lowerAscii text ∧
      if endsInNumber name then (parseIpv4 text).isSome = true else name.getLast? ≠ some '.'

/-- The tests of the guard on a host that the parser has found. -/
def passes : Host → Bool
  | .domain name => !isPrivateHostname toLowercase (withoutDot name)
  | .ip address => !isPrivateIp address

/-- The host is spelled plainly, or the guard would have nothing against what is spelled. -/
def WellSpelled (url : List Char) : Prop :=
  ∀ text, hostText url = some text →
    (NoBackslash url ∧ PlainHost domainToAscii text) ∨
      ∀ host, parseHost domainToAscii text = some host → passes toLowercase host = true

/-! ## Cutting texts -/

section Texts

variable {p q : Char → Bool} {text rest : List Char}

theorem rdropWhile_append (xs ys : List Char) : (xs ++ ys).rdropWhile p =
    if ys.rdropWhile p = [] then xs.rdropWhile p else xs ++ ys.rdropWhile p := by
  simp only [List.rdropWhile, List.reverse_append, List.dropWhile_append, List.reverse_eq_nil_iff,
    List.isEmpty_iff]
  split
  · rfl
  · rw [List.reverse_append, List.reverse_reverse]

theorem rtakeWhile_append_of_all {xs ys : List Char} (h : ∀ c ∈ ys, p c = true) :
    (xs ++ ys).rtakeWhile p = xs.rtakeWhile p ++ ys := by
  have hreverse : ∀ c ∈ ys.reverse, p c = true := fun c hc => h c (List.mem_reverse.mp hc)
  rw [List.rtakeWhile, List.reverse_append, List.takeWhile_append_of_pos hreverse,
    List.reverse_append, List.reverse_reverse]
  rfl

theorem takeWhile_eq_of_all (himp : ∀ c, q c = true → p c = true)
    (hall : ∀ c ∈ text.takeWhile p, q c = true) : text.takeWhile q = text.takeWhile p := by
  induction text with
  | nil => rfl
  | cons c text ih =>
    cases hp : p c with
    | true =>
      rw [List.takeWhile_cons_of_pos hp] at hall ⊢
      rw [List.takeWhile_cons_of_pos (hall c List.mem_cons_self)]
      rw [ih fun c hc => hall c (List.mem_cons_of_mem _ hc)]
    | false =>
      have hq : ¬ q c = true := fun hq => by
        rw [himp c hq] at hp
        cases hp
      rw [List.takeWhile_cons_of_neg hq, List.takeWhile_cons_of_neg (by rw [hp]; nofun)]

theorem takeWhile_append_cons {c : Char} (h : c ∉ text) :
    (text ++ c :: rest).takeWhile (· ≠ c) = text := by
  rw [List.takeWhile_append_of_pos]
  · simp
  · intro x hx
    exact decide_eq_true fun hxc => h (hxc ▸ hx)

theorem takeWhile_append_of_mem {c : Char} (h : c ∈ text) :
    (text ++ rest).takeWhile (· ≠ c) = text.takeWhile (· ≠ c) := by
  obtain ⟨before, after, rfl, hbefore⟩ := List.eq_append_cons_of_mem h
  rw [List.append_assoc, List.cons_append, takeWhile_append_cons hbefore,
    takeWhile_append_cons hbefore]

end Texts

/-! ## What both see of a URL -/

section Inputs

variable {url text : List Char} {c : Char}

theorem trim_spec (url : List Char) : ∃ before after, url = before ++ trim url ++ after ∧
    (∀ c ∈ before, isWhitespace c = true) ∧ ∀ c ∈ after, isWhitespace c = true := by
  refine ⟨url.takeWhile isWhitespace, (url.dropWhile isWhitespace).rtakeWhile isWhitespace, ?_,
    fun c hc => List.mem_takeWhile_imp hc, fun c hc => List.mem_rtakeWhile_imp hc⟩
  rw [trim, List.append_assoc, List.rdropWhile_append_rtakeWhile, List.takeWhile_append_dropWhile]

theorem isWhitespace_head_trim (h : trim url ≠ []) : isWhitespace ((trim url).head h) = false := by
  have htrim : trim url <+: url.dropWhile isWhitespace := List.rdropWhile_prefix _ _
  rw [htrim.head h]
  exact List.head_dropWhile_not _ _

theorem isWhitespace_getLast_trim (h : trim url ≠ []) :
    isWhitespace ((trim url).getLast h) = false :=
  Bool.eq_false_iff.mpr (List.rdropWhile_last_not _ _ h)

theorem le_toNat_of_isWhitespace (h : isWhitespace c = true) (hc : isC0OrSpace c = false) :
    128 ≤ c.toNat := by
  simp only [isWhitespace, decide_eq_true_eq] at h
  simp only [isC0OrSpace, decide_eq_false_iff_not] at hc
  omega

theorem isC0OrSpace_eq_false (hspace : isWhitespace c = false) (hcontrol : isControl c = false) :
    isC0OrSpace c = false := by
  simp only [isWhitespace, decide_eq_false_iff_not] at hspace
  simp only [isControl, decide_eq_false_iff_not] at hcontrol
  simp only [isC0OrSpace, decide_eq_false_iff_not]
  omega

theorem isTabOrNewline_eq_false (h : isC0OrSpace c = false ∨ isControl c = false) :
    isTabOrNewline c = false := by
  simp only [isTabOrNewline, decide_eq_false_iff_not]
  rintro (rfl | rfl | rfl) <;> rcases h with h | h <;> exact absurd h (by decide)

theorem toLower_eq_self (h : c.toNat < 65 ∨ 90 < c.toNat) : c.toLower = c := by
  refine dif_neg fun hupper => ?_
  have hle : 65 ≤ c.toNat := UInt32.le_iff_toNat_le.mp hupper.1
  have hge : c.toNat ≤ 90 := UInt32.le_iff_toNat_le.mp hupper.2
  omega

theorem toNat_toLower (hle : 65 ≤ c.toNat) (hge : c.toNat ≤ 90) :
    c.toLower.toNat = c.toNat + 32 := by
  have hupper : c.val ≥ 'A'.val ∧ c.val ≤ 'Z'.val :=
    ⟨UInt32.le_iff_toNat_le.mpr hle, UInt32.le_iff_toNat_le.mpr hge⟩
  have hlower : c.toLower = ⟨c.val + 32, _⟩ := dif_pos hupper
  rw [hlower]
  change (c.val + 32).toNat = c.toNat + 32
  rw [UInt32.toNat_add]
  exact Nat.mod_eq_of_lt (Nat.lt_of_le_of_lt (Nat.add_le_add_right hge 32) (by decide))

theorem toLower_toLower (c : Char) : c.toLower.toLower = c.toLower := by
  by_cases h : c.toNat < 65 ∨ 90 < c.toNat
  · rw [toLower_eq_self h, toLower_eq_self h]
  · refine toLower_eq_self (.inr ?_)
    rw [toNat_toLower (by omega) (by omega)]
    omega

theorem lowerAscii_lowerAscii (text : List Char) :
    lowerAscii (lowerAscii text) = lowerAscii text := by
  rw [lowerAscii, lowerAscii, List.map_map]
  exact List.map_congr_left fun c _ => toLower_toLower c

theorem isAscii_lowerAscii (h : IsAscii text) : IsAscii (lowerAscii text) := by
  intro lower hlower
  obtain ⟨c, hc, rfl⟩ := List.mem_map.mp hlower
  have hascii := h c hc
  by_cases hupper : c.toNat < 65 ∨ 90 < c.toNat
  · rw [toLower_eq_self hupper]
    exact hascii
  · rw [toNat_toLower (by omega) (by omega)]
    omega

theorem afterScheme_eq_none (h : isWhitespace c = true) (hc : isC0OrSpace c = false) :
    afterScheme (c :: text) = none := by
  have hascii := le_toNat_of_isWhitespace h hc
  have hcolon : c ≠ ':' := by
    rintro rfl
    exact absurd h (by decide)
  refine if_neg fun hscheme => ?_
  have hlower := hscheme.2
  rw [List.takeWhile_cons_of_pos (by simpa using hcolon), lowerAscii, List.map_cons] at hlower
  have hh : c.toLower = 'h' := by
    simp only [webSchemes, List.mem_cons, List.not_mem_nil, or_false] at hlower
    rcases hlower with hlower | hlower
    · exact (List.cons.inj hlower).1
    · exact (List.cons.inj hlower).1
  rw [toLower_eq_self (.inr (by omega))] at hh
  rw [hh] at hascii
  exact absurd hascii (by decide)

theorem rdropWhile_cons {p : Char → Bool} (h : p c = false) :
    (c :: text).rdropWhile p = c :: text.rdropWhile p := by
  have hsingle : [c].rdropWhile p = [c] := by
    rw [List.rdropWhile_singleton, h, if_neg Bool.false_ne_true]
  have happend := @rdropWhile_append p [c] text
  rw [List.singleton_append, hsingle] at happend
  rw [happend]
  split
  case isTrue hempty => rw [hempty]
  case isFalse => rfl

theorem dropWhile_eq_nil_of_scheme {before afterColon : List Char}
    (hbefore : ∀ c ∈ before, isWhitespace c = true)
    (hscheme : afterScheme (preprocess (before ++ text)) = some afterColon) :
    before.dropWhile isC0OrSpace = [] := by
  cases hkept : before.dropWhile isC0OrSpace with
  | nil => rfl
  | cons b kept =>
    have hb : isC0OrSpace b = false := by
      have hdrop := List.head_dropWhile_not isC0OrSpace (l := before) (by rw [hkept]; nofun)
      simpa only [hkept, List.head_cons] using hdrop
    have hspace : isWhitespace b = true :=
      hbefore b ((List.dropWhile_sublist _).subset (hkept ▸ List.mem_cons_self))
    have htab : isTabOrNewline b = false := isTabOrNewline_eq_false (.inl hb)
    rw [preprocess, List.dropWhile_append, hkept, List.isEmpty_cons, if_neg Bool.false_ne_true,
      List.cons_append, rdropWhile_cons hb, List.filter_cons_of_pos (by rw [htab]; rfl),
      afterScheme_eq_none hspace hb] at hscheme
    cases hscheme

/-- The blanks behind a URL that the parser keeps, which are not all in ASCII. -/
structure KeptBlanks (blanks : List Char) : Prop where
  white : ∀ c ∈ blanks, isWhitespace c = true
  nonAscii : blanks = [] ∨ ∃ c ∈ blanks, 128 ≤ c.toNat

/-- The input of the parser is that of the guard, perhaps with blanks behind it. -/
theorem preprocess_spec {afterColon : List Char} (hne : trim url ≠ [])
    (hcontrol : (trim url).any isControl = false)
    (hscheme : afterScheme (preprocess url) = some afterColon) :
    ∃ blanks, preprocess url = trim url ++ blanks ∧ KeptBlanks blanks := by
  obtain ⟨before, after, hurl, hbefore, hafter⟩ := trim_spec url
  have hhead := isWhitespace_head_trim hne
  have hlast := isWhitespace_getLast_trim hne
  generalize trim url = core at hne hcontrol hurl hhead hlast ⊢
  have hinner : ∀ c ∈ core, isControl c = false := fun c hc =>
    Bool.eq_false_iff.mpr (List.any_eq_false.mp hcontrol c hc)
  rw [hurl, List.append_assoc] at hscheme
  have hkept := dropWhile_eq_nil_of_scheme hbefore hscheme
  have hstart : (core ++ after).dropWhile isC0OrSpace = core ++ after := by
    obtain ⟨c, rest, rfl⟩ := List.exists_cons_of_ne_nil hne
    rw [List.head_cons] at hhead
    exact List.dropWhile_cons_of_neg (Bool.eq_false_iff.mp
      (isC0OrSpace_eq_false hhead (hinner c List.mem_cons_self)))
  have hcore : core.rdropWhile isC0OrSpace = core :=
    List.rdropWhile_eq_self_iff.mpr fun hcore => Bool.eq_false_iff.mp
      (isC0OrSpace_eq_false hlast (hinner _ (List.getLast_mem hcore)))
  have hend : (core ++ after).rdropWhile isC0OrSpace = core ++ after.rdropWhile isC0OrSpace := by
    rw [rdropWhile_append]
    split
    case isTrue hempty => rw [hcore, hempty, List.append_nil]
    case isFalse => rfl
  have hfilter : core.filter (fun c => !isTabOrNewline c) = core :=
    List.filter_eq_self.mpr fun c hc => by
      rw [isTabOrNewline_eq_false (.inr (hinner c hc))]
      rfl
  refine ⟨(after.rdropWhile isC0OrSpace).filter fun c => !isTabOrNewline c, ?_, ?_, ?_⟩
  · rw [preprocess, hurl, List.append_assoc, List.dropWhile_append, hkept, List.isEmpty_nil,
      if_pos rfl, hstart, hend, List.filter_append, hfilter]
  · intro c hc
    exact hafter c ((List.rdropWhile_prefix _ _).subset (List.mem_filter.mp hc).1)
  · by_cases hempty : after.rdropWhile isC0OrSpace = []
    · exact .inl (by rw [hempty, List.filter_nil])
    · have hkeep := Bool.eq_false_iff.mpr (List.rdropWhile_last_not _ _ hempty)
      refine .inr ⟨_, List.mem_filter.mpr ⟨List.getLast_mem hempty, ?_⟩, ?_⟩
      · rw [isTabOrNewline_eq_false (.inl hkeep)]
        rfl
      · exact le_toNat_of_isWhitespace
          (hafter _ ((List.rdropWhile_prefix _ _).subset (List.getLast_mem hempty))) hkeep

end Inputs

/-! ## What the guard has accepted -/

/-- The parts of a URL that the guard has accepted. -/
structure Accepts (url scheme rest host : List Char) : Prop where
  ne_nil : trim url ≠ []
  any_isControl : (trim url).any isControl = false
  split : splitScheme (trim url) = some (scheme, rest)
  scheme_mem : toLowercase scheme ∈ ALLOWED_SCHEMES
  guardHost_eq : guardHost (afterLast '@' (guardAuthority rest)) = .ok host
  host_ne_nil : host ≠ []
  checked : checkHost toLowercase host = .ok ()

section Accepted

variable {toLowercase} {url scheme rest host text : List Char}

theorem accepts_of_validate (h : validateUrlSsrf toLowercase url = .ok ()) :
    ∃ scheme rest host, Accepts toLowercase url scheme rest host := by
  unfold validateUrlSsrf at h
  dsimp only at h
  split at h
  case isTrue => cases h
  case isFalse hne =>
  split at h
  case isTrue => cases h
  case isFalse =>
  split at h
  case isTrue => cases h
  case isFalse hcontrol =>
  split at h
  case h_1 => cases h
  case h_2 scheme rest hsplit =>
  split at h
  case isTrue => cases h
  case isFalse hscheme =>
  split at h
  case isTrue => cases h
  case isFalse =>
  cases hhost : guardHost (afterLast '@' (guardAuthority rest)) with
  | error e =>
    rw [hhost] at h
    cases h
  | ok host =>
    rw [hhost] at h
    change (if host = [] then .error .missingHost else checkHost toLowercase host) = _ at h
    split at h
    case isTrue => cases h
    case isFalse hempty =>
      exact ⟨scheme, rest, host, hne, Bool.eq_false_iff.mpr hcontrol, hsplit,
        not_not.mp hscheme, hhost, hempty, h⟩

theorem splitScheme_eq_some (h : splitScheme text = some (scheme, rest)) :
    text = scheme ++ ':' :: '/' :: '/' :: rest := by
  induction text using splitScheme.induct generalizing scheme with
  | case1 rest' =>
    cases h
    rfl
  | case2 c rest' hne ih =>
    rw [splitScheme] at h
    · obtain ⟨⟨scheme', rest''⟩, hrest, hsides⟩ := Option.map_eq_some_iff.mp h
      cases hsides
      rw [ih hrest, List.cons_append]
    · exact hne
  | case3 => cases h

theorem Accepts.colon_notMem (hlower : Lowercases toLowercase)
    (h : Accepts toLowercase url scheme rest host) : ':' ∉ scheme := by
  intro hcolon
  have hmem := hlower.colon scheme hcolon
  have hallowed := h.scheme_mem
  simp only [ALLOWED_SCHEMES, List.mem_cons, List.not_mem_nil, or_false] at hallowed
  rcases hallowed with hallowed | hallowed <;> rw [hallowed] at hmem
  · exact absurd hmem (by decide)
  · exact absurd hmem (by decide)

theorem afterScheme_append {blanks afterColon : List Char} (hcolon : ':' ∉ scheme)
    (h : afterScheme (scheme ++ ':' :: '/' :: '/' :: rest ++ blanks) = some afterColon) :
    afterColon = '/' :: '/' :: (rest ++ blanks) := by
  simp only [afterScheme, List.append_assoc, List.cons_append, takeWhile_append_cons hcolon] at h
  split at h
  case isTrue =>
    cases h
    rw [← List.drop_drop, List.drop_left]
    rfl
  case isFalse => cases h

theorem inAuthority_of_isWhitespace {c : Char} (h : isWhitespace c = true) :
    inAuthority c = true := by
  simp only [inAuthority, isSlash, Bool.and_eq_true, Bool.not_eq_true', decide_eq_false_iff_not,
    decide_eq_true_eq, not_or]
  refine ⟨⟨?_, ?_⟩, ?_, ?_⟩ <;> rintro rfl <;> exact absurd h (by decide)

theorem guardAuthority_eq (hbackslash : '\\' ∉ guardAuthority rest) :
    rest.takeWhile inAuthority = guardAuthority rest := by
  simp only [guardAuthority, List.takeWhile_takeWhile] at hbackslash ⊢
  refine takeWhile_eq_of_all (fun c hc => ?_) fun c hc => ?_
  · simp only [inAuthority, isSlash, Bool.and_eq_true, Bool.not_eq_true', decide_eq_false_iff_not,
      decide_eq_true_eq, not_or] at hc ⊢
    exact ⟨hc.2.2, hc.2.1, hc.1.1⟩
  · have hin := List.mem_takeWhile_imp hc
    have hne : c ≠ '\\' := fun heq => hbackslash (heq ▸ hc)
    simp only [inAuthority, isSlash, Bool.and_eq_true, Bool.not_eq_true', decide_eq_false_iff_not,
      decide_eq_true_eq, not_or] at hin ⊢
    exact ⟨⟨hin.2.2, hne⟩, hin.2.1, hin.1⟩

/-- Both see the same authority, if it is not empty and has no backslash. -/
theorem authority_append {blanks : List Char} (hne : guardAuthority rest ≠ [])
    (hbackslash : '\\' ∉ guardAuthority rest) (hblanks : ∀ c ∈ blanks, isWhitespace c = true) :
    authority ('/' :: '/' :: (rest ++ blanks)) = guardAuthority rest ∨
      authority ('/' :: '/' :: (rest ++ blanks)) = guardAuthority rest ++ blanks := by
  have heq := guardAuthority_eq hbackslash
  have hdrop : ('/' :: '/' :: (rest ++ blanks)).dropWhile isSlash = rest ++ blanks := by
    cases rest with
    | nil => exact absurd rfl hne
    | cons c rest =>
      have hslash : isSlash c = false := by
        by_contra hslash
        refine hne ?_
        rw [← heq]
        exact List.takeWhile_cons_of_neg (by simp [inAuthority, hslash])
      exact List.dropWhile_cons_of_neg (Bool.eq_false_iff.mp hslash)
  rw [authority, hdrop]
  rw [List.takeWhile_append]
  split
  case isTrue hall =>
    right
    have hkept : blanks.takeWhile inAuthority = blanks :=
      List.takeWhile_eq_self_iff.mpr fun c hc => inAuthority_of_isWhitespace (hblanks c hc)
    rw [hkept, ← heq, (List.takeWhile_prefix _).eq_of_length hall]
  case isFalse => exact .inl heq

theorem cutPort_append (inside : Bool) (hostPort : List Char) : hostPort =
    (cutPort inside hostPort).1 ++ ((cutPort inside hostPort).2.map (':' :: ·)).getD [] := by
  fun_induction cutPort inside hostPort with
  | case1 => rfl
  | case2 inside c rest hcut =>
    rw [hcut.1]
    rfl
  | case3 inside c rest hcut cut ih => exact congrArg (c :: ·) ih

/-- Nothing, or a colon and digits. -/
def IsPort (port : List Char) : Prop :=
  port = [] ∨ ∃ digits, port = ':' :: digits ∧ digits.all Char.isDigit = true

theorem cutPort_spec {hostPort : List Char}
    (h : (cutPort false hostPort).2.all portAllowed = true) :
    ∃ port, hostPort = (cutPort false hostPort).1 ++ port ∧ IsPort port := by
  refine ⟨_, cutPort_append false hostPort, ?_⟩
  cases hport : (cutPort false hostPort).2 with
  | none => exact .inl rfl
  | some digits =>
    rw [hport, Option.all_some, portAllowed, Bool.and_eq_true] at h
    exact .inr ⟨digits, rfl, h.1⟩

/-- What the parser has of an authority that the guard has accepted: the guard's own text, and
perhaps blanks. -/
theorem hostText_of_accepts (hlower : Lowercases toLowercase)
    (h : Accepts toLowercase url scheme rest host) (hbackslash : NoBackslash url)
    (htext : hostText url = some text) :
    ∃ blanks port, afterLast '@' (guardAuthority rest) ++ blanks = text ++ port ∧
      KeptBlanks blanks ∧ IsPort port := by
  obtain ⟨afterColon, hscheme, htext⟩ := Option.bind_eq_some_iff.mp htext
  obtain ⟨blanks, hinput, hblanks⟩ := preprocess_spec h.ne_nil h.any_isControl hscheme
  rw [hinput, splitScheme_eq_some h.split] at hscheme
  have hafter := afterScheme_append (h.colon_notMem hlower) hscheme
  have hne : guardAuthority rest ≠ [] := by
    intro hempty
    have hhost := h.guardHost_eq
    rw [hempty] at hhost
    exact h.host_ne_nil (Except.ok.inj hhost).symm
  obtain ⟨tail, hauthority, htail⟩ : ∃ tail, authority afterColon = guardAuthority rest ++ tail ∧
      (tail = [] ∨ tail = blanks) := by
    rw [hafter]
    rcases authority_append hne (hbackslash _ _ h.split) hblanks.white with heq | heq
    · exact ⟨[], by rw [heq, List.append_nil], .inl rfl⟩
    · exact ⟨blanks, heq, .inr rfl⟩
  have hkept : KeptBlanks tail := by
    rcases htail with rfl | rfl
    · exact ⟨nofun, .inl rfl⟩
    · exact hblanks
  have hlast : afterLast '@' (authority afterColon) =
      afterLast '@' (guardAuthority rest) ++ tail := by
    rw [hauthority]
    refine rtakeWhile_append_of_all fun c hc => decide_eq_true ?_
    rintro rfl
    exact absurd (hkept.white _ hc) (by decide)
  dsimp only at htext
  rw [hlast] at htext
  split at htext
  case isFalse => cases htext
  case isTrue hport =>
    cases htext
    obtain ⟨port, hcut, hport⟩ := cutPort_spec hport
    exact ⟨tail, port, hcut, hkept, hport⟩

end Accepted

/-! ## Plain hosts -/

section Plain

variable {toLowercase domainToAscii} {url scheme rest host text : List Char} {found : Host}

theorem bracket_of_parseHost {inner : List Char}
    (h : parseHost domainToAscii ('[' :: inner) = some found) :
    ∃ inside ip, inner = inside ++ [']'] ∧ parseIpv6 inside = some ip ∧ found = .ip (.v6 ip) := by
  rw [parseHost] at h
  split at h
  case isTrue hlast =>
    obtain ⟨ip, hip, hfound⟩ := Option.map_eq_some_iff.mp h
    exact ⟨inner.dropLast, ip, (List.dropLast_append_getLast? _ hlast).symm, hip, hfound.symm⟩
  case isFalse => cases h

theorem name_of_parseHost (hbracket : text.head? ≠ some '[')
    (h : parseHost domainToAscii text = some found) :
    ∃ name, domainToAscii text = some name ∧ name ≠ [] ∧ name.any isForbidden = false ∧
      if endsInNumber name then ∃ ip, parseLooseIpv4 name = some ip ∧ found = .ip (.v4 ip)
      else found = .domain name := by
  rw [parseHost] at h
  · obtain ⟨name, hname, h⟩ := Option.bind_eq_some_iff.mp h
    split at h
    case isTrue => cases h
    case isFalse hgood =>
      rw [not_or, Bool.not_eq_true] at hgood
      refine ⟨name, hname, hgood.1, hgood.2, ?_⟩
      split at h
      case isTrue hnumber =>
        obtain ⟨ip, hip, hfound⟩ := Option.map_eq_some_iff.mp h
        rw [if_pos hnumber]
        exact ⟨ip, hip, hfound.symm⟩
      case isFalse hnumber =>
        rw [if_neg hnumber]
        exact (Option.some.inj h).symm
  · rintro inner rfl
    exact hbracket rfl

theorem passes_of_parseIpAddr {ip : IpAddr} (hchecked : checkHost toLowercase host = .ok ())
    (hip : parseIpAddr host = some ip) : passes toLowercase (.ip ip) = true := by
  unfold checkHost at hchecked
  rw [hip] at hchecked
  dsimp only at hchecked
  split at hchecked
  case isTrue => cases hchecked
  case isFalse hpublic => exact congrArg (!·) (Bool.eq_false_iff.mpr hpublic)

theorem passes_of_bracket {inner blanks port hostPort : List Char}
    (hguard : guardHost hostPort = .ok host) (hchecked : checkHost toLowercase host = .ok ())
    (hsame : hostPort ++ blanks = '[' :: inner ++ port)
    (hblanks : ∀ c ∈ blanks, isWhitespace c = true)
    (h : parseHost domainToAscii ('[' :: inner) = some found) :
    passes toLowercase found = true := by
  obtain ⟨inside, ip, rfl, hip, rfl⟩ := bracket_of_parseHost h
  have hinside : ']' ∉ inside := fun hmem => by
    have hchar := isIpv6Char_of_parseIpv6 hip hmem
    rcases hchar with hchar | hchar | hchar <;> exact absurd hchar (by decide)
  have hhost : host = inside := by
    cases hostPort with
    | nil =>
      rw [List.nil_append] at hsame
      have hopen := hblanks '[' (hsame ▸ List.mem_cons_self)
      exact absurd hopen (by decide)
    | cons c text =>
      obtain ⟨rfl, htail⟩ := List.cons.inj hsame
      have hsame : text ++ blanks = inside ++ ']' :: port := by
        rw [List.append_cons]
        exact htail
      have hclose : ']' ∈ text := by
        have hmem : ']' ∈ text ++ blanks := hsame ▸ List.mem_append_right _ List.mem_cons_self
        rcases List.mem_append.mp hmem with hmem | hmem
        · exact hmem
        · exact absurd (hblanks _ hmem) (by decide)
      rw [guardHost, if_pos hclose] at hguard
      rw [← Except.ok.inj hguard, ← takeWhile_append_of_mem hclose, hsame,
        takeWhile_append_cons hinside]
  rw [hhost] at hchecked
  refine passes_of_parseIpAddr hchecked ?_
  rw [parseIpAddr, parseIpv4_eq_none_of_parseIpv6 hip, hip]
  rfl

theorem lowerAscii_of_parseIpv4 {ip : Ipv4Addr} (h : parseIpv4 text = some ip) :
    lowerAscii text = text := by
  refine (List.map_congr_left fun c hc => ?_).trans (List.map_id text)
  rcases digit_or_dot_of_parseIpv4 h hc with hdigit | rfl
  · refine toLower_eq_self (.inl ?_)
    have hle := toNat_le_of_isDigit hdigit
    omega
  · rfl

/-- The guard reads a plain name as the parser does. -/
theorem passes_of_plain {name : List Char} (hlower : Lowercases toLowercase)
    (hchecked : checkHost toLowercase text = .ok ()) (hascii : IsAscii text)
    (hname : name = lowerAscii text) (hcolon : ':' ∉ text)
    (hplain : if endsInNumber name then (parseIpv4 text).isSome = true
      else name.getLast? ≠ some '.')
    (hfound : if endsInNumber name then ∃ ip, parseLooseIpv4 name = some ip ∧ found = .ip (.v4 ip)
      else found = .domain name) :
    passes toLowercase found = true := by
  cases hnumber : endsInNumber name with
  | true =>
    rw [hnumber, if_pos rfl] at hplain hfound
    obtain ⟨ip, hip⟩ := Option.isSome_iff_exists.mp hplain
    obtain ⟨ip', hip', rfl⟩ := hfound
    rw [hname, lowerAscii_of_parseIpv4 hip, parseLooseIpv4_of_parseIpv4 hip] at hip'
    cases hip'
    refine passes_of_parseIpAddr hchecked ?_
    rw [parseIpAddr, hip]
  | false =>
    rw [hnumber, if_neg Bool.false_ne_true] at hplain hfound
    rw [hfound]
    have hip : parseIpAddr text = none := by
      cases hip4 : parseIpv4 text with
      | some ip =>
        rw [hname, lowerAscii_of_parseIpv4 hip4, endsInNumber_of_parseIpv4 hip4] at hnumber
        cases hnumber
      | none =>
        cases hip6 : parseIpv6 text with
        | some ip => exact absurd (colon_mem_of_parseIpv6 hip6) hcolon
        | none => rw [parseIpAddr, hip4, hip6]; rfl
    have hlowers : toLowercase name = toLowercase text := by
      rw [hname, hlower.ascii _ (isAscii_lowerAscii hascii), lowerAscii_lowerAscii,
        hlower.ascii _ hascii]
    unfold checkHost at hchecked
    rw [hip] at hchecked
    dsimp only at hchecked
    split at hchecked
    case isTrue => cases hchecked
    case isFalse hpublic =>
      rw [passes, withoutDot, if_neg hplain, isPrivateHostname, hlowers]
      exact congrArg (!·) (Bool.eq_false_iff.mpr hpublic)

theorem beforePort_append {port : List Char} (hcolon : ':' ∉ text) (hport : IsPort port) :
    beforePort (text ++ port) = text := by
  rcases hport with rfl | ⟨digits, rfl, hdigits⟩
  · rw [List.append_nil, beforePort, if_neg hcolon]
  · have hall : ∀ c ∈ digits, (decide (c ≠ ':')) = true := by
      intro c hc
      refine decide_eq_true ?_
      rintro rfl
      exact absurd (List.all_eq_true.mp hdigits _ hc) (by decide)
    have hcut : (text ++ ':' :: digits).rdropWhile (· ≠ ':') = text ++ [':'] := by
      rw [List.append_cons, rdropWhile_append, if_pos (List.rdropWhile_eq_nil_iff.mpr hall)]
      exact List.rdropWhile_concat_neg _ _ _ (by simp)
    rw [beforePort, if_pos (List.mem_append_right _ List.mem_cons_self), hcut,
      List.dropLast_concat]

theorem IsPort.isAscii {port : List Char} (hport : IsPort port) : IsAscii port := by
  rcases hport with rfl | ⟨digits, rfl, hdigits⟩
  · exact nofun
  · intro c hc
    rcases List.mem_cons.mp hc with rfl | hc
    · decide
    · exact Nat.lt_of_le_of_lt (toNat_le_of_isDigit (List.all_eq_true.mp hdigits c hc)) (by decide)

theorem passes_of_plainHost (hlower : Lowercases toLowercase)
    (haccepts : Accepts toLowercase url scheme rest host) (hbackslash : NoBackslash url)
    (htext : hostText url = some text) (hplain : PlainHost domainToAscii text)
    (h : parseHost domainToAscii text = some found) : passes toLowercase found = true := by
  obtain ⟨blanks, port, hsame, hblanks, hport⟩ :=
    hostText_of_accepts hlower haccepts hbackslash htext
  have hguard := haccepts.guardHost_eq
  generalize afterLast '@' (guardAuthority rest) = hostPort at hsame hguard
  by_cases hbracket : text.head? = some '['
  · obtain ⟨inner, rfl⟩ : ∃ inner, text = '[' :: inner := List.head?_eq_some_iff.mp hbracket
    exact passes_of_bracket hguard haccepts.checked hsame hblanks.white h
  · obtain ⟨name, hname, hne, hforbidden, hfound⟩ := name_of_parseHost hbracket h
    obtain ⟨htextAscii, rfl, hnumber⟩ := (hplain.resolve_left hbracket) name hname
    have hcolon : ':' ∉ text := fun hmem => by
      have hlowered : ':' ∈ lowerAscii text := List.mem_map.mpr ⟨':', hmem, rfl⟩
      exact List.any_eq_false.mp hforbidden ':' hlowered (by decide)
    -- What is in ASCII does not end in the blanks that the parser keeps.
    have hnil : blanks = [] := by
      rcases hblanks.nonAscii with hnil | ⟨c, hc, hle⟩
      · exact hnil
      · have hmem : c ∈ text ++ port := hsame ▸ List.mem_append_right _ hc
        rcases List.mem_append.mp hmem with hmem | hmem
        · exact absurd (htextAscii c hmem) (Nat.not_lt.mpr hle)
        · exact absurd (hport.isAscii c hmem) (Nat.not_lt.mpr hle)
    rw [hnil, List.append_nil] at hsame
    have hhost : host = text := by
      rw [hsame] at hguard
      unfold guardHost at hguard
      split at hguard
      case h_1 inside hinside =>
        cases text with
        | nil => exact absurd rfl hne
        | cons c text =>
          rw [(List.cons.inj hinside).1] at hbracket
          exact absurd rfl hbracket
      case h_2 => rw [← Except.ok.inj hguard, beforePort_append hcolon hport]
    exact passes_of_plain hlower (hhost ▸ haccepts.checked) htextAscii rfl hcolon hnumber hfound

end Plain

/-! ## The hosts let through -/

section Allowed

variable {toLowercase domainToAscii} {text : List Char} {found : Host}

theorem isPrivateHostname_iff (hlower : Lowercases toLowercase) (h : IsAscii text) :
    isPrivateHostname toLowercase text = true ↔
      lowerAscii text ∈ BLOCKED_HOSTNAMES ∨
        ∃ suffix ∈ BLOCKED_HOSTNAME_SUFFIXES, suffix <:+ lowerAscii text := by
  simp only [isPrivateHostname, hlower.ascii text h, Bool.if_true_left, Bool.or_eq_true,
    decide_eq_true_eq, List.any_eq_true, List.isSuffixOf_iff_suffix]

theorem isAscii_withoutDot (h : IsAscii text) : IsAscii (withoutDot text) := by
  unfold withoutDot
  split
  · exact fun c hc => h c ((List.dropLast_subset text) hc)
  · exact h

theorem valid_ofValue (n : ℕ) : (Ipv4Addr.ofValue n).Valid :=
  ⟨Nat.mod_lt _ (by decide), Nat.mod_lt _ (by decide), Nat.mod_lt _ (by decide),
    Nat.mod_lt _ (by decide)⟩

theorem valid_of_parseLooseIpv4 {ip : Ipv4Addr} (h : parseLooseIpv4 text = some ip) : ip.Valid := by
  obtain ⟨numbers, -, h⟩ := Option.bind_eq_some_iff.mp h
  obtain ⟨last, -, h⟩ := Option.bind_eq_some_iff.mp h
  split at h
  case isTrue =>
    cases h
    exact valid_ofValue _
  case isFalse => cases h

/-- The guard has something against the blocked hosts, and against no others. -/
theorem passes_iff (hlower : Lowercases toLowercase)
    (hascii : ∀ text name, domainToAscii text = some name → IsAscii name)
    (h : parseHost domainToAscii text = some found) :
    passes toLowercase found = true ↔ ¬ Blocked found := by
  by_cases hbracket : text.head? = some '['
  · obtain ⟨inner, rfl⟩ : ∃ inner, text = '[' :: inner := List.head?_eq_some_iff.mp hbracket
    obtain ⟨inside, ip, -, hip, rfl⟩ := bracket_of_parseHost h
    rw [passes, Bool.not_eq_true', ← Bool.not_eq_true]
    exact not_congr (isPrivateIpv6_iff (valid_of_parseIpv6 hip))
  · obtain ⟨name, hname, -, -, hfound⟩ := name_of_parseHost hbracket h
    split at hfound
    case isTrue =>
      obtain ⟨ip, hip, rfl⟩ := hfound
      rw [passes, Bool.not_eq_true', ← Bool.not_eq_true]
      exact not_congr (isPrivateIpv4_iff (valid_of_parseLooseIpv4 hip))
    case isFalse =>
      rw [hfound, passes, Bool.not_eq_true', ← Bool.not_eq_true]
      exact not_congr (isPrivateHostname_iff hlower (isAscii_withoutDot (hascii text name hname)))

/-- The host of an accepted URL is not a blocked one exactly when it is spelled plainly, or when
the guard would accept what its spelling stands for. -/
theorem host_allowed_iff {url : List Char} (hlower : Lowercases toLowercase)
    (hascii : ∀ text name, domainToAscii text = some name → IsAscii name)
    (haccepted : validateUrlSsrf toLowercase url = .ok ()) :
    HostAllowed toLowercase domainToAscii url ↔ WellSpelled toLowercase domainToAscii url := by
  constructor
  · intro hallowed text htext
    refine .inr fun host hhost => (passes_iff hlower hascii hhost).mpr ?_
    exact hallowed haccepted host (Option.bind_eq_some_iff.mpr ⟨text, htext, hhost⟩)
  · intro hspelled _ host hhost
    obtain ⟨text, htext, hparse⟩ := Option.bind_eq_some_iff.mp hhost
    rw [← passes_iff hlower hascii hparse]
    rcases hspelled text htext with ⟨hbackslash, hplain⟩ | hpasses
    · obtain ⟨scheme, rest, guarded, haccepts⟩ := accepts_of_validate haccepted
      exact passes_of_plainHost hlower haccepts hbackslash htext hplain hparse
    · exact hpasses host hparse

end Allowed

/-- The names in ASCII that have no percent sign are only lowered. -/
def asciiName (text : List Char) : Option (List Char) :=
  if text.all fun c => decide (c.toNat < 128 ∧ c ≠ '%') then some (lowerAscii text) else none

theorem lowercases_lowerAscii : Lowercases lowerAscii where
  ascii _ _ := rfl
  colon _ h := List.mem_map.mpr ⟨':', h, rfl⟩

theorem isAscii_asciiName (text name : List Char) (h : asciiName text = some name) :
    IsAscii name := by
  unfold asciiName at h
  split at h
  case isTrue hall =>
    cases h
    exact isAscii_lowerAscii fun c hc => (of_decide_eq_true (List.all_eq_true.mp hall c hc)).1
  case isFalse => cases h

/-- A name with capital letters and a port. -/
theorem plain_host_allowed :
    HostAllowed lowerAscii asciiName "https://Hooks.Example.com:8443/events".toList := by
  refine (host_allowed_iff lowercases_lowerAscii isAscii_asciiName (by decide +kernel)).mpr ?_
  intro text htext
  have htext' : text = "Hooks.Example.com".toList := by
    refine Option.some.inj (htext.symm.trans ?_)
    decide +kernel
  subst htext'
  refine .inl ⟨?_, .inr ?_⟩
  · intro scheme rest hsplit
    have hparts : splitScheme (trim "https://Hooks.Example.com:8443/events".toList) =
        some ("https".toList, "Hooks.Example.com:8443/events".toList) := by decide +kernel
    rw [hparts] at hsplit
    cases hsplit
    decide +kernel
  · intro name hname
    have hall : "Hooks.Example.com".toList.all (fun c => decide (c.toNat < 128 ∧ c ≠ '%')) = true :=
      by decide +kernel
    rw [asciiName, if_pos hall] at hname
    refine ⟨fun c hc => ?_, (Option.some.inj hname).symm, ?_⟩
    · exact (of_decide_eq_true (List.all_eq_true.mp hall c hc)).1
    · rw [← Option.some.inj hname]
      decide +kernel

/-- A final dot, an address as one number, and a backslash in front of the sign that seems to end
the user information. -/
theorem blocked_hosts_accepted :
    ¬ HostAllowed lowerAscii asciiName "http://localhost./".toList ∧
      ¬ HostAllowed lowerAscii asciiName "http://2130706433/".toList ∧
      ¬ HostAllowed lowerAscii asciiName "http://127.0.0.1\\@example.com/".toList := by
  have hloopback : Blocked (.ip (.v4 ⟨127, 0, 0, 1⟩)) :=
    (isPrivateIpv4_iff ⟨by decide, by decide, by decide, by decide⟩).mp (by decide)
  refine ⟨fun h => ?_, fun h => ?_, fun h => ?_⟩
  · exact h (by decide +kernel) (.domain "localhost.".toList) (by decide +kernel)
      (.inl (by decide +kernel))
  · exact h (by decide +kernel) _ (by decide +kernel) hloopback
  · exact h (by decide +kernel) _ (by decide +kernel) hloopback

end WorldZk.UrlGuardHosts
