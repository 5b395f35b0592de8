import WorldZk.StandardHosts

/-!
# The URL guard

`validate_url_ssrf`: the operator's check of the webhook URLs. It cuts the host out of the text by
itself. The mapping of texts to lowercase is a parameter.
-/

namespace WorldZk.UrlGuard

open IpAddresses StandardHosts
open scoped NamedInstances

/-! ## Blocked addresses and names -/

def ALLOWED_SCHEMES : List (List Char) := ["http".toList, "https".toList]

def BLOCKED_HOSTNAMES : List (List Char) := ["localhost".toList, "localhost.localdomain".toList]

def BLOCKED_HOSTNAME_SUFFIXES : List (List Char) :=
  [".local".toList, ".internal".toList, ".lan".toList, ".localhost".toList, ".intranet".toList,
    ".corp".toList, ".home".toList, ".private".toList]

def MAX_URL_LENGTH : ℕ := 2048

def isPrivateIpv4 (ip : Ipv4Addr) : Bool :=
  if ip = ⟨0, 0, 0, 0⟩ then true
  else if ip.a = 127 then true
  else if ip.a = 10 then true
  else if ip.a = 172 ∧ 16 ≤ ip.b ∧ ip.b ≤ 31 then true
  else if ip.a = 192 ∧ ip.b = 168 then true
  else if ip.a = 169 ∧ ip.b = 254 then true
  else if ip.a = 100 ∧ 64 ≤ ip.b ∧ ip.b ≤ 127 then true
  else if ip.a = 192 ∧ ip.b = 0 ∧ ip.c = 0 then true
  else if ip.a = 192 ∧ ip.b = 0 ∧ ip.c = 2 then true
  else if ip.a = 198 ∧ ip.b = 51 ∧ ip.c = 100 then true
  else if ip.a = 203 ∧ ip.b = 0 ∧ ip.c = 113 then true
  else if ip.a = 198 ∧ 18 ≤ ip.b ∧ ip.b ≤ 19 then true
  else if 240 ≤ ip.a then true
  else if ip = ⟨255, 255, 255, 255⟩ then true
  else false

/-- `to_ipv4_mapped`. -/
def toIpv4Mapped : Ipv6Addr → Option Ipv4Addr
  | [a, b, c, d, e, f, g, i] =>
    if [a, b, c, d, e, f] = [0, 0, 0, 0, 0, 0xffff] then
      some ⟨g / 256, g % 256, i / 256, i % 256⟩
    else none
  | _ => none

def isPrivateIpv6 (ip : Ipv6Addr) : Bool :=
  if ip = [0, 0, 0, 0, 0, 0, 0, 0] then true
  else if ip = [0, 0, 0, 0, 0, 0, 0, 1] then true
  else if ip.headD 0 &&& 0xffc0 = 0xfe80 then true
  else if ip.headD 0 &&& 0xfe00 = 0xfc00 then true
  else
    match toIpv4Mapped ip with
    | some mapped => isPrivateIpv4 mapped
    | none => false

def isPrivateIp : IpAddr → Bool
  | .v4 ip => isPrivateIpv4 ip
  | .v6 ip => isPrivateIpv6 ip

variable (toLowercase : List Char → List Char)

def isPrivateHostname (host : List Char) : Bool :=
  let lower := toLowercase host
  if lower ∈ BLOCKED_HOSTNAMES then true
  else BLOCKED_HOSTNAME_SUFFIXES.any fun suffix => suffix.isSuffixOf lower

/-! ## The check -/

inductive SsrfError
  | emptyUrl
  | tooLong (len max : ℕ)
  | disallowedScheme (scheme : List Char)
  | missingHost
  -- The error has the address as text.
  | privateIp (ip : IpAddr)
  | privateHostname (host : List Char)
  | parseError (message : String)
  | controlCharacters
deriving DecidableEq, Repr

/-- `char::is_whitespace`. -/
def isWhitespace (c : Char) : Bool :=
  let n := c.toNat
  decide ((9 ≤ n ∧ n ≤ 13) ∨ n = 0x20 ∨ n = 0x85 ∨ n = 0xa0 ∨ n = 0x1680 ∨
    (0x2000 ≤ n ∧ n ≤ 0x200a) ∨ n = 0x2028 ∨ n = 0x2029 ∨ n = 0x202f ∨ n = 0x205f ∨ n = 0x3000)

/-- `char::is_control`. -/
def isControl (c : Char) : Bool := decide (c.toNat ≤ 0x1f ∨ (0x7f ≤ c.toNat ∧ c.toNat ≤ 0x9f))

def trim (url : List Char) : List Char := (url.dropWhile isWhitespace).rdropWhile isWhitespace

/-- `split_once("://")`. -/
def splitScheme : List Char → Option (List Char × List Char)
  | ':' :: '/' :: '/' :: rest => some ([], rest)
  | c :: rest => (splitScheme rest).map fun sides => (c :: sides.1, sides.2)
  | [] => none

/-- What precedes the path, the query and the fragment. -/
def guardAuthority (rest : List Char) : List Char :=
  ((rest.takeWhile (· ≠ '/')).takeWhile (· ≠ '?')).takeWhile (· ≠ '#')

/-- What precedes the last colon, or everything. -/
def beforePort (hostPort : List Char) : List Char :=
  if ':' ∈ hostPort then (hostPort.rdropWhile (· ≠ ':')).dropLast else hostPort

def guardHost (hostPort : List Char) : Except SsrfError (List Char) :=
  match hostPort with
  | '[' :: inside =>
    if ']' ∈ inside then .ok (inside.takeWhile (· ≠ ']'))
    else .error (.parseError "unclosed IPv6 bracket")
  | _ => .ok (beforePort hostPort)

/-- Step 7. -/
def checkHost (host : List Char) : Except SsrfError Unit :=
  match parseIpAddr host with
  | some ip => if isPrivateIp ip then .error (.privateIp ip) else .ok ()
  | none => if isPrivateHostname toLowercase host then .error (.privateHostname host) else .ok ()

def validateUrlSsrf (url : List Char) : Except SsrfError Unit :=
  let url := trim url
  let len := (url.map Char.utf8Size).sum
  if url = [] then .error .emptyUrl
  else if MAX_URL_LENGTH < len then .error (.tooLong len MAX_URL_LENGTH)
  else if url.any isControl then .error .controlCharacters
  else
    match splitScheme url with
    | none => .error (.parseError "missing '://' separator")
    | some (scheme, rest) =>
      let schemeLower := toLowercase scheme
      if schemeLower ∉ ALLOWED_SCHEMES then .error (.disallowedScheme schemeLower)
      else
        let hostPort := afterLast '@' (guardAuthority rest)
        if hostPort = [] then .error .missingHost
        else do
          let host ← guardHost hostPort
          if host = [] then .error .missingHost
          else checkHost toLowercase host

/-! ## The documented ranges -/

def ipv4Network (a b c d bits : ℕ) : Network := ⟨(⟨a, b, c, d⟩ : Ipv4Addr).value, bits⟩

def BLOCKED_IPV4 : List Network :=
  [ipv4Network 0 0 0 0 32, ipv4Network 127 0 0 0 8, ipv4Network 10 0 0 0 8,
    ipv4Network 172 16 0 0 12, ipv4Network 192 168 0 0 16, ipv4Network 169 254 0 0 16,
    ipv4Network 100 64 0 0 10, ipv4Network 192 0 0 0 24, ipv4Network 192 0 2 0 24,
    ipv4Network 198 51 100 0 24, ipv4Network 203 0 113 0 24, ipv4Network 198 18 0 0 15,
    ipv4Network 240 0 0 0 4, ipv4Network 255 255 255 255 32]

/-- The unspecified and the loopback address, `fe80::/10` and `fc00::/7`. -/
def BLOCKED_IPV6 : List Network :=
  [⟨0, 128⟩, ⟨1, 128⟩, ⟨0xfe80 * 2 ^ 112, 10⟩, ⟨0xfc00 * 2 ^ 112, 7⟩]

def BlockedIpv4 (address : ℕ) : Prop :=
  ∃ network ∈ BLOCKED_IPV4, network.Contains 32 address

/-- An address of `::ffff:0:0/96` is blocked when the IPv4 address in it is. -/
def BlockedIpv6 (address : ℕ) : Prop :=
  (∃ network ∈ BLOCKED_IPV6, network.Contains 128 address) ∨
    (address / 2 ^ 32 = 0xffff ∧ BlockedIpv4 (address % 2 ^ 32))

def BlockedIp : IpAddr → Prop
  | .v4 ip => BlockedIpv4 ip.value
  | .v6 ip => BlockedIpv6 ip.value

theorem isPrivateIpv4_iff {ip : Ipv4Addr} (h : ip.Valid) :
    isPrivateIpv4 ip = true ↔ BlockedIpv4 ip.value := by
  obtain ⟨a, b, c, d⟩ := ip
  obtain ⟨ha, hb, hc, hd⟩ := h
  simp only [isPrivateIpv4, BlockedIpv4, BLOCKED_IPV4, List.mem_cons, List.not_mem_nil, or_false,
    exists_eq_or_imp, exists_eq_left, Network.Contains, ipv4Network, Ipv4Addr.value,
    Ipv4Addr.mk.injEq, Bool.if_true_left, Bool.or_eq_true, decide_eq_true_eq,
    Bool.false_eq_true] at ha hb hc hd ⊢
  -- One range after the other.
  iterate 13 refine or_congr (by omega) ?_
  omega

theorem and_linkLocal {n : ℕ} (h : n < 2 ^ 16) :
    n &&& 0xffc0 = 0xfe80 ↔ n / 2 ^ 6 = 0xfe80 / 2 ^ 6 := by
  have hmask : n &&& 0xffc0 = n / 2 ^ 6 % 2 ^ 10 * 2 ^ 6 := and_highMask n 10 6
  rw [hmask]
  omega

theorem and_uniqueLocal {n : ℕ} (h : n < 2 ^ 16) :
    n &&& 0xfe00 = 0xfc00 ↔ n / 2 ^ 9 = 0xfc00 / 2 ^ 9 := by
  have hmask : n &&& 0xfe00 = n / 2 ^ 9 % 2 ^ 7 * 2 ^ 9 := and_highMask n 7 9
  rw [hmask]
  omega

theorem exists_groups {ip : Ipv6Addr} (h : ip.Valid) : ∃ a b c d e f g i,
    ip = [a, b, c, d, e, f, g, i] ∧ a < 2 ^ 16 ∧ b < 2 ^ 16 ∧ c < 2 ^ 16 ∧ d < 2 ^ 16 ∧
      e < 2 ^ 16 ∧ f < 2 ^ 16 ∧ g < 2 ^ 16 ∧ i < 2 ^ 16 := by
  obtain ⟨hlength, hlt⟩ := h
  match ip, hlength with
  | [a, b, c, d, e, f, g, i], _ =>
    exact ⟨a, b, c, d, e, f, g, i, rfl, hlt a (by simp), hlt b (by simp), hlt c (by simp),
      hlt d (by simp), hlt e (by simp), hlt f (by simp), hlt g (by simp), hlt i (by simp)⟩

theorem isPrivate_mapped_iff {ip : Ipv6Addr} (h : ip.Valid) :
    (match toIpv4Mapped ip with
      | some mapped => isPrivateIpv4 mapped
      | none => false) = true ↔
      ip.value / 2 ^ 32 = 0xffff ∧ BlockedIpv4 (ip.value % 2 ^ 32) := by
  obtain ⟨a, b, c, d, e, f, g, i, rfl, ha, hb, hc, hd, he, hf, hg, hi⟩ := exists_groups h
  simp only [toIpv4Mapped, List.cons.injEq, and_true]
  by_cases hprefix : a = 0 ∧ b = 0 ∧ c = 0 ∧ d = 0 ∧ e = 0 ∧ f = 0xffff
  · rw [if_pos hprefix]
    obtain ⟨rfl, rfl, rfl, rfl, rfl, rfl⟩ := hprefix
    have hvalid : Ipv4Addr.Valid ⟨g / 256, g % 256, i / 256, i % 256⟩ :=
      ⟨Nat.div_lt_of_lt_mul hg, Nat.mod_lt _ (by decide), Nat.div_lt_of_lt_mul hi,
        Nat.mod_lt _ (by decide)⟩
    have hvalue : Ipv6Addr.value [0, 0, 0, 0, 0, 0xffff, g, i] =
        0xffff * 2 ^ 32 + 2 ^ 16 * g + i := by
      simp only [Ipv6Addr.value, List.foldl]
      omega
    have hlow : (0xffff * 2 ^ 32 + 2 ^ 16 * g + i) % 2 ^ 32 =
        (⟨g / 256, g % 256, i / 256, i % 256⟩ : Ipv4Addr).value := by
      simp only [Ipv4Addr.value]
      omega
    rw [hvalue, hlow, and_iff_right (by omega)]
    exact isPrivateIpv4_iff hvalid
  · rw [if_neg hprefix]
    refine iff_of_false (by decide) fun hblocked => hprefix ?_
    have hhigh := hblocked.1
    simp only [Ipv6Addr.value, List.foldl] at hhigh
    omega

theorem isPrivateIpv6_iff {ip : Ipv6Addr} (h : ip.Valid) :
    isPrivateIpv6 ip = true ↔ BlockedIpv6 ip.value := by
  rw [BlockedIpv6, ← isPrivate_mapped_iff h]
  obtain ⟨a, b, c, d, e, f, g, i, rfl, ha, hb, hc, hd, he, hf, hg, hi⟩ := exists_groups h
  simp only [isPrivateIpv6, BLOCKED_IPV6, List.mem_cons, List.not_mem_nil, or_false,
    exists_eq_or_imp, exists_eq_left, Network.Contains, Ipv6Addr.value, List.foldl,
    List.headD_cons, and_linkLocal ha, and_uniqueLocal ha, Bool.if_true_left, Bool.or_eq_true,
    decide_eq_true_eq, or_assoc, List.cons.injEq, and_true] at ha hb hc hd he hf hg hi ⊢
  iterate 4 refine or_congr (by omega) ?_
  exact Iff.rfl

end WorldZk.UrlGuard
