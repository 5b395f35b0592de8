import WorldZk.IpAddresses
import WorldZk.NamedInstances
import Mathlib.Data.List.DropRight

/-!
# The hosts of web addresses

The host that a parser of the URL standard extracts from an absolute `http` or `https` URL. How the
name of a host becomes a name in ASCII, by decoding percent signs and mapping what is not in ASCII,
is a parameter.
-/

namespace WorldZk.StandardHosts

open IpAddresses
open scoped NamedInstances

inductive Host
  | domain (name : List Char)
  | ip (address : IpAddr)
deriving DecidableEq, Repr

/-- What the parser drops at both ends. -/
def isC0OrSpace (c : Char) : Bool := decide (c.toNat ≤ 32)

/-- What the parser drops everywhere. -/
def isTabOrNewline (c : Char) : Bool := decide (c = '\t' ∨ c = '\n' ∨ c = '\r')

def preprocess (url : List Char) : List Char :=
  ((url.dropWhile isC0OrSpace).rdropWhile isC0OrSpace).filter fun c => !isTabOrNewline c

def lowerAscii (text : List Char) : List Char := text.map Char.toLower

def webSchemes : List (List Char) := ["http".toList, "https".toList]

/-- What follows the colon of the scheme. -/
def afterScheme (input : List Char) : Option (List Char) :=
  let scheme := input.takeWhile (· ≠ ':')
  if ':' ∈ input ∧ lowerAscii scheme ∈ webSchemes then some (input.drop (scheme.length + 1))
  else none

def isSlash (c : Char) : Bool := decide (c = '/' ∨ c = '\\')

def inAuthority (c : Char) : Bool := !isSlash c && decide (c ≠ '?' ∧ c ≠ '#')

/-- Any number of slashes and backslashes precedes the authority, which ends at the next. -/
def authority (rest : List Char) : List Char := (rest.dropWhile isSlash).takeWhile inAuthority

/-- What follows the last `sep`, or everything. -/
def afterLast (sep : Char) (text : List Char) : List Char := text.rtakeWhile (· ≠ sep)

/-- The text of the host and that of the port, cut at the first colon outside of brackets. -/
def cutPort : Bool → List Char → List Char × Option (List Char)
  | _, [] => ([], none)
  | inside, c :: rest =>
    if c = ':' ∧ inside = false then ([], some rest)
    else
      let cut := cutPort (if c = '[' then true else if c = ']' then false else inside) rest
      (c :: cut.1, cut.2)

def portAllowed (port : List Char) : Bool :=
  port.all Char.isDigit && decide (numberValue 10 port < 2 ^ 16)

/-- The text of the host of a URL whose scheme and port are well formed. -/
def hostText (url : List Char) : Option (List Char) := do
  let rest ← afterScheme (preprocess url)
  let cut := cutPort false (afterLast '@' (authority rest))
  if cut.2.all portAllowed then some cut.1 else none

/-- The code points that no name of a host may have. -/
def isForbidden (c : Char) : Bool :=
  decide (c.toNat ≤ 32 ∨ c.toNat = 127 ∨ c ∈ "#%/:<>?@[\\]^|".toList)

variable (domainToAscii : List Char → Option (List Char))

/-- The host parser. -/
def parseHost (text : List Char) : Option Host :=
  match text with
  | '[' :: rest =>
    if rest.getLast? = some ']' then (parseIpv6 rest.dropLast).map fun ip => .ip (.v6 ip) else none
  | _ => do
    let name ← domainToAscii text
    if name = [] ∨ name.any isForbidden then none
    else if endsInNumber name then (parseLooseIpv4 name).map fun ip => .ip (.v4 ip)
    else some (.domain name)

def standardHost (url : List Char) : Option Host := hostText url >>= parseHost domainToAscii

end WorldZk.StandardHosts
