import Mathlib.Algebra.Field.Defs
import Mathlib.Algebra.Group.Basic
import Mathlib.Algebra.Group.Int.Defs
import Mathlib.Algebra.Group.Nat.Defs
import Mathlib.Data.List.Basic

/-!
# Values of a JSON document

JSON values with exact numbers, and the ways in which derived deserializers and untyped lookups read
them. A struct is read from an object that gives each of its fields at most once, or from an array
that gives its fields in order; an untyped lookup takes the last member of a name.
-/

namespace WorldZk.JsonValues

/-- A value. Integers that fit no machine type read as other numbers do. -/
inductive Json (K : Type) where
  | null
  | bool (b : Bool)
  | int (n : ℤ)
  | float (x : K)
  | str (s : String)
  | arr (items : List (Json K))
  | obj (fields : List (String × Json K))

namespace Json

variable {K α : Type}

mutual

/-- The number of values in a document. -/
def size : Json K → ℕ
  | arr items => 1 + sizeItems items
  | obj fields => 1 + sizeFields fields
  | _ => 1

def sizeItems : List (Json K) → ℕ
  | [] => 0
  | item :: items => item.size + sizeItems items

def sizeFields : List (String × Json K) → ℕ
  | [] => 0
  | (_, value) :: fields => value.size + sizeFields fields

end

/-- The members of an object with a name. -/
def members (name : String) (fields : List (String × Json K)) : List (Json K) :=
  (fields.filter fun field => field.1 = name).map Prod.snd

/-- The member that an untyped lookup finds. -/
def get (name : String) : Json K → Option (Json K)
  | obj fields => (members name fields).getLast?
  | _ => none

/-- Whether a struct with `count` fields can be read at all. -/
def isStruct (count : ℕ) : Json K → Bool
  | obj _ => true
  | arr items => items.length ≤ count
  | _ => false

/-- A field of a struct, by its name or its place. -/
def field (place : ℕ) (name : String) : Json K → Option (Option (Json K))
  | obj fields =>
    match members name fields with
    | [] => some none
    | [value] => some (some value)
    | _ => none
  | arr items => some items[place]?
  | _ => none

/-- A field that must be there. -/
def required (read : Json K → Option α) (place : ℕ) (name : String) (json : Json K) : Option α := do
  let found ← json.field place name
  let value ← found
  read value

/-- A field with a default. -/
def optional (default : α) (read : Json K → Option α) (place : ℕ) (name : String) (json : Json K) :
    Option α := do
  let found ← json.field place name
  match found with
  | none => pure default
  | some value => read value

/-! ## Types of fields -/

def asInt (low high : ℤ) : Json K → Option ℤ
  | int n => if low ≤ n ∧ n < high then some n else none
  | _ => none

def asUsize (json : Json K) : Option ℕ := (json.asInt 0 (2 ^ 64)).map Int.toNat

def asI64 (json : Json K) : Option ℤ := json.asInt (-2 ^ 63) (2 ^ 63)

/-- An `i32` with its range. -/
abbrev I32 : Type := { n : ℤ // -2 ^ 31 ≤ n ∧ n < 2 ^ 31 }

theorem I32.range (n : I32) : -2 ^ 31 ≤ n.1 ∧ n.1 < 2 ^ 31 := n.2

def asI32 : Json K → Option I32
  | int n => if h : -2 ^ 31 ≤ n ∧ n < 2 ^ 31 then some ⟨n, h⟩ else none
  | _ => none

def asF64 [IntCast K] : Json K → Option K
  | int n => some n
  | float x => some x
  | _ => none

def asString : Json K → Option String
  | str s => some s
  | _ => none

def asVec (read : Json K → Option α) : Json K → Option (List α)
  | arr items => items.mapM read
  | _ => none

/-- A nullable value. -/
def asOption (read : Json K → Option α) : Json K → Option (Option α)
  | null => some none
  | json => (read json).map some

/-! ## Numbers in strings -/

def digitsValue (digits : List Char) : ℕ := digits.foldl (fun n c => 10 * n + (c.toNat - 48)) 0

/-- `str::parse::<usize>`. -/
def parseUsize (text : List Char) : Option ℕ :=
  let digits := match text with
    | '+' :: rest => rest
    | _ => text
  if digits ≠ [] ∧ digits.all Char.isDigit ∧ digitsValue digits < 2 ^ 64 then
    some (digitsValue digits)
  else none

/-- A sign in front of a number, `true` for minus. -/
def splitSign : List Char → Bool × List Char
  | '-' :: rest => (true, rest)
  | '+' :: rest => (false, rest)
  | text => (false, text)

def parseExponent : List Char → Option ℤ
  | [] => some 0
  | c :: rest =>
    let (negative, digits) := splitSign rest
    if (c = 'e' ∨ c = 'E') ∧ digits ≠ [] ∧ digits.all Char.isDigit then
      some (if negative then -digitsValue digits else digitsValue digits)
    else none

/-- The digits after a decimal point, if there is one, and the rest. -/
def splitFraction : List Char → List Char × List Char
  | '.' :: rest => rest.span Char.isDigit
  | text => ([], text)

/-- `str::parse::<f64>`, for the texts of finite numbers and without rounding. -/
def parseF64 [Field K] (text : List Char) : Option K :=
  let (negative, text) := splitSign text
  let (whole, text) := text.span Char.isDigit
  let (fraction, text) := splitFraction text
  if whole = [] ∧ fraction = [] then none
  else do
    let exponent ← parseExponent text
    let magnitude : K := digitsValue (whole ++ fraction) * 10 ^ (exponent - fraction.length)
    pure (if negative then -magnitude else magnitude)

/-! ## Reading the same member twice -/

section Members

variable {fields : List (String × Json K)} {place : ℕ} {name : String} {value : Json K}

theorem get_of_field (h : (obj fields).field place name = some (some value)) :
    (obj fields).get name = some value := by
  rw [field] at h
  rw [get]
  split at h
  · cases h
  · next found hmembers =>
    rw [Option.some.injEq, Option.some.injEq] at h
    rw [hmembers, h]
    rfl
  · cases h

theorem field_obj (place place' : ℕ) :
    (obj fields).field place name = (obj fields).field place' name := rfl

theorem mem_fields_of_field (h : (obj fields).field place name = some (some value)) :
    (name, value) ∈ fields := by
  have hmember : value ∈ members name fields := by
    rw [field] at h
    split at h
    · cases h
    · next found hmembers =>
      rw [Option.some.injEq, Option.some.injEq] at h
      rw [hmembers, h]
      exact List.mem_cons_self
    · cases h
  obtain ⟨⟨name', value'⟩, hin, rfl⟩ := List.mem_map.mp hmember
  rw [List.mem_filter, decide_eq_true_eq] at hin
  rw [← hin.2]
  exact hin.1

private theorem size_le_sizeFields (h : (name, value) ∈ fields) :
    value.size ≤ sizeFields fields := by
  induction fields with
  | nil => cases h
  | cons first fields ih =>
    rw [sizeFields]
    rcases List.mem_cons.mp h with rfl | hrest
    · exact Nat.le_add_right _ _
    · have := ih hrest
      omega

theorem size_add_size_le {name' : String} {value' : Json K} (hne : name ≠ name')
    (h : (name, value) ∈ fields) (h' : (name', value') ∈ fields) :
    value.size + value'.size < (obj fields).size := by
  have hsum : value.size + value'.size ≤ sizeFields fields := by
    induction fields with
    | nil => cases h
    | cons first fields ih =>
      rw [sizeFields]
      rcases List.mem_cons.mp h with rfl | hrest <;> rcases List.mem_cons.mp h' with hfirst | hrest'
      · exact absurd (congrArg Prod.fst hfirst).symm hne
      · exact Nat.add_le_add_left (size_le_sizeFields hrest') _
      · rw [← hfirst, Nat.add_comm]
        exact Nat.add_le_add_left (size_le_sizeFields hrest) _
      · have := ih hrest hrest'
        omega
  rw [size]
  omega

end Members

end Json

end WorldZk.JsonValues
