import WorldZk.LittleEndianWords

/-!
# Values as words

The format in which values are handed to a guest program and come back in its journal: every value
is a sequence of 32-bit words, a list behind its length, and the words are little-endian bytes. A
format carries the proof that it reads what it writes.
-/

namespace WorldZk.WordSerde

open LittleEndianWords Transcript

/-- How values are written and read, and the values that can be written. -/
structure Format (α : Type) where
  write : α → List UInt32
  read : List UInt32 → Option (α × List UInt32)
  Fits : α → Prop
  read_write : ∀ a rest, Fits a → read (write a ++ rest) = some (a, rest)

namespace Format

variable {α β : Type}

/-- `u32`. -/
def word : Format UInt32 where
  write := fun w => [w]
  read := fun
    | [] => none
    | w :: rest => some (w, rest)
  Fits := fun _ => True
  read_write := fun _ _ _ => rfl

/-- `u64`, and an `f64` as its bits: the low word, then the high one. -/
def double : Format UInt64 where
  write := fun w => [UInt32.ofNat w.toNat, UInt32.ofNat (w.toNat / 2 ^ 32)]
  read := fun
    | low :: high :: rest => some (UInt64.ofNat (low.toNat + 2 ^ 32 * high.toNat), rest)
    | _ => none
  Fits := fun _ => True
  read_write := by
    intro w rest _
    have hw : w.toNat < 2 ^ 64 := w.toNat_lt
    have hvalue : (UInt32.ofNat w.toNat).toNat +
        2 ^ 32 * (UInt32.ofNat (w.toNat / 2 ^ 32)).toNat = w.toNat := by
      rw [UInt32.toNat_ofNat', UInt32.toNat_ofNat']
      omega
    simp only [List.cons_append, List.nil_append, hvalue, UInt64.ofNat_toNat]

/-- `u8`, which takes a word. -/
def byte : Format UInt8 where
  write := fun b => [UInt32.ofNat b.toNat]
  read := fun
    | [] => none
    | w :: rest => if w.toNat < 256 then some (UInt8.ofNat w.toNat, rest) else none
  Fits := fun _ => True
  read_write := by
    intro b rest _
    have hb : b.toNat < 256 := b.toNat_lt
    have hword : (UInt32.ofNat b.toNat).toNat = b.toNat := by
      rw [UInt32.toNat_ofNat']
      omega
    simp only [List.cons_append, List.nil_append, hword, if_pos hb, UInt8.ofNat_toNat]

def pair (F : Format α) (G : Format β) : Format (α × β) where
  write := fun p => F.write p.1 ++ G.write p.2
  read := fun words => do
    let (a, rest) ← F.read words
    let (b, rest) ← G.read rest
    some ((a, b), rest)
  Fits := fun p => F.Fits p.1 ∧ G.Fits p.2
  read_write := by
    rintro ⟨a, b⟩ rest ⟨ha, hb⟩
    simp only [List.append_assoc, F.read_write a _ ha, G.read_write b _ hb, bind, Option.bind]

/-- The same format for another representation of the values. -/
def comap (F : Format α) (e : β ≃ α) : Format β where
  write := fun b => F.write (e b)
  read := fun words => (F.read words).map fun (a, rest) => (e.symm a, rest)
  Fits := fun b => F.Fits (e b)
  read_write := by
    intro b rest hb
    simp only [F.read_write (e b) rest hb, Option.map_some, Equiv.symm_apply_apply]

/-- A known number of values one after another. -/
def readMany (F : Format α) : ℕ → List UInt32 → Option (List α × List UInt32)
  | 0, words => some ([], words)
  | n + 1, words => do
    let (a, rest) ← F.read words
    let (as, rest) ← readMany F n rest
    some (a :: as, rest)

theorem readMany_flatMap (F : Format α) (as : List α) (rest : List UInt32)
    (h : ∀ a ∈ as, F.Fits a) :
    F.readMany as.length (as.flatMap F.write ++ rest) = some (as, rest) := by
  induction as with
  | nil => rfl
  | cons a as ih =>
    obtain ⟨ha, has⟩ := List.forall_mem_cons.mp h
    simp only [List.length_cons, readMany, List.flatMap_cons, List.append_assoc,
      F.read_write a _ ha, ih has, bind, Option.bind]

/-- `Vec`: the length, then the elements. -/
def list (F : Format α) : Format (List α) where
  write := fun as => UInt32.ofNat as.length :: as.flatMap F.write
  read := fun
    | [] => none
    | n :: rest => F.readMany n.toNat rest
  Fits := fun as => as.length < 2 ^ 32 ∧ ∀ a ∈ as, F.Fits a
  read_write := by
    rintro as rest ⟨hlength, has⟩
    simp only [List.cons_append, UInt32.toNat_ofNat_of_lt' hlength]
    exact readMany_flatMap F as rest has

/-- An array. -/
def vector (F : Format α) (n : ℕ) : Format (Vector α n) where
  write := fun v => v.toList.flatMap F.write
  read := fun words => do
    let (as, rest) ← F.readMany n words
    if h : as.length = n then some (⟨⟨as⟩, h⟩, rest) else none
  Fits := fun v => ∀ a ∈ v.toList, F.Fits a
  read_write := by
    intro v rest hv
    have hread := readMany_flatMap F v.toList rest hv
    rw [Vector.length_toList] at hread
    simp only [hread, bind, Option.bind, Vector.length_toList, dif_pos]
    rfl

end Format

/-! ## Bytes -/

variable {α : Type}

def toBytes (words : List UInt32) : List UInt8 := words.flatMap u32ToLeBytes

/-- Four bytes to a word; what is left over is dropped. -/
def ofBytes : List UInt8 → List UInt32
  | b0 :: b1 :: b2 :: b3 :: rest => UInt32.ofNat (leValue [b0, b1, b2, b3]) :: ofBytes rest
  | _ => []

theorem ofBytes_u32ToLeBytes_append (w : UInt32) (bytes : List UInt8) :
    ofBytes (u32ToLeBytes w ++ bytes) = w :: ofBytes bytes := by
  have hvalue : leValue (u32ToLeBytes w) = w.toNat := leValue_leDigits w.toNat_lt
  change UInt32.ofNat (leValue (u32ToLeBytes w)) :: ofBytes bytes = w :: ofBytes bytes
  rw [hvalue, UInt32.ofNat_toNat]

theorem ofBytes_toBytes (words : List UInt32) : ofBytes (toBytes words) = words := by
  induction words with
  | nil => rfl
  | cons w words ih =>
    rw [toBytes, List.flatMap_cons, ofBytes_u32ToLeBytes_append]
    exact congrArg _ ih

theorem length_toBytes (words : List UInt32) : (toBytes words).length = 4 * words.length := by
  induction words with
  | nil => rfl
  | cons w words ih =>
    rw [toBytes, List.flatMap_cons, List.length_append, u32ToLeBytes, length_leDigits]
    rw [toBytes] at ih
    rw [ih, List.length_cons]
    omega

def Format.serialize (F : Format α) (a : α) : List UInt8 := toBytes (F.write a)

/-- The value that aligned bytes begin with. -/
def Format.deserialize (F : Format α) (bytes : List UInt8) : Option α :=
  if bytes.length % 4 = 0 then (F.read (ofBytes bytes)).map Prod.fst else none

/-- What fits is read back. -/
theorem Format.deserialize_serialize (F : Format α) {a : α} (h : F.Fits a) :
    F.deserialize (F.serialize a) = some a := by
  have haligned : (F.serialize a).length % 4 = 0 := by
    rw [Format.serialize, length_toBytes, Nat.mul_mod_right]
  have hread : F.read (F.write a) = some (a, []) := by
    have := F.read_write a [] h
    rwa [List.append_nil] at this
  rw [Format.deserialize, if_pos haligned, Format.serialize, ofBytes_toBytes, hread]
  rfl

theorem Format.length_serialize (F : Format α) (a : α) :
    (F.serialize a).length = 4 * (F.write a).length := length_toBytes _

/-! ## What is read -/

/-- The values that are read are values that can be written. -/
def Format.ReadsFit (F : Format α) : Prop :=
  ∀ words a rest, F.read words = some (a, rest) → F.Fits a

/-- One format reads what another one reads, with the same values. -/
def Format.Extends (F G : Format α) : Prop :=
  ∀ words r, G.read words = some r → F.read words = some r

section Reads

variable {β : Type} {F F' : Format α} {G G' : Format β}

theorem Format.Extends.refl (F : Format α) : F.Extends F := fun _ _ h => h

theorem Format.ReadsFit.pair (hF : F.ReadsFit) (hG : G.ReadsFit) : (F.pair G).ReadsFit := by
  rintro words ⟨a, b⟩ rest h
  simp only [Format.pair, bind, Option.bind_eq_some_iff, Option.some.injEq, Prod.mk.injEq] at h
  obtain ⟨⟨a', mid⟩, ha, ⟨b', rest'⟩, hb, ⟨rfl, rfl⟩, rfl⟩ := h
  exact ⟨hF _ _ _ ha, hG _ _ _ hb⟩

theorem Format.Extends.pair (hF : F'.Extends F) (hG : G'.Extends G) :
    (F'.pair G').Extends (F.pair G) := by
  intro words r h
  simp only [Format.pair, bind, Option.bind_eq_some_iff] at h ⊢
  obtain ⟨p, ha, q, hb, hr⟩ := h
  exact ⟨p, hF _ _ ha, q, hG _ _ hb, hr⟩

theorem Format.ReadsFit.comap (hF : F.ReadsFit) (e : β ≃ α) : (F.comap e).ReadsFit := by
  intro words b rest h
  simp only [Format.comap, Option.map_eq_some_iff, Prod.mk.injEq] at h
  obtain ⟨⟨a, rest'⟩, ha, rfl, rfl⟩ := h
  have hfits := hF _ _ _ ha
  rwa [← e.apply_symm_apply a] at hfits

theorem Format.Extends.comap (hF : F'.Extends F) (e : β ≃ α) :
    (F'.comap e).Extends (F.comap e) := by
  intro words r h
  simp only [Format.comap, Option.map_eq_some_iff] at h ⊢
  obtain ⟨p, hp, hr⟩ := h
  exact ⟨p, hF _ _ hp, hr⟩

theorem Format.readMany_fits (hF : F.ReadsFit) {n : ℕ} {words : List UInt32} {as : List α}
    {rest : List UInt32} (h : F.readMany n words = some (as, rest)) :
    as.length = n ∧ ∀ a ∈ as, F.Fits a := by
  induction n generalizing words as with
  | zero =>
    obtain ⟨rfl, -⟩ := Prod.mk.inj (Option.some.inj h)
    exact ⟨rfl, fun a ha => absurd ha List.not_mem_nil⟩
  | succ n ih =>
    simp only [Format.readMany, bind, Option.bind_eq_some_iff, Option.some.injEq,
      Prod.mk.injEq] at h
    obtain ⟨⟨a, mid⟩, ha, ⟨as', rest'⟩, has, rfl, rfl⟩ := h
    obtain ⟨hlength, hfits⟩ := ih has
    refine ⟨by rw [List.length_cons, hlength], ?_⟩
    intro b hb
    rcases List.mem_cons.mp hb with rfl | hb
    · exact hF _ _ _ ha
    · exact hfits b hb

theorem Format.Extends.readMany (hF : F'.Extends F) {n : ℕ} {words : List UInt32}
    {r : List α × List UInt32} (h : F.readMany n words = some r) :
    F'.readMany n words = some r := by
  induction n generalizing words r with
  | zero => exact h
  | succ n ih =>
    simp only [Format.readMany, bind, Option.bind_eq_some_iff] at h ⊢
    obtain ⟨p, hp, q, hq, hr⟩ := h
    exact ⟨p, hF _ _ hp, q, ih hq, hr⟩

theorem Format.ReadsFit.list (hF : F.ReadsFit) : F.list.ReadsFit := by
  intro words as rest h
  cases words with
  | nil => cases h
  | cons n words =>
    obtain ⟨hlength, hfits⟩ := Format.readMany_fits hF h
    exact ⟨hlength ▸ n.toNat_lt, hfits⟩

theorem Format.Extends.list (hF : F'.Extends F) : F'.list.Extends F.list := by
  intro words r h
  cases words with
  | nil => cases h
  | cons n words => exact hF.readMany h

theorem Format.ReadsFit.vector (hF : F.ReadsFit) (n : ℕ) : (F.vector n).ReadsFit := by
  intro words v rest h
  simp only [Format.vector, bind, Option.bind_eq_some_iff, Option.dite_none_right_eq_some,
    Option.some.injEq, Prod.mk.injEq] at h
  obtain ⟨⟨as, rest'⟩, has, _, rfl, rfl⟩ := h
  exact (Format.readMany_fits hF has).2

theorem Format.Extends.vector (hF : F'.Extends F) (n : ℕ) :
    (F'.vector n).Extends (F.vector n) := by
  intro words r h
  simp only [Format.vector, bind, Option.bind_eq_some_iff] at h ⊢
  obtain ⟨p, hp, hr⟩ := h
  exact ⟨p, hF.readMany hp, hr⟩

theorem Format.ReadsFit.of_deserialize (hF : F.ReadsFit) {bytes : List UInt8} {a : α}
    (h : F.deserialize bytes = some a) : F.Fits a := by
  rw [Format.deserialize] at h
  split at h
  · obtain ⟨⟨b, rest⟩, hb, rfl⟩ := Option.map_eq_some_iff.mp h
    exact hF _ _ _ hb
  · cases h

end Reads

end WorldZk.WordSerde
