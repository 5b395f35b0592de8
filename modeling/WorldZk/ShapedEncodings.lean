import Mathlib.Data.List.Forall2
import Mathlib.Logic.Equiv.List

/-!
# Encodings of nested lists

A value is encoded as bytes. Some of them are free, and some are fixed by the shape of the value:
by the lengths of the lists in it. An encoding of this kind identifies the value among those of
one shape. Two shapes are told apart exactly when their fixed bytes contradict one another.
-/

namespace WorldZk.ShapedEncodings

/-! ## Templates -/

/-- Bytes with holes. -/
abbrev Template : Type := List (Option UInt8)

/-- The bytes agree with the template outside of its holes. -/
def Fills : Template → List UInt8 → Prop := List.Forall₂ fun hole byte => ∀ a ∈ hole, a = byte

/-- Two templates of one length that agree where neither has a hole. -/
def Compatible : Template → Template → Prop :=
  List.Forall₂ fun hole hole' => ∀ a ∈ hole, ∀ b ∈ hole', a = b

instance (t u : Template) : Decidable (Compatible t u) :=
  letI (hole hole' : Option UInt8) : Decidable (∀ a ∈ hole, ∀ b ∈ hole', a = b) :=
    @Option.decidableForallMem _ _ (fun _ => Option.decidableForallMem hole') hole
  inferInstanceAs (Decidable (List.Forall₂ _ t u))

/-- A template of holes only. -/
def free (n : ℕ) : Template := List.replicate n none

/-- A template without holes. -/
def fixed (bytes : List UInt8) : Template := bytes.map some

section Templates

variable {t u : Template} {bytes bytes' : List UInt8} {n : ℕ}

theorem Fills.length_eq (h : Fills t bytes) : bytes.length = t.length :=
  (List.Forall₂.length_eq h).symm

@[simp] theorem fills_nil : Fills [] bytes ↔ bytes = [] := List.forall₂_nil_left_iff

theorem fills_cons {hole : Option UInt8} : Fills (hole :: t) bytes ↔
    ∃ byte rest, (∀ a ∈ hole, a = byte) ∧ Fills t rest ∧ bytes = byte :: rest :=
  List.forall₂_cons_left_iff

theorem fills_append : Fills (t ++ u) bytes ↔
    ∃ first second, bytes = first ++ second ∧ Fills t first ∧ Fills u second := by
  constructor
  · intro h
    induction t generalizing bytes with
    | nil => exact ⟨[], bytes, rfl, fills_nil.mpr rfl, h⟩
    | cons hole t ih =>
      obtain ⟨byte, rest, hbyte, hrest, rfl⟩ := fills_cons.mp h
      obtain ⟨first, second, rfl, hfirst, hsecond⟩ := ih hrest
      exact ⟨byte :: first, second, rfl, .cons hbyte hfirst, hsecond⟩
  · rintro ⟨first, second, rfl, hfirst, hsecond⟩
    exact List.rel_append hfirst hsecond

theorem fills_free : Fills (free n) bytes ↔ bytes.length = n := by
  induction n generalizing bytes with
  | zero => exact fills_nil.trans List.length_eq_zero_iff.symm
  | succ n ih =>
    have htail (rest : List UInt8) : Fills (List.replicate n none) rest ↔ rest.length = n := ih
    rw [free, List.replicate_succ, fills_cons]
    simp only [htail, List.length_eq_succ_iff]
    constructor
    · rintro ⟨byte, rest, -, hrest, rfl⟩
      exact ⟨byte, rest, rfl, hrest⟩
    · rintro ⟨byte, rest, rfl, hrest⟩
      exact ⟨byte, rest, fun a ha => (by cases ha), hrest, rfl⟩

theorem fills_fixed : Fills (fixed bytes) bytes' ↔ bytes' = bytes := by
  induction bytes generalizing bytes' with
  | nil => exact fills_nil
  | cons byte bytes ih =>
    have htail (rest : List UInt8) : Fills (bytes.map some) rest ↔ rest = bytes := ih
    rw [fixed, List.map_cons, fills_cons]
    simp only [htail]
    constructor
    · rintro ⟨byte', rest, hbyte, rfl, rfl⟩
      rw [hbyte byte rfl]
    · rintro rfl
      exact ⟨byte, bytes, fun a ha => (Option.some.inj ha).symm, rfl, rfl⟩

/-- Templates are compatible when the same bytes fill both. -/
theorem compatible_iff : Compatible t u ↔ ∃ bytes, Fills t bytes ∧ Fills u bytes := by
  constructor
  · intro h
    induction h with
    | nil => exact ⟨[], .nil, .nil⟩
    | @cons hole hole' t u hhead _ ih =>
      obtain ⟨bytes, ht, hu⟩ := ih
      cases hole with
      | none =>
        refine ⟨hole'.getD 0 :: bytes, .cons (by simp) ht, .cons (fun b hb => ?_) hu⟩
        rw [Option.mem_def.mp hb, Option.getD_some]
      | some a =>
        refine ⟨a :: bytes, .cons (by simp) ht, .cons (fun b hb => ?_) hu⟩
        exact (hhead a rfl b hb).symm
  · rintro ⟨bytes, ht, hu⟩
    induction ht generalizing u with
    | nil =>
      cases hu
      exact .nil
    | cons hhead _ ih =>
      cases hu with
      | cons hhead' htail =>
        exact .cons (fun a ha b hb => (hhead a ha).trans (hhead' b hb).symm) (ih htail)

end Templates

/-! ## Encodings -/

/-- An encoding whose values of one shape are the byte strings that fill the shape's template. -/
structure ShapedEncoding (α S : Type) where
  shape : α → S
  encode : α → List UInt8
  template : S → Template
  fills : ∀ a, Fills (template (shape a)) (encode a)
  read : ∀ s bytes, Fills (template s) bytes → ∃! a, shape a = s ∧ encode a = bytes

namespace ShapedEncoding

variable {α β S T : Type}

theorem length_encode (E : ShapedEncoding α S) (a : α) :
    (E.encode a).length = (E.template (E.shape a)).length := (E.fills a).length_eq

/-- Values of one shape with the same bytes are equal. -/
theorem encode_injOn (E : ShapedEncoding α S) {a b : α} (hshape : E.shape a = E.shape b)
    (h : E.encode a = E.encode b) : a = b :=
  (E.read _ _ (E.fills b)).unique ⟨hshape, h⟩ ⟨rfl, rfl⟩

/-- The bytes identify the value among all values of two shapes exactly when the shapes are the
same or their templates contradict one another. -/
theorem identifies_iff (E : ShapedEncoding α S) (s t : S) :
    (∀ a b, E.shape a = s → E.shape b = t → E.encode a = E.encode b → a = b) ↔
      s = t ∨ ¬Compatible (E.template s) (E.template t) := by
  constructor
  · intro h
    by_contra hneither
    rw [not_or, not_not] at hneither
    obtain ⟨hne, hcompatible⟩ := hneither
    obtain ⟨bytes, hs, ht⟩ := compatible_iff.mp hcompatible
    obtain ⟨a, ⟨ha, hencode⟩, -⟩ := E.read s bytes hs
    obtain ⟨b, ⟨hb, hencode'⟩, -⟩ := E.read t bytes ht
    obtain rfl := h a b ha hb (hencode.trans hencode'.symm)
    exact hne (ha.symm.trans hb)
  · rintro (rfl | hclash) a b ha hb h
    · exact E.encode_injOn (ha.trans hb.symm) h
    · refine absurd (compatible_iff.mpr ⟨E.encode a, ?_, ?_⟩) hclash
      · exact ha ▸ E.fills a
      · rw [h]
        exact hb ▸ E.fills b

/-- A value of `n` bytes, all of them free. -/
def piece (n : ℕ) (encode : α → List UInt8) (hlength : ∀ a, (encode a).length = n)
    (hread : ∀ bytes : List UInt8, bytes.length = n → ∃! a, encode a = bytes) :
    ShapedEncoding α Unit where
  shape := fun _ => ()
  encode := encode
  template := fun _ => free n
  fills := fun a => fills_free.mpr (hlength a)
  read := fun _ bytes h => by simpa using hread bytes (fills_free.mp h)

/-- One value after another. -/
def pair (E : ShapedEncoding α S) (F : ShapedEncoding β T) : ShapedEncoding (α × β) (S × T) where
  shape := fun p => (E.shape p.1, F.shape p.2)
  encode := fun p => E.encode p.1 ++ F.encode p.2
  template := fun s => E.template s.1 ++ F.template s.2
  fills := fun p => fills_append.mpr ⟨_, _, rfl, E.fills p.1, F.fills p.2⟩
  read := by
    rintro ⟨s, t⟩ bytes h
    obtain ⟨first, second, rfl, hfirst, hsecond⟩ := fills_append.mp h
    obtain ⟨a, ⟨ha, hencode⟩, hunique⟩ := E.read s first hfirst
    obtain ⟨b, ⟨hb, hencode'⟩, hunique'⟩ := F.read t second hsecond
    refine ⟨(a, b), ⟨by rw [ha, hb], by rw [hencode, hencode']⟩, ?_⟩
    rintro ⟨a', b'⟩ ⟨hshape, hbytes⟩
    obtain ⟨ha', hb'⟩ := Prod.mk.inj hshape
    have hlength : (E.encode a').length = first.length := by
      rw [E.length_encode, ha', hfirst.length_eq]
    obtain ⟨hfirst', hsecond'⟩ := List.append_inj hbytes hlength
    rw [hunique a' ⟨ha', hfirst'⟩, hunique' b' ⟨hb', hsecond'⟩]

/-- The values of a list one after another. Nothing marks its end. -/
def list (E : ShapedEncoding α S) : ShapedEncoding (List α) (List S) where
  shape := List.map E.shape
  encode := List.flatMap E.encode
  template := List.flatMap E.template
  fills := by
    intro as
    induction as with
    | nil => exact .nil
    | cons a as ih => exact fills_append.mpr ⟨_, _, rfl, E.fills a, ih⟩
  read := by
    intro ss
    induction ss with
    | nil =>
      intro bytes h
      cases h
      refine ⟨[], ⟨rfl, rfl⟩, fun as has => List.map_eq_nil_iff.mp has.1⟩
    | cons s ss ih =>
      intro bytes h
      obtain ⟨first, second, rfl, hfirst, hsecond⟩ := fills_append.mp h
      obtain ⟨a, ⟨ha, hencode⟩, hunique⟩ := E.read s first hfirst
      obtain ⟨as, ⟨has, hencodes⟩, huniques⟩ := ih second hsecond
      refine ⟨a :: as, ⟨?_, ?_⟩, ?_⟩
      · rw [List.map_cons, ha, has]
      · rw [List.flatMap_cons, hencode, hencodes]
      · rintro bs ⟨hshape, hbytes⟩
        obtain ⟨b, bs, rfl, hb, hbs⟩ := List.map_eq_cons_iff.mp hshape
        rw [List.flatMap_cons] at hbytes
        have hlength : (E.encode b).length = first.length := by
          rw [E.length_encode, hb, hfirst.length_eq]
        obtain ⟨hfirst', hsecond'⟩ := List.append_inj hbytes hlength
        rw [hunique b ⟨hb, hfirst'⟩, huniques bs ⟨hbs, hsecond'⟩]

/-- An encoding behind bytes that tell something about the shape, such as the length of a list. -/
def headed (E : ShapedEncoding α S) (header : S → List UInt8) : ShapedEncoding α S where
  shape := E.shape
  encode := fun a => header (E.shape a) ++ E.encode a
  template := fun s => fixed (header s) ++ E.template s
  fills := fun a => fills_append.mpr ⟨_, _, rfl, fills_fixed.mpr rfl, E.fills a⟩
  read := by
    intro s bytes h
    obtain ⟨first, second, rfl, hfirst, hsecond⟩ := fills_append.mp h
    obtain rfl := fills_fixed.mp hfirst
    obtain ⟨a, ⟨ha, hencode⟩, hunique⟩ := E.read s second hsecond
    refine ⟨a, ⟨ha, by rw [ha, hencode]⟩, fun b hb => hunique b ⟨hb.1, ?_⟩⟩
    have hbytes := hb.2
    rw [hb.1] at hbytes
    exact List.append_cancel_left hbytes

/-- The same encoding of another representation of the values. -/
def comap (E : ShapedEncoding α S) (e : β ≃ α) : ShapedEncoding β S where
  shape := fun b => E.shape (e b)
  encode := fun b => E.encode (e b)
  template := E.template
  fills := fun b => E.fills (e b)
  read := by
    intro s bytes h
    obtain ⟨a, ha, hunique⟩ := E.read s bytes h
    refine ⟨e.symm a, by simpa using ha, fun b hb => ?_⟩
    rw [← hunique (e b) hb, Equiv.symm_apply_apply]

/-- The same encoding with another name for the shapes. -/
def relabel (E : ShapedEncoding α S) (e : S ≃ T) : ShapedEncoding α T where
  shape := fun a => e (E.shape a)
  encode := E.encode
  template := fun t => E.template (e.symm t)
  fills := fun a => by simpa using E.fills a
  read := by
    intro t bytes h
    obtain ⟨a, ⟨ha, hencode⟩, hunique⟩ := E.read (e.symm t) bytes h
    refine ⟨a, ⟨by rw [ha, Equiv.apply_symm_apply], hencode⟩, fun b hb => hunique b ⟨?_, hb.2⟩⟩
    rw [← hb.1, Equiv.symm_apply_apply]

/-! ### Values of one size -/

/-- One value of fixed size after another. -/
def both (E : ShapedEncoding α Unit) (F : ShapedEncoding β Unit) : ShapedEncoding (α × β) Unit :=
  (E.pair F).relabel (Equiv.punitProd Unit)

/-- A list of values of fixed size has its length as its shape. -/
def uniform (E : ShapedEncoding α Unit) : ShapedEncoding (List α) ℕ :=
  E.list.relabel
    { toFun := List.length
      invFun := fun n => List.replicate n ()
      left_inv := fun _ => (List.eq_replicate_iff.mpr ⟨rfl, fun _ _ => rfl⟩).symm
      right_inv := fun _ => List.length_replicate }

theorem uniform_shape (E : ShapedEncoding α Unit) (as : List α) :
    E.uniform.shape as = as.length := List.length_map _

theorem uniform_template (E : ShapedEncoding α Unit) {k : ℕ} (h : E.template () = free k) (n : ℕ) :
    E.uniform.template n = free (k * n) := by
  change (List.replicate n ()).flatMap E.template = free (k * n)
  induction n with
  | zero => rfl
  | succ n ih =>
    rw [List.replicate_succ, List.flatMap_cons, ih, h, free, free, free,
      List.replicate_append_replicate, Nat.mul_succ, Nat.add_comm]

end ShapedEncoding

end WorldZk.ShapedEncodings
