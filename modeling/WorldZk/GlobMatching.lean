import Mathlib
import WorldZk.RuleEngine

/-!
# Glob patterns

The language of a pattern is the product of the languages of its bytes. The matcher compares a byte
of the pattern with the byte of the text before it asks whether the former is a star. A star that
meets a star byte of the text is therefore read as that byte and never as a longer sequence.
-/

namespace WorldZk.GlobMatching

open RuleEngine

/-! ## Languages -/

/-- `*` is 42 and `?` is 63. -/
def byteLanguage (c : UInt8) : Language UInt8 :=
  if c = 42 then ⊤ else if c = 63 then ⨆ b : UInt8, {[b]} else {[c]}

def patternLanguage (pattern : List UInt8) : Language UInt8 := (pattern.map byteLanguage).prod

section Languages

variable {c b : UInt8} {pattern text : List UInt8}

@[simp] theorem mem_patternLanguage_nil : text ∈ patternLanguage [] ↔ text = [] :=
  Language.mem_one text

theorem mem_patternLanguage_append {pattern' : List UInt8} :
    text ∈ patternLanguage (pattern ++ pattern') ↔
      ∃ u ∈ patternLanguage pattern, ∃ v ∈ patternLanguage pattern', u ++ v = text := by
  rw [patternLanguage, List.map_append, List.prod_append, Language.mem_mul]
  rfl

theorem mem_patternLanguage_cons :
    text ∈ patternLanguage (c :: pattern) ↔
      ∃ u ∈ byteLanguage c, ∃ v ∈ patternLanguage pattern, u ++ v = text := by
  rw [patternLanguage, List.map_cons, List.prod_cons, Language.mem_mul]
  rfl

theorem mem_patternLanguage_star :
    text ∈ patternLanguage (42 :: pattern) ↔ ∃ k, text.drop k ∈ patternLanguage pattern := by
  rw [mem_patternLanguage_cons]
  constructor
  · rintro ⟨u, -, v, hv, rfl⟩
    refine ⟨u.length, ?_⟩
    rwa [List.drop_left]
  · rintro ⟨k, hk⟩
    exact ⟨text.take k, trivial, text.drop k, hk, List.take_append_drop k text⟩

theorem mem_byteLanguage (hc : c ≠ 42) {w : List UInt8} :
    w ∈ byteLanguage c ↔ ∃ b, w = [b] ∧ (c = 63 ∨ c = b) := by
  rw [byteLanguage, if_neg hc]
  by_cases hany : c = 63
  · rw [if_pos hany]
    constructor
    · intro hw
      obtain ⟨b, hb⟩ := Language.mem_iSup.mp hw
      exact ⟨b, hb, .inl hany⟩
    · rintro ⟨b, rfl, -⟩
      exact Language.mem_iSup.mpr ⟨b, rfl⟩
  · rw [if_neg hany]
    constructor
    · intro hw
      exact ⟨c, hw, .inr rfl⟩
    · rintro ⟨b, rfl, h⟩
      rw [h.resolve_left hany]
      rfl

theorem mem_patternLanguage_byte (hc : c ≠ 42) :
    text ∈ patternLanguage (c :: pattern) ↔
      ∃ b text', text = b :: text' ∧ (c = 63 ∨ c = b) ∧ text' ∈ patternLanguage pattern := by
  rw [mem_patternLanguage_cons]
  constructor
  · rintro ⟨u, hu, v, hv, rfl⟩
    obtain ⟨b, rfl, hb⟩ := (mem_byteLanguage hc).mp hu
    exact ⟨b, v, rfl, hb, hv⟩
  · rintro ⟨b, text', rfl, hb, htext⟩
    exact ⟨[b], (mem_byteLanguage hc).mpr ⟨b, rfl, hb⟩, text', htext, rfl⟩

theorem self_mem_patternLanguage (pattern : List UInt8) : pattern ∈ patternLanguage pattern := by
  induction pattern with
  | nil => exact mem_patternLanguage_nil.mpr rfl
  | cons c pattern ih =>
    by_cases hc : c = 42
    · rw [hc]
      exact mem_patternLanguage_star.mpr ⟨1, ih⟩
    · exact (mem_patternLanguage_byte hc).mpr ⟨c, pattern, rfl, .inr rfl, ih⟩

theorem mem_patternLanguage_any (text : List UInt8) :
    text ∈ patternLanguage (List.replicate text.length 63) := by
  induction text with
  | nil => exact mem_patternLanguage_nil.mpr rfl
  | cons b text ih =>
    exact (mem_patternLanguage_byte (by decide)).mpr ⟨b, text, rfl, .inl rfl, ih⟩

end Languages

/-! ## What the matcher reads -/

/-- A byte of the pattern is compared with a byte of the text. -/
def Compares (c b : UInt8) : Prop := c = 63 ∨ c = b

/-- The pattern read along the text, where a star that meets a star byte stands for that byte. -/
inductive LiteralReading : List UInt8 → List UInt8 → Prop
  | nil : LiteralReading [] []
  | byte {c b : UInt8} {pattern text : List UInt8} (compares : Compares c b)
      (tail : LiteralReading pattern text) : LiteralReading (c :: pattern) (b :: text)
  | star {pattern text : List UInt8} (k : ℕ) (head : text.head? ≠ some 42)
      (tail : LiteralReading pattern (text.drop k)) : LiteralReading (42 :: pattern) text

section Readings

variable {c b : UInt8} {pattern text : List UInt8}

theorem LiteralReading.mem (h : LiteralReading pattern text) : text ∈ patternLanguage pattern := by
  induction h with
  | nil => exact mem_patternLanguage_nil.mpr rfl
  | @byte c b pattern text compares tail ih =>
    by_cases hc : c = 42
    · rw [hc]
      exact mem_patternLanguage_star.mpr ⟨1, ih⟩
    · exact (mem_patternLanguage_byte hc).mpr ⟨b, text, rfl, compares, ih⟩
  | star k head tail ih => exact mem_patternLanguage_star.mpr ⟨k, ih⟩

theorem literalReading_cons (h : Compares c b) :
    LiteralReading (c :: pattern) (b :: text) ↔ LiteralReading pattern text := by
  constructor
  · intro hreading
    cases hreading with
    | byte compares tail => exact tail
    | star k head tail =>
      rcases h with h | h
      · exact absurd h (by decide)
      · exact absurd (congrArg some h.symm) head
  · exact .byte h

theorem LiteralReading.exists_drop (h : LiteralReading (42 :: pattern) text) :
    ∃ k, LiteralReading pattern (text.drop k) := by
  cases h with
  | byte compares tail => exact ⟨1, tail⟩
  | star k head tail => exact ⟨k, tail⟩

theorem literalReading_star (hb : b ≠ 42) :
    LiteralReading (42 :: pattern) (b :: text) ↔
      ∃ k, LiteralReading pattern ((b :: text).drop k) := by
  constructor
  · exact LiteralReading.exists_drop
  · rintro ⟨k, hk⟩
    exact .star k (fun h => hb (Option.some.inj h)) hk

theorem not_literalReading_cons (hcompares : ¬Compares c b) (hc : c ≠ 42) :
    ¬LiteralReading (c :: pattern) (b :: text) := by
  intro hreading
  cases hreading with
  | byte compares tail => exact hcompares compares
  | star k head tail => exact hc rfl

theorem not_literalReading_nil : ¬LiteralReading [] (b :: text) := nofun

theorem literalReading_nil_iff : LiteralReading pattern [] ↔ ∀ c ∈ pattern, c = 42 := by
  constructor
  · intro hreading
    induction pattern with
    | nil => nofun
    | cons c pattern ih =>
      cases hreading with
      | star k head tail =>
        rw [List.drop_nil] at tail
        exact List.forall_mem_cons.mpr ⟨rfl, ih tail⟩
  · intro hstars
    induction pattern with
    | nil => exact .nil
    | cons c pattern ih =>
      obtain ⟨rfl, hrest⟩ := List.forall_mem_cons.mp hstars
      exact .star 0 nofun (ih hrest)

theorem LiteralReading.length_eq (h : LiteralReading pattern text) (hstars : 42 ∉ pattern) :
    pattern.length = text.length := by
  induction h with
  | nil => rfl
  | byte compares tail ih =>
    rw [List.length_cons, List.length_cons, ih (List.not_mem_of_not_mem_cons hstars)]
  | star k head tail ih => exact absurd List.mem_cons_self hstars

/-! ## Resuming at the last star

The part of the pattern behind the last star has been compared with the text from some place on. A
reading of that part that starts later does not get ahead of the comparison: what is left of the
pattern is then read somewhere in what is left of the text. -/

variable {compared read : List UInt8}

theorem literalReading_append (h : List.Forall₂ Compares compared read) :
    LiteralReading (compared ++ pattern) (read ++ text) ↔ LiteralReading pattern text := by
  induction h with
  | nil => rfl
  | cons hcompares _ ih => exact (literalReading_cons hcompares).trans ih

/-- The induction is on the comparison, for every place to start at. -/
theorem exists_literalReading_of_append (h : List.Forall₂ Compares compared read) {k : ℕ}
    (hreading : LiteralReading (compared ++ pattern) ((read ++ text).drop k)) :
    ∃ k', LiteralReading pattern (text.drop k') := by
  induction h generalizing k with
  | nil => exact ⟨k, hreading⟩
  | @cons c b compared read hcompares _ ih =>
    cases k with
    | zero => exact ih (k := 0) ((literalReading_cons hcompares).mp hreading)
    | succ k =>
      rw [List.cons_append, List.cons_append, List.drop_succ_cons] at hreading
      generalize htext : (read ++ text).drop k = text' at hreading
      cases hreading with
      | @byte _ b' _ tail' _ tail =>
        refine ih (k := k + 1) ?_
        rwa [List.drop_add_one_eq_tail_drop, htext]
      | star k' head tail =>
        rw [← htext, List.drop_drop] at tail
        exact ih tail

end Readings

/-! ## The loop -/

section Loop

variable {pattern text : List UInt8}

/-- The part of the pattern between the last star and the current place has been compared with the
part of the text between the place of that star and the current one. -/
def Compared (pattern text : List UInt8) (s : GlobState) : Prop :=
  ∀ sp ∈ s.starPx, ∃ compared read, List.Forall₂ Compares compared read ∧
    pattern.drop (sp + 1) = compared ++ pattern.drop s.px ∧
    text.drop s.starTx = read ++ text.drop s.tx

/-- What the loop decides: from a star on, where the rest of the pattern starts is open. -/
def Readable (pattern text : List UInt8) (s : GlobState) : Prop :=
  match s.starPx with
  | none => LiteralReading (pattern.drop s.px) (text.drop s.tx)
  | some sp => ∃ k, LiteralReading (pattern.drop (sp + 1)) ((text.drop s.starTx).drop k)

theorem Compared.step {s : GlobState} (hs : Compared pattern text s) (htx : s.tx < text.length)
    (hpx : s.px < pattern.length) (hcompares : Compares pattern[s.px] text[s.tx])
    (hle : s.starTx ≤ s.tx + 1) :
    Compared pattern text ⟨s.px + 1, s.tx + 1, s.starPx, s.starTx, hle⟩ := by
  intro sp hsp
  obtain ⟨compared, read, hforall, hpattern, htext⟩ := hs sp hsp
  refine ⟨compared ++ [pattern[s.px]], read ++ [text[s.tx]], ?_, ?_, ?_⟩
  · exact List.rel_append hforall (.cons hcompares .nil)
  · rw [hpattern, List.append_assoc, List.singleton_append, List.getElem_cons_drop]
  · rw [htext, List.append_assoc, List.singleton_append, List.getElem_cons_drop]

theorem compared_start (sp starTx : ℕ) :
    Compared pattern text ⟨sp + 1, starTx, some sp, starTx, le_rfl⟩ := by
  intro sp' hsp
  cases hsp
  exact ⟨[], [], .nil, rfl, rfl⟩

section Readable

variable {s : GlobState} {sp : ℕ}

theorem readable_none (h : s.starPx = none) :
    Readable pattern text s ↔ LiteralReading (pattern.drop s.px) (text.drop s.tx) := by
  rw [Readable, h]

theorem readable_some (h : s.starPx = some sp) :
    Readable pattern text s ↔
      ∃ k, LiteralReading (pattern.drop (sp + 1)) ((text.drop s.starTx).drop k) := by
  rw [Readable, h]

theorem Compared.readable (hs : Compared pattern text s)
    (h : LiteralReading (pattern.drop s.px) (text.drop s.tx)) : Readable pattern text s := by
  cases hsp : s.starPx with
  | none => exact (readable_none hsp).mpr h
  | some sp =>
    obtain ⟨compared, read, hforall, hpattern, htext⟩ := hs sp hsp
    refine (readable_some hsp).mpr ⟨0, ?_⟩
    rwa [List.drop_zero, hpattern, htext, literalReading_append hforall]

/-- What can be read at all can be read from the current place or a later one. -/
theorem Compared.exists_literalReading (hs : Compared pattern text s)
    (h : Readable pattern text s) :
    ∃ k, LiteralReading (pattern.drop s.px) ((text.drop s.tx).drop k) := by
  cases hsp : s.starPx with
  | none => exact ⟨0, (readable_none hsp).mp h⟩
  | some sp =>
    obtain ⟨compared, read, hforall, hpattern, htext⟩ := hs sp hsp
    obtain ⟨k, hk⟩ := (readable_some hsp).mp h
    rw [hpattern, htext] at hk
    exact exists_literalReading_of_append hforall hk

/-- Where the comparison with the text stops, the place of the last star is the wrong one. -/
theorem readable_resume (hs : Compared pattern text s)
    (hsp : s.starPx = some sp) (hle : s.starTx + 1 ≤ s.starTx + 1)
    (hstop : ¬LiteralReading (pattern.drop s.px) (text.drop s.tx)) :
    Readable pattern text ⟨sp + 1, s.starTx + 1, some sp, s.starTx + 1, hle⟩ ↔
      Readable pattern text s := by
  obtain ⟨compared, read, hforall, hpattern, htext⟩ := hs sp hsp
  have hzero : ¬LiteralReading (pattern.drop (sp + 1)) (text.drop s.starTx) := by
    rwa [hpattern, htext, literalReading_append hforall]
  simp only [Readable, hsp, List.drop_drop]
  constructor
  · rintro ⟨k, hk⟩
    exact ⟨k + 1, by rwa [Nat.add_right_comm] at hk⟩
  · rintro ⟨k, hk⟩
    cases k with
    | zero => exact absurd hk hzero
    | succ k => exact ⟨k, by rwa [Nat.add_right_comm]⟩

theorem globLoop_iff (hs : Compared pattern text s) :
    globLoop pattern text s = true ↔ Readable pattern text s := by
  fun_induction globLoop pattern text s with
  | case1 s htx hpx hcompares ih =>
    rw [ih (hs.step htx hpx hcompares _)]
    cases hsp : s.starPx with
    | none =>
      rw [readable_none hsp, readable_none rfl, List.drop_eq_getElem_cons hpx,
        List.drop_eq_getElem_cons htx]
      exact (literalReading_cons hcompares).symm
    | some sp => rw [readable_some hsp, readable_some rfl]
  | case2 s htx hpx hcompares hstar ih =>
    have hb : text[s.tx] ≠ 42 := fun hb => hcompares (.inr (hstar.trans hb.symm))
    have hpattern := List.drop_eq_getElem_cons hpx
    have htext := List.drop_eq_getElem_cons htx
    rw [hstar] at hpattern
    rw [ih (compared_start s.px s.tx), readable_some rfl]
    constructor
    · intro hrest
      refine hs.readable ?_
      rw [htext] at hrest
      rwa [hpattern, htext, literalReading_star hb]
    · intro hreadable
      obtain ⟨k, hk⟩ := hs.exists_literalReading hreadable
      rw [hpattern] at hk
      obtain ⟨k', hk'⟩ := hk.exists_drop
      rw [List.drop_drop] at hk'
      exact ⟨k + k', hk'⟩
  | case3 s htx hpx hcompares hstar sp hsp ih =>
    rw [ih (compared_start sp _)]
    refine readable_resume hs hsp _ ?_
    rw [List.drop_eq_getElem_cons hpx, List.drop_eq_getElem_cons htx]
    exact not_literalReading_cons hcompares hstar
  | case4 s htx hpx hcompares hstar hnone =>
    rw [Readable, hnone, List.drop_eq_getElem_cons hpx, List.drop_eq_getElem_cons htx]
    exact iff_of_false Bool.false_ne_true (not_literalReading_cons hcompares hstar)
  | case5 s htx hpx sp hsp ih =>
    rw [ih (compared_start sp _)]
    refine readable_resume hs hsp _ ?_
    rw [List.drop_eq_nil_of_le (not_lt.mp hpx), List.drop_eq_getElem_cons htx]
    exact not_literalReading_nil
  | case6 s htx hpx hnone =>
    rw [Readable, hnone, List.drop_eq_nil_of_le (not_lt.mp hpx), List.drop_eq_getElem_cons htx]
    exact iff_of_false Bool.false_ne_true not_literalReading_nil
  | case7 s htx =>
    have hend := List.drop_eq_nil_of_le (not_lt.mp htx)
    have hstars : (pattern.drop s.px).all (· == 42) = true ↔
        LiteralReading (pattern.drop s.px) (text.drop s.tx) := by
      rw [hend, literalReading_nil_iff]
      simp
    rw [hstars]
    constructor
    · exact hs.readable
    · intro hreadable
      obtain ⟨k, hk⟩ := hs.exists_literalReading hreadable
      rwa [hend, List.drop_nil, ← hend] at hk

end Readable

theorem globMatch_iff : globMatch pattern text = true ↔ LiteralReading pattern text :=
  globLoop_iff (fun _ h => nomatch h)

end Loop

/-! ## Where the matcher is right -/

/-- The matcher decides the language of the pattern on this text. -/
def Exact (pattern text : List UInt8) : Prop :=
  globMatch pattern text = true ↔ text ∈ patternLanguage pattern

section Exact

variable {pattern text : List UInt8}

theorem exact_iff : Exact pattern text ↔
    (text ∈ patternLanguage pattern → LiteralReading pattern text) := by
  rw [Exact, globMatch_iff]
  exact ⟨fun h => h.mpr, fun h => ⟨LiteralReading.mem, h⟩⟩

theorem literalReading_of_not_mem_pattern (hstars : 42 ∉ pattern)
    (h : text ∈ patternLanguage pattern) : LiteralReading pattern text := by
  induction pattern generalizing text with
  | nil =>
    rw [mem_patternLanguage_nil.mp h]
    exact .nil
  | cons c pattern ih =>
    have hc : c ≠ 42 := fun hc => hstars (hc ▸ List.mem_cons_self)
    obtain ⟨b, text', rfl, hb, htext⟩ := (mem_patternLanguage_byte hc).mp h
    exact .byte hb (ih (List.not_mem_of_not_mem_cons hstars) htext)

theorem literalReading_of_not_mem_text (hstars : 42 ∉ text) (h : text ∈ patternLanguage pattern) :
    LiteralReading pattern text := by
  induction pattern generalizing text with
  | nil =>
    rw [mem_patternLanguage_nil.mp h]
    exact .nil
  | cons c pattern ih =>
    by_cases hc : c = 42
    · rw [hc] at h ⊢
      obtain ⟨k, hk⟩ := mem_patternLanguage_star.mp h
      have hhead : text.head? ≠ some 42 := fun hhead => hstars (List.mem_of_head? hhead)
      exact .star k hhead (ih (fun hmem => hstars (List.mem_of_mem_drop hmem)) hk)
    · obtain ⟨b, text', rfl, hb, htext⟩ := (mem_patternLanguage_byte hc).mp h
      exact .byte hb (ih (List.not_mem_of_not_mem_cons hstars) htext)

theorem literalReading_self_append (u : List UInt8) {pattern text : List UInt8} :
    LiteralReading (u ++ pattern) (u ++ text) ↔ LiteralReading pattern text :=
  literalReading_append (List.forall₂_same.mpr fun _ _ => .inr rfl)

/-- At the last star of the pattern, one byte more than the star itself is not read. -/
theorem exists_not_exact_text (hmem : 42 ∈ pattern) : ∃ text, ¬Exact pattern text := by
  obtain ⟨v, u, hreverse, hv⟩ := List.eq_append_cons_of_mem (List.mem_reverse.mpr hmem)
  obtain rfl : pattern = u.reverse ++ 42 :: v.reverse := by
    rw [← List.reverse_reverse pattern, hreverse]
    simp
  refine ⟨u.reverse ++ 42 :: 0 :: v.reverse, fun h => ?_⟩
  have hlanguage : u.reverse ++ 42 :: 0 :: v.reverse ∈
      patternLanguage (u.reverse ++ 42 :: v.reverse) := by
    refine mem_patternLanguage_append.mpr
      ⟨u.reverse, self_mem_patternLanguage _, 42 :: 0 :: v.reverse, ?_, rfl⟩
    exact mem_patternLanguage_star.mpr ⟨2, self_mem_patternLanguage _⟩
  have hreading := exact_iff.mp h hlanguage
  rw [literalReading_self_append, literalReading_cons (.inr rfl)] at hreading
  have hlength := hreading.length_eq (fun hmem => hv (List.mem_reverse.mp hmem))
  rw [List.length_cons] at hlength
  omega

/-- At a star of the text, a star of the pattern that stands for nothing is not read. -/
theorem exists_not_exact_pattern (hmem : 42 ∈ text) : ∃ pattern, ¬Exact pattern text := by
  obtain ⟨u, v, rfl⟩ := List.append_of_mem hmem
  refine ⟨u ++ 42 :: List.replicate (v.length + 1) 63, fun h => ?_⟩
  have hlanguage : u ++ 42 :: v ∈
      patternLanguage (u ++ 42 :: List.replicate (v.length + 1) 63) := by
    refine mem_patternLanguage_append.mpr ⟨u, self_mem_patternLanguage u, 42 :: v, ?_, rfl⟩
    exact mem_patternLanguage_star.mpr ⟨0, mem_patternLanguage_any (42 :: v)⟩
  have hreading := exact_iff.mp h hlanguage
  rw [literalReading_self_append, literalReading_cons (.inr rfl)] at hreading
  have hlength := hreading.length_eq (by simp)
  rw [List.length_replicate] at hlength
  omega

end Exact

/-- The matcher is right exactly where a text of the language has a literal reading. So it is right
on all texts exactly for the patterns without stars, and for all patterns exactly on the texts
without star bytes. -/
theorem glob_match_exact_iff (pattern text : List UInt8) :
    (Exact pattern text ↔ (text ∈ patternLanguage pattern → LiteralReading pattern text)) ∧
    ((∀ text, Exact pattern text) ↔ 42 ∉ pattern) ∧
    ((∀ pattern, Exact pattern text) ↔ 42 ∉ text) := by
  refine ⟨exact_iff, ⟨fun h hmem => ?_, fun h text => ?_⟩, ⟨fun h hmem => ?_, fun h pattern => ?_⟩⟩
  · obtain ⟨text, htext⟩ := exists_not_exact_text hmem
    exact htext (h text)
  · exact exact_iff.mpr (literalReading_of_not_mem_pattern h)
  · obtain ⟨pattern, hpattern⟩ := exists_not_exact_pattern hmem
    exact hpattern (h pattern)
  · exact exact_iff.mpr (literalReading_of_not_mem_text h)

/-- The pattern `*` and the text `*x`. -/
theorem star_byte_refused : ¬Exact [42] [42, 120] := by
  intro h
  have hlanguage : [42, 120] ∈ patternLanguage [42] :=
    mem_patternLanguage_star.mpr ⟨2, mem_patternLanguage_nil.mpr rfl⟩
  have hreading := exact_iff.mp h hlanguage
  exact not_literalReading_nil ((literalReading_cons (.inr rfl)).mp hreading)

end WorldZk.GlobMatching
