import Mathlib.Data.List.TakeWhile
import Mathlib.Tactic.Common

/-!
# Comma-separated values

The grammar of RFC 4180 as a relation between a text and the rows it stands for. The grammar ends
a line with CRLF. Many readers take a bare LF too, and `lf` tells them apart. A last line end
closes the last row and opens no further one. The relation is a function of the text, as a reader
with one state per place in a field shows.
-/

namespace WorldZk.CsvGrammar

/-! ## Grammar -/

/-- `TEXTDATA`, over all of Unicode. -/
def IsTextData (c : Char) : Prop := c ≠ '"' ∧ c ≠ ',' ∧ c ≠ '\r' ∧ c ≠ '\n'

instance (c : Char) : Decidable (IsTextData c) :=
  inferInstanceAs (Decidable (c ≠ '"' ∧ c ≠ ',' ∧ c ≠ '\r' ∧ c ≠ '\n'))

def IsPlain (v : List Char) : Prop := ∀ c ∈ v, IsTextData c

instance (v : List Char) : Decidable (IsPlain v) := List.decidableBAll IsTextData v

/-- `*(TEXTDATA / COMMA / CR / LF / 2DQUOTE)`. -/
def doubleQuotes (v : List Char) : List Char :=
  v.flatMap fun c => if c = '"' then ['"', '"'] else [c]

inductive Field : List Char → List Char → Prop
  | nonEscaped {v : List Char} (h : IsPlain v) : Field v v
  | escaped (v : List Char) : Field ('"' :: (doubleQuotes v ++ ['"'])) v

inductive Record : List Char → List (List Char) → Prop
  | single {t v : List Char} (h : Field t v) : Record t [v]
  | cons {t v ts : List Char} {vs : List (List Char)} (h : Field t v) (hs : Record ts vs) :
      Record (t ++ ',' :: ts) (v :: vs)

def IsLineEnd (lf : Bool) (b : List Char) : Prop := b = ['\r', '\n'] ∨ lf = true ∧ b = ['\n']

inductive File (lf : Bool) : List Char → List (List (List Char)) → Prop
  | nil : File lf [] []
  | last {t : List Char} {r : List (List Char)} (h : Record t r) (hne : t ≠ []) : File lf t [r]
  | cons {t b ts : List Char} {r : List (List Char)} {rs : List (List (List Char))}
      (h : Record t r) (hb : IsLineEnd lf b) (hs : File lf ts rs) :
      File lf (t ++ (b ++ ts)) (r :: rs)

/-! ## Reader -/

inductive Place
  | fieldStart
  | inText
  | inQuotes
  | afterQuote
  | afterCr
  deriving DecidableEq

/-- What is left of the field, of its row and of the file. -/
abbrev Reading := List Char × List (List Char) × List (List (List Char))

def pushChar (c : Char) (r : Reading) : Reading := (c :: r.1, r.2)

def pushField (r : Reading) : Reading := ([], r.1 :: r.2.1, r.2.2)

def pushRow (r : Reading) : Reading := ([], [], (r.1 :: r.2.1) :: r.2.2)

/-- Behind a line end. -/
def endRow (text : List Char) (r : Option Reading) : Option Reading :=
  if text = [] then some ([], [], []) else r.map pushRow

def readFrom (lf : Bool) : Place → List Char → Option Reading
  | .inQuotes, [] => none
  | .afterCr, [] => none
  | _, [] => some ([], [], [])
  | .inQuotes, c :: text =>
    if c = '"' then readFrom lf .afterQuote text
    else (readFrom lf .inQuotes text).map (pushChar c)
  | .afterCr, c :: text =>
    if c = '\n' then endRow text (readFrom lf .fieldStart text) else none
  | place, c :: text =>
    if c = ',' then (readFrom lf .fieldStart text).map pushField
    else if c = '\r' then readFrom lf .afterCr text
    else if c = '\n' then
      if lf then endRow text (readFrom lf .fieldStart text) else none
    else if c = '"' then
      if place = .fieldStart then readFrom lf .inQuotes text
      else if place = .afterQuote then (readFrom lf .inQuotes text).map (pushChar c)
      else none
    else if place = .afterQuote then none
    else (readFrom lf .inText text).map (pushChar c)

def read (lf : Bool) (text : List Char) : Option (List (List (List Char))) :=
  (endRow text (readFrom lf .fieldStart text)).map fun r => r.2.2

example : read false "a,\"b\"\"\r\n\",\r\n".toList = some [["a".toList, "b\"\r\n".toList, []]] := by
  decide

/-! ## One step of the reader -/

variable {lf : Bool} {c : Char} {t v rest text : List Char} {vs : List (List Char)}
  {rows : List (List (List Char))} {r : Reading}

theorem readFrom_inQuotes_cons (hc : c ≠ '"') :
    readFrom lf .inQuotes (c :: text) = (readFrom lf .inQuotes text).map (pushChar c) := by
  rw [readFrom, if_neg hc]

theorem readFrom_fieldStart_quote :
    readFrom lf .fieldStart ('"' :: text) = readFrom lf .inQuotes text := rfl

theorem readFrom_fieldStart_comma :
    readFrom lf .fieldStart (',' :: text) = (readFrom lf .fieldStart text).map pushField := rfl

theorem readFrom_inText_cons (hc : IsTextData c) :
    readFrom lf .inText (c :: text) = (readFrom lf .inText text).map (pushChar c) := by
  obtain ⟨hquote, hcomma, hcr, hlf⟩ := hc
  simp only [readFrom, if_neg hquote, if_neg hcomma, if_neg hcr, if_neg hlf]
  rfl

theorem readFrom_fieldStart_cons (hc : IsTextData c) :
    readFrom lf .fieldStart (c :: text) = (readFrom lf .inText text).map (pushChar c) := by
  obtain ⟨hquote, hcomma, hcr, hlf⟩ := hc
  simp only [readFrom, if_neg hquote, if_neg hcomma, if_neg hcr, if_neg hlf]
  rfl

theorem readFrom_lineEnd {b : List Char} (hb : IsLineEnd lf b) :
    readFrom lf .fieldStart (b ++ text) = endRow text (readFrom lf .fieldStart text) := by
  obtain rfl | ⟨rfl, rfl⟩ := hb
  · rfl
  · rfl

theorem endRow_eq_some (h : endRow text (readFrom lf .fieldStart text) = some r) :
    r.1 = [] ∧ r.2.1 = [] := by
  rw [endRow] at h
  split at h
  · cases h
    exact ⟨rfl, rfl⟩
  · obtain ⟨r', -, rfl⟩ := Option.map_eq_some_iff.mp h
    exact ⟨rfl, rfl⟩

/-! ## Ends of fields -/

/-- The field before this text is over. -/
def EndsField : List Char → Prop
  | [] => True
  | c :: _ => c = ',' ∨ c = '\r' ∨ c = '\n'

theorem endsField_comma : EndsField (',' :: text) := Or.inl rfl

theorem endsField_lf : EndsField ('\n' :: text) := Or.inr (Or.inr rfl)

theorem readFrom_inText_of_endsField (hrest : EndsField rest) :
    readFrom lf .inText rest = readFrom lf .fieldStart rest := by
  cases rest with
  | nil => rfl
  | cons c rest =>
    obtain rfl | rfl | rfl := hrest
    · rfl
    · rfl
    · rfl

theorem readFrom_afterQuote_of_endsField (hrest : EndsField rest) :
    readFrom lf .afterQuote rest = readFrom lf .fieldStart rest := by
  cases rest with
  | nil => rfl
  | cons c rest =>
    obtain rfl | rfl | rfl := hrest
    · rfl
    · rfl
    · rfl

theorem fst_eq_nil_of_endsField (hrest : EndsField rest)
    (h : readFrom lf .fieldStart rest = some r) : r.1 = [] := by
  cases rest with
  | nil =>
    cases h
    rfl
  | cons c rest =>
    obtain rfl | rfl | rfl := hrest
    · obtain ⟨r', -, rfl⟩ := Option.map_eq_some_iff.mp h
      rfl
    · cases rest with
      | nil => cases h
      | cons d rest =>
        change (if d = '\n' then _ else none) = some r at h
        split at h
        · exact (endRow_eq_some h).1
        · cases h
    · change (if lf = true then _ else none) = some r at h
      split at h
      · exact (endRow_eq_some h).1
      · cases h

theorem isTextData_of_not_endsField (hc : c ≠ '"') (h : ¬EndsField (c :: text)) :
    IsTextData c := by
  rw [EndsField, not_or, not_or] at h
  exact ⟨hc, h⟩

/-! ## Fields -/

def pushValue (v : List Char) (r : Reading) : Reading := (v ++ r.1, r.2)

theorem pushChar_comp_pushValue : pushChar c ∘ pushValue v = pushValue (c :: v) := rfl

theorem readFrom_inText_append (hv : IsPlain v) :
    readFrom lf .inText (v ++ text) = (readFrom lf .inText text).map (pushValue v) := by
  induction v with
  | nil => exact Option.map_id'.symm
  | cons c v ih =>
    obtain ⟨hc, hv⟩ := List.forall_mem_cons.mp hv
    rw [List.cons_append, readFrom_inText_cons hc, ih hv, Option.map_map,
      pushChar_comp_pushValue]

theorem readFrom_plain (hv : IsPlain v) (hrest : EndsField rest) :
    readFrom lf .fieldStart (v ++ rest) =
      (readFrom lf .fieldStart rest).map (pushValue v) := by
  cases v with
  | nil => exact Option.map_id'.symm
  | cons c v =>
    obtain ⟨hc, hv⟩ := List.forall_mem_cons.mp hv
    rw [List.cons_append, readFrom_fieldStart_cons hc, readFrom_inText_append hv,
      readFrom_inText_of_endsField hrest, Option.map_map, pushChar_comp_pushValue]

theorem readFrom_doubleQuotes :
    readFrom lf .inQuotes (doubleQuotes v ++ '"' :: text) =
      (readFrom lf .afterQuote text).map (pushValue v) := by
  induction v with
  | nil => exact Option.map_id'.symm
  | cons c v ih =>
    have hcons : doubleQuotes (c :: v) ++ '"' :: text =
        (if c = '"' then ['"', '"'] else [c]) ++ (doubleQuotes v ++ '"' :: text) := by
      rw [doubleQuotes, List.flatMap_cons, List.append_assoc]
      rfl
    rw [hcons]
    by_cases hc : c = '"'
    · rw [if_pos hc, hc]
      change (readFrom lf .inQuotes (doubleQuotes v ++ '"' :: text)).map (pushChar '"') = _
      rw [ih, Option.map_map, pushChar_comp_pushValue]
    · rw [if_neg hc, List.singleton_append, readFrom_inQuotes_cons hc, ih, Option.map_map,
        pushChar_comp_pushValue]

theorem readFrom_field (h : Field t v) (hrest : EndsField rest) :
    readFrom lf .fieldStart (t ++ rest) =
      (readFrom lf .fieldStart rest).map (pushValue v) := by
  cases h with
  | nonEscaped hv => exact readFrom_plain hv hrest
  | escaped v =>
    rw [List.cons_append, readFrom_fieldStart_quote, List.append_assoc, List.singleton_append,
      readFrom_doubleQuotes, readFrom_afterQuote_of_endsField hrest]

/-! ## Records and files -/

/-- The row before this text is over. -/
def EndsRow (lf : Bool) (text : List Char) : Prop :=
  text = [] ∨ ∃ b ts, IsLineEnd lf b ∧ text = b ++ ts

theorem EndsRow.endsField (h : EndsRow lf text) : EndsField text := by
  obtain rfl | ⟨b, ts, rfl | ⟨-, rfl⟩, rfl⟩ := h
  · trivial
  · exact .inr (.inl rfl)
  · exact .inr (.inr rfl)

theorem readFrom_record (h : Record t vs) (hrest : EndsRow lf rest)
    (hread : readFrom lf .fieldStart rest = some ([], [], rows)) :
    ∃ v vs', vs = v :: vs' ∧ readFrom lf .fieldStart (t ++ rest) = some (v, vs', rows) := by
  induction h with
  | @single t v h =>
    refine ⟨v, [], rfl, ?_⟩
    rw [readFrom_field h hrest.endsField, hread]
    exact congrArg some (Prod.ext (List.append_nil v) rfl)
  | @cons t v ts vs h hs ih =>
    obtain ⟨w, vs', rfl, hts⟩ := ih
    refine ⟨v, w :: vs', rfl, ?_⟩
    rw [List.append_assoc, List.cons_append, readFrom_field h endsField_comma,
      readFrom_fieldStart_comma, hts]
    exact congrArg some (Prod.ext (List.append_nil v) rfl)

theorem read_eq_some (h : endRow text (readFrom lf .fieldStart text) = some ([], [], rows)) :
    read lf text = some rows := by
  rw [read, h]
  rfl

theorem endRow_of_ne_nil (hne : text ≠ []) {o : Option Reading} :
    endRow text o = o.map pushRow := if_neg hne

theorem IsLineEnd.ne_nil {b : List Char} (hb : IsLineEnd lf b) : b ≠ [] := by
  obtain rfl | ⟨-, rfl⟩ := hb
  · exact List.cons_ne_nil _ _
  · exact List.cons_ne_nil _ _

theorem endRow_file (h : File lf text rows) :
    endRow text (readFrom lf .fieldStart text) = some ([], [], rows) := by
  induction h with
  | nil => rfl
  | last h hne =>
    obtain ⟨v, vs', rfl, hread⟩ := @readFrom_record lf _ _ _ _ h (.inl rfl) rfl
    rw [List.append_nil] at hread
    rw [endRow_of_ne_nil hne, hread]
    rfl
  | @cons t b ts r rs h hb hs ih =>
    have hend : readFrom lf .fieldStart (b ++ ts) = some ([], [], rs) := by
      rw [readFrom_lineEnd hb, ih]
    obtain ⟨v, vs', rfl, hread⟩ := readFrom_record h (.inr ⟨b, ts, hb, rfl⟩) hend
    rw [endRow_of_ne_nil (List.append_ne_nil_of_right_ne_nil _
      (List.append_ne_nil_of_left_ne_nil hb.ne_nil _)), hread]
    rfl

/-- The reader finds what the grammar says. -/
theorem File.read_eq (h : File lf text rows) : read lf text = some rows :=
  read_eq_some (endRow_file h)

/-- The grammar is unambiguous. -/
theorem File.unique {rows' : List (List (List Char))} (h : File lf text rows)
    (h' : File lf text rows') : rows = rows' :=
  Option.some.inj (h.read_eq.symm.trans h'.read_eq)

/-! ## Leading quotes

A quoted field shows every quote of its value twice, behind the quote that opens it. Bare text that
opens with quotes has too few of them to stand for itself.
-/

def leadingQuotes (text : List Char) : ℕ := (text.takeWhile fun c => c = '"').length

@[simp] theorem leadingQuotes_quote : leadingQuotes ('"' :: text) = leadingQuotes text + 1 := rfl

theorem leadingQuotes_cons (hc : c ≠ '"') : leadingQuotes (c :: text) = 0 := by
  rw [leadingQuotes, List.takeWhile_cons_of_neg (by simpa using hc)]
  rfl

theorem leadingQuotes_append (hrest : EndsField rest) :
    leadingQuotes (v ++ rest) = leadingQuotes v := by
  induction v with
  | nil =>
    cases rest with
    | nil => rfl
    | cons c rest =>
      obtain rfl | rfl | rfl := hrest
      · rfl
      · rfl
      · rfl
  | cons c v ih =>
    rw [List.cons_append]
    by_cases hc : c = '"'
    · rw [hc, leadingQuotes_quote, leadingQuotes_quote, ih]
    · rw [leadingQuotes_cons hc, leadingQuotes_cons hc]

/-- Only a further quote continues a field that its quote has closed. -/
theorem readFrom_afterQuote_eq_some (h : readFrom lf .afterQuote (c :: text) = some r)
    (hc : c ≠ '"') : r.1 = [] := by
  by_cases hrest : EndsField (c :: text)
  · rw [readFrom_afterQuote_of_endsField hrest] at h
    exact fst_eq_nil_of_endsField hrest h
  · obtain ⟨hquote, hcomma, hcr, hlf⟩ := isTextData_of_not_endsField hc hrest
    simp only [readFrom, if_neg hquote, if_neg hcomma, if_neg hcr, if_neg hlf] at h
    cases h

theorem leadingQuotes_le :
    (∀ r, readFrom lf .inQuotes text = some r → 2 * leadingQuotes r.1 ≤ leadingQuotes text) ∧
      ∀ r, readFrom lf .afterQuote text = some r →
        2 * leadingQuotes r.1 ≤ leadingQuotes text + 1 := by
  induction text with
  | nil =>
    refine ⟨nofun, fun r h => ?_⟩
    cases h
    exact Nat.zero_le _
  | cons c text ih =>
    by_cases hc : c = '"'
    · subst hc
      refine ⟨ih.2, fun r h => ?_⟩
      obtain ⟨r', h', rfl⟩ := Option.map_eq_some_iff.mp h
      have hle := ih.1 r' h'
      rw [pushChar, leadingQuotes_quote, leadingQuotes_quote]
      omega
    · refine ⟨fun r h => ?_, fun r h => ?_⟩
      · rw [readFrom_inQuotes_cons hc] at h
        obtain ⟨r', -, rfl⟩ := Option.map_eq_some_iff.mp h
        rw [pushChar, leadingQuotes_cons hc]
        exact Nat.zero_le _
      · rw [readFrom_afterQuote_eq_some h hc]
        exact Nat.zero_le _

/-! ## Bare text that stands for itself -/

theorem isPlain_of_readFrom_inText
    (h : readFrom lf .inText (v ++ rest) = some r) (hr : r.1 = v) : IsPlain v := by
  induction v generalizing r with
  | nil => exact List.forall_mem_nil _
  | cons c v ih =>
    rw [List.cons_append] at h
    by_cases hend : EndsField (c :: (v ++ rest))
    · rw [readFrom_inText_of_endsField hend] at h
      rw [fst_eq_nil_of_endsField hend h] at hr
      cases hr
    · have hc : c ≠ '"' := by
        rintro rfl
        cases h
      have hdata := isTextData_of_not_endsField hc hend
      rw [readFrom_inText_cons hdata] at h
      obtain ⟨r', h', rfl⟩ := Option.map_eq_some_iff.mp h
      exact List.forall_mem_cons.mpr ⟨hdata, ih h' (List.cons.inj hr).2⟩

theorem isPlain_of_readFrom (hrest : EndsField rest)
    (h : readFrom lf .fieldStart (v ++ rest) = some r) (hr : r.1 = v) : IsPlain v := by
  cases v with
  | nil => exact List.forall_mem_nil _
  | cons c v =>
    rw [List.cons_append] at h
    by_cases hend : EndsField (c :: (v ++ rest))
    · rw [fst_eq_nil_of_endsField hend h] at hr
      cases hr
    · by_cases hc : c = '"'
      · -- the field would be read as a quoted one
        subst hc
        have hle := leadingQuotes_le.1 r h
        rw [hr, leadingQuotes_append hrest, leadingQuotes_quote] at hle
        omega
      · have hdata := isTextData_of_not_endsField hc hend
        rw [readFrom_fieldStart_cons hdata] at h
        obtain ⟨r', h', rfl⟩ := Option.map_eq_some_iff.mp h
        exact List.forall_mem_cons.mpr
          ⟨hdata, isPlain_of_readFrom_inText h' (List.cons.inj hr).2⟩

/-! ## Writers -/

/-- A value as some writer puts it down. -/
structure Cell where
  quoted : Bool
  value : List Char

def Cell.print (cell : Cell) : List Char :=
  if cell.quoted then '"' :: (doubleQuotes cell.value ++ ['"']) else cell.value

def Cell.Readable (cell : Cell) : Prop := cell.quoted = true ∨ IsPlain cell.value

def printRow : List Cell → List Char
  | [] => []
  | [cell] => cell.print
  | cell :: cell' :: cells => cell.print ++ ',' :: printRow (cell' :: cells)

def printFile (file : List (List Cell)) : List Char :=
  file.flatMap fun row => printRow row ++ ['\n']

def rowValues (row : List Cell) : List (List Char) := row.map Cell.value

@[simp] theorem printRow_single (cell : Cell) : printRow [cell] = cell.print := rfl

@[simp] theorem printRow_cons_cons (cell cell' : Cell) (cells : List Cell) :
    printRow (cell :: cell' :: cells) = cell.print ++ ',' :: printRow (cell' :: cells) := rfl

variable {cell : Cell} {cells row : List Cell} {file : List (List Cell)}

theorem Cell.Readable.field (h : cell.Readable) : Field cell.print cell.value := by
  rw [print]
  by_cases hquoted : cell.quoted = true
  · rw [if_pos hquoted]
    exact .escaped _
  · rw [if_neg hquoted]
    exact .nonEscaped (h.resolve_left hquoted)

theorem record_printRow (hne : row ≠ []) (h : ∀ cell ∈ row, cell.Readable) :
    Record (printRow row) (rowValues row) := by
  induction row with
  | nil => exact absurd rfl hne
  | cons cell cells ih =>
    obtain ⟨hcell, hcells⟩ := List.forall_mem_cons.mp h
    cases cells with
    | nil => exact .single hcell.field
    | cons cell' cells => exact .cons hcell.field (ih (List.cons_ne_nil _ _) hcells)

theorem file_printFile (hne : ∀ row ∈ file, row ≠ [])
    (h : ∀ row ∈ file, ∀ cell ∈ row, cell.Readable) :
    File true (printFile file) (file.map rowValues) := by
  induction file with
  | nil => exact .nil
  | cons row file ih =>
    obtain ⟨hrow, hfile⟩ := List.forall_mem_cons.mp h
    obtain ⟨hnerow, hnefile⟩ := List.forall_mem_cons.mp hne
    rw [printFile, List.flatMap_cons, List.append_assoc]
    exact .cons (record_printRow hnerow hrow) (.inr ⟨rfl, rfl⟩) (ih hnefile hfile)

/-- A cell that is read for its value leaves the rest to be read as it stands. -/
theorem readable_of_readFrom (hrest : EndsField rest)
    (h : readFrom lf .fieldStart (cell.print ++ rest) = some (cell.value, vs, rows)) :
    cell.Readable ∧ readFrom lf .fieldStart rest = some ([], vs, rows) := by
  have hreadable : cell.Readable := by
    by_cases hquoted : cell.quoted = true
    · exact .inl hquoted
    · rw [Cell.print, if_neg hquoted] at h
      exact .inr (isPlain_of_readFrom hrest h rfl)
  refine ⟨hreadable, ?_⟩
  rw [readFrom_field hreadable.field hrest] at h
  obtain ⟨r', h', hr⟩ := Option.map_eq_some_iff.mp h
  have hsnd : r'.2 = (vs, rows) := congrArg Prod.snd hr
  rw [h']
  exact congrArg some (Prod.ext (fst_eq_nil_of_endsField hrest h') hsnd)

theorem readable_of_readFrom_row (hrest : EndsRow lf rest) (hrow : rowValues row = v :: vs)
    (h : readFrom lf .fieldStart (printRow row ++ rest) = some (v, vs, rows)) :
    (∀ cell ∈ row, cell.Readable) ∧ readFrom lf .fieldStart rest = some ([], [], rows) := by
  induction row generalizing v vs with
  | nil => cases hrow
  | cons cell cells ih =>
    obtain ⟨rfl, rfl⟩ := List.cons.inj hrow
    cases cells with
    | nil =>
      obtain ⟨hcell, hread⟩ := readable_of_readFrom hrest.endsField h
      exact ⟨List.forall_mem_singleton.mpr hcell, hread⟩
    | cons cell' cells =>
      rw [printRow_cons_cons, List.append_assoc] at h
      obtain ⟨hcell, hread⟩ := readable_of_readFrom endsField_comma h
      rw [readFrom_fieldStart_comma] at hread
      obtain ⟨⟨w, ws, rows'⟩, hread', hr⟩ := Option.map_eq_some_iff.mp hread
      obtain ⟨hw, rfl⟩ := Prod.ext_iff.mp (congrArg Prod.snd hr)
      obtain ⟨hcells, hlast⟩ := ih hw.symm hread'
      exact ⟨List.forall_mem_cons.mpr ⟨hcell, hcells⟩, hlast⟩

theorem readable_of_endRow (hne : ∀ row ∈ file, row ≠ [])
    (h : endRow (printFile file) (readFrom true .fieldStart (printFile file)) =
      some ([], [], file.map rowValues)) : ∀ row ∈ file, ∀ cell ∈ row, cell.Readable := by
  induction file with
  | nil => exact List.forall_mem_nil _
  | cons row file ih =>
    obtain ⟨hnerow, hnefile⟩ := List.forall_mem_cons.mp hne
    rw [printFile, List.flatMap_cons, List.append_assoc] at h
    rw [endRow_of_ne_nil (List.append_ne_nil_of_right_ne_nil _
      (List.append_ne_nil_of_left_ne_nil (List.cons_ne_nil _ _) _))] at h
    obtain ⟨⟨v, vs, rows⟩, hread, hr⟩ := Option.map_eq_some_iff.mp h
    obtain ⟨hrow, rfl⟩ := List.cons.inj (congrArg (fun r : Reading => r.2.2) hr)
    obtain ⟨hcells, hend⟩ := readable_of_readFrom_row
      (.inr ⟨['\n'], printFile file, .inr ⟨rfl, rfl⟩, rfl⟩) hrow.symm hread
    rw [readFrom_lineEnd (.inr ⟨rfl, rfl⟩)] at hend
    exact List.forall_mem_cons.mpr ⟨hcells, ih hnefile hend⟩

/-- A file says what was put into it exactly when the bare cells are free of delimiters. -/
theorem file_printFile_iff (hne : ∀ row ∈ file, row ≠ []) :
    File true (printFile file) (file.map rowValues) ↔
      ∀ row ∈ file, ∀ cell ∈ row, cell.Readable :=
  ⟨fun h => readable_of_endRow hne (endRow_file h), file_printFile hne⟩

theorem readFrom_bareLf (h : ∀ cell ∈ row, cell.Readable) :
    readFrom false .fieldStart (printRow row ++ '\n' :: text) = none := by
  induction row with
  | nil => rfl
  | cons cell cells ih =>
    obtain ⟨hcell, hcells⟩ := List.forall_mem_cons.mp h
    cases cells with
    | nil =>
      rw [printRow_single, readFrom_field hcell.field endsField_lf]
      rfl
    | cons cell' cells =>
      rw [printRow_cons_cons, List.append_assoc, List.cons_append,
        readFrom_field hcell.field endsField_comma, readFrom_fieldStart_comma, ih hcells]
      rfl

/-- No reading with CRLF for the only line end. -/
theorem not_file_printFile (h : ∀ cell ∈ row, cell.Readable) :
    ¬File false (printFile (row :: file)) rows := by
  intro hfile
  have hend := endRow_file hfile
  rw [printFile, List.flatMap_cons, List.append_assoc, List.singleton_append,
    endRow_of_ne_nil (List.append_ne_nil_of_right_ne_nil _ (List.cons_ne_nil _ _)),
    readFrom_bareLf h] at hend
  cases hend

end WorldZk.CsvGrammar
