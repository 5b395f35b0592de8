import Mathlib.Data.Char
import Mathlib.Data.List.Lex
import Mathlib.Data.List.Nodup
import WorldZk.CivilCalendar
import WorldZk.PaddedDecimals

/-!
# The proof archive of the operator

Proofs are kept in one directory for each day, and old directories are found by comparing their
names with the date of a cutoff. Names that are not UTF-8 are skipped everywhere and left out.
-/

namespace WorldZk.ProofArchive

open CivilCalendar PaddedDecimals

/-! ## Dates -/

/-- The year, month and day that `epoch_days_to_date` formats. -/
def civilFromDays (days : ℕ) : ℤ × ℕ × ℕ :=
  let z : ℤ := days + 719468
  let era := (if 0 ≤ z then z else z - 146096).tdiv 146097
  let doe := (z - era * 146097).toNat
  let yoe := (doe - doe / 1460 + doe / 36524 - doe / 146096) / 365
  let y : ℤ := yoe + era * 400
  let doy := doe - (365 * yoe + yoe / 4 - yoe / 100)
  let mp := (5 * doy + 2) / 153
  let d := doy - (153 * mp + 2) / 5 + 1
  let m := if mp < 10 then mp + 3 else mp - 9
  let y := if m ≤ 2 then y + 1 else y
  (y, m, d)

/-- `{:04}-{:02}-{:02}`. The days come from a number of seconds of 64 bits, so no operation
overflows and the year is not negative. -/
def formatDate (y : ℤ) (m d : ℕ) : List Char :=
  formatPadded 4 y.toNat ++ '-' :: (formatPadded 2 m ++ '-' :: formatPadded 2 d)

def epochDaysToDate (days : ℕ) : List Char :=
  let (y, m, d) := civilFromDays days
  formatDate y m d

/-- The cutoff of `expire`, and `ttl_cutoff_date`. -/
def ttlCutoffDate (nowSecs ttlDays : ℕ) : List Char :=
  epochDaysToDate ((nowSecs - ttlDays * 86400) / 86400)

/-! ## Directories -/

structure DirEntry where
  name : List Char
  isDir : Bool
  files : List (List Char)
deriving DecidableEq

/-- The base directory. -/
structure Base where
  entries : List DirEntry
  names_nodup : (entries.map DirEntry.name).Nodup

/-- 10 bytes, 2 dashes. -/
def hasDatePattern (name : List Char) : Bool :=
  (name.map Char.utf8Size).sum == 10 && name.countP (· == '-') == 2

def listDateDirs (base : Base) : List DirEntry :=
  base.entries.filter fun entry => entry.isDir && hasDatePattern entry.name

def listProofFiles (dir : DirEntry) : List (List Char) :=
  dir.files.filter fun name =>
    "proof-".toList.isPrefixOf name && ".json".toList.isSuffixOf name &&
      !(['.'].isPrefixOf name)

/-- The loop of `expire`: what is left of the base directory, and the number of deleted files. -/
def expireStep (cutoff : List Char) (s : List DirEntry × ℕ) (dir : DirEntry) :
    List DirEntry × ℕ :=
  if dir.name < cutoff then
    (s.1.filter fun entry => entry.name != dir.name, s.2 + (listProofFiles dir).length)
  else s

def expire (nowSecs maxAgeDays : ℕ) (base : Base) : List DirEntry × ℕ :=
  (listDateDirs base).foldl (expireStep (ttlCutoffDate nowSecs maxAgeDays)) (base.entries, 0)

/-- The order of paths: by directory, then by file. -/
def pathLe (path path' : List Char × List Char) : Bool :=
  decide (path.1 < path'.1 ∨ path.1 = path'.1 ∧ path.2 ≤ path'.2)

def listExpired (nowSecs ttlDays : ℕ) (base : Base) : List (List Char × List Char) :=
  let cutoff := ttlCutoffDate nowSecs ttlDays
  ((listDateDirs base).flatMap fun dir =>
    if dir.name < cutoff then (listProofFiles dir).map (dir.name, ·) else []).mergeSort pathLe

/-! ## The date of a day -/

/-- The text of a date. -/
def dateText (date : Date) : List Char := formatDate date.year date.month date.day

/-- The year of the era from the day of the era, for the parts of a year of the era. -/
theorem yearOfEra_eq {c q r doy doe : ℕ} (hc : c < 4) (hq : q < 25) (hr : r < 4)
    (hdoy : doy < 366) (hleap : doy = 365 → r = 3 ∧ (q = 24 → c = 3))
    (hdoe : doe = 36524 * c + 1461 * q + 365 * r + doy) :
    (doe - doe / 1460 + doe / 36524 - doe / 146096) / 365 = 100 * c + 4 * q + r := by
  have hcenturies : doe / 36524 = c + doe / 146096 := by
    rcases Nat.lt_or_ge (1461 * q + 365 * r + doy) 36524 with hlt | hge
    · have hdiv : doe / 36524 = c := by omega
      have hlast : doe / 146096 = 0 := by omega
      omega
    -- Only the leap day of the whole era is that late in its century.
    · obtain rfl : c = 3 := by omega
      omega
  have hfours : doe / 1460 = 25 * c + q + (24 * c + q + 365 * r + doy) / 1460 := by
    have hsplit : doe = 24 * c + q + 365 * r + doy + 1460 * (25 * c + q) := by omega
    rw [hsplit, Nat.add_mul_div_left _ _ (by decide), Nat.add_comm]
  have hle : (24 * c + q + 365 * r + doy) / 1460 ≤ doy := by omega
  have hlt : doy < 365 + (24 * c + q + 365 * r + doy) / 1460 := by omega
  rw [hcenturies, hfours]
  generalize (24 * c + q + 365 * r + doy) / 1460 = e at hle hlt ⊢
  generalize doe / 146096 = f
  rw [hdoe]
  omega

theorem yearStart_parts (year : ℕ) : ∃ e c q r, c < 4 ∧ q < 25 ∧ r < 4 ∧
    year = 400 * e + 100 * c + 4 * q + r ∧
    yearStart year = 146097 * e + (36524 * c + 1461 * q + 365 * r) := by
  obtain ⟨e, c, q, r, hc, hq, hr, rfl⟩ : ∃ e c q r, c < 4 ∧ q < 25 ∧ r < 4 ∧
      year = 400 * e + 100 * c + 4 * q + r :=
    ⟨year / 400, year % 400 / 100, year % 100 / 4, year % 4, by omega⟩
  have hfour : (400 * e + 100 * c + 4 * q + r) / 4 = 100 * e + 25 * c + q := by omega
  have hcentury : (400 * e + 100 * c + 4 * q + r) / 100 = 4 * e + c := by omega
  have hera : (400 * e + 100 * c + 4 * q + r) / 400 = e := by omega
  refine ⟨e, c, q, r, hc, hq, hr, rfl, ?_⟩
  rw [yearStart, hfour, hcentury, hera]
  omega

theorem leapDay_of_lt {year e c q r dayOfYear : ℕ} (hc : c < 4) (hr : r < 4)
    (hyear : year = 400 * e + 100 * c + 4 * q + r) (hlt : dayOfYear < yearLength year) :
    dayOfYear < 366 ∧ (dayOfYear = 365 → r = 3 ∧ (q = 24 → c = 3)) := by
  rw [yearLength] at hlt
  split at hlt
  case isTrue hleap =>
    rw [isLeap_iff] at hleap
    refine ⟨hlt, fun _ => ⟨by omega, fun hq24 => ?_⟩⟩
    obtain ⟨hfour, hcentury⟩ := hleap
    omega
  case isFalse => omega

theorem civilFromDays_eq (days : ℕ) :
    civilFromDays days =
      (((dateOfDay days).year : ℤ), (dateOfDay days).month, (dateOfDay days).day) := by
  obtain ⟨year, dayOfYear, hlt, hday, hdate⟩ := exists_fromMarch days
  obtain ⟨e, c, q, r, hc, hq, hr, hyear, hstart⟩ := yearStart_parts year
  obtain ⟨h366, hleap⟩ := leapDay_of_lt hc hr hyear hlt
  rw [hdate]
  unfold civilFromDays
  extract_lets z era doe yoe y doy mp d m y'
  have hz : z = 146097 * e + (36524 * c + 1461 * q + 365 * r + dayOfYear : ℕ) := by
    have hcast : z = ((days + 719468 : ℕ) : ℤ) := rfl
    rw [hcast, hday, hstart]
    push_cast
    omega
  clear_value z
  have hdoeLt : 36524 * c + 1461 * q + 365 * r + dayOfYear < 146097 := by omega
  have hera : era = e := by
    have hpos : 0 ≤ z := by omega
    change (if 0 ≤ z then z else z - 146096).tdiv 146097 = e
    rw [if_pos hpos, Int.tdiv_eq_ediv_of_nonneg hpos]
    omega
  clear_value era
  have hdoe : doe = 36524 * c + 1461 * q + 365 * r + dayOfYear := by
    change (z - era * 146097).toNat = _
    omega
  clear_value doe
  have hyoe : yoe = 100 * c + 4 * q + r := yearOfEra_eq hc hq hr h366 hleap hdoe
  clear_value yoe
  have hy : y = year := by
    change (yoe : ℤ) + era * 400 = year
    omega
  clear_value y
  have hdoy : doy = dayOfYear := by
    have hfour : yoe / 4 = 25 * c + q := by omega
    have hcentury : yoe / 100 = c := by omega
    change doe - (365 * yoe + yoe / 4 - yoe / 100) = dayOfYear
    rw [hfour, hcentury]
    omega
  clear_value doy
  subst hdoy
  have hm : m = (monthAndDay doy).2.1 := rfl
  have hd : d = (monthAndDay doy).2.2 := rfl
  have hy' : y' = (year + (monthAndDay doy).1 : ℕ) := by
    have hmp : mp < 12 := Nat.div_lt_of_lt_mul (by omega)
    change (if (if mp < 10 then mp + 3 else mp - 9) ≤ 2 then y + 1 else y) =
      ((year + if mp < 10 then 0 else 1 : ℕ) : ℤ)
    clear_value mp
    by_cases hlt : mp < 10
    · rw [if_pos hlt, if_pos hlt, if_neg (by omega), hy, Nat.add_zero]
    · rw [if_neg hlt, if_neg hlt, if_pos (by omega), hy]
      rfl
  rw [hy', hm, hd]
  rfl

theorem epochDaysToDate_eq (days : ℕ) : epochDaysToDate days = dateText (dateOfDay days) := by
  rw [epochDaysToDate, civilFromDays_eq, dateText]

/-! ## Names of directories -/

/-- A year of four digits. -/
def InArchive (date : Date) : Prop := date.InRange ∧ date.year ≤ 9999

theorem inArchive_dateOfDay {day : ℕ} (h : (dateOfDay day).year ≤ 9999) :
    InArchive (dateOfDay day) := ⟨dateOfDay_inRange day, h⟩

section Names

variable {date date' : Date}

theorem dateText_lt_iff (h : InArchive date) (h' : InArchive date') :
    dateText date < dateText date' ↔ date < date' := by
  obtain ⟨⟨hmonth, hday⟩, hyear⟩ := h
  obtain ⟨⟨hmonth', hday'⟩, hyear'⟩ := h'
  have hlength {width n n' : ℕ} (hwidth : 0 < width) (hn : n < 10 ^ width)
      (hn' : n' < 10 ^ width) :
      (formatPadded width n).length = (formatPadded width n').length :=
    (length_formatPadded hwidth hn).trans (length_formatPadded hwidth hn').symm
  have hy : date.year < 10 ^ 4 := by omega
  have hy' : date'.year < 10 ^ 4 := by omega
  have hm : date.month < 10 ^ 2 := by omega
  have hm' : date'.month < 10 ^ 2 := by omega
  have hd : date.day < 10 ^ 2 := by omega
  have hd' : date'.day < 10 ^ 2 := by omega
  simp only [dateText, formatDate, Int.toNat_natCast]
  rw [append_lt_append_iff (hlength (by decide) hy hy'), cons_lt_cons_self_iff,
    append_lt_append_iff (hlength (by decide) hm hm'), cons_lt_cons_self_iff,
    formatPadded_lt_iff (by decide) hy hy', formatPadded_inj (by decide) hy hy',
    formatPadded_lt_iff (by decide) hm hm', formatPadded_inj (by decide) hm hm',
    formatPadded_lt_iff (by decide) hd hd', Date.lt_iff]

theorem dateText_inj (h : InArchive date) (h' : InArchive date')
    (heq : dateText date = dateText date') : date = date' := by
  have hlt := mt (dateText_lt_iff h h').mpr (heq ▸ List.lt_irrefl _)
  have hgt := mt (dateText_lt_iff h' h).mpr (heq ▸ List.lt_irrefl _)
  exact le_antisymm (not_lt.mp hgt) (not_lt.mp hlt)

theorem utf8Size_of_isDigit {c : Char} (h : c.isDigit) : c.utf8Size = 1 := by
  have hle : c.val ≤ 57 := by
    simp only [Char.isDigit, Bool.and_eq_true, decide_eq_true_eq] at h
    exact h.2
  exact if_pos (UInt32.le_trans hle (by decide : (57 : UInt32) ≤ 127))

theorem hasDatePattern_dateText (h : InArchive date) : hasDatePattern (dateText date) = true := by
  have hlength := @length_formatPadded 4 (by decide) date.year (by have := h.2; omega)
  have hmonth := @length_formatPadded 2 (by decide) date.month (by have := h.1.1; omega)
  have hday := @length_formatPadded 2 (by decide) date.day (by have := h.1.2; omega)
  have hsize {width n : ℕ} :
      ((formatPadded width n).map Char.utf8Size).sum = (formatPadded width n).length := by
    rw [List.map_congr_left fun c hc => utf8Size_of_isDigit (isDigit_of_mem_formatPadded hc)]
    simp
  have hcount {width n : ℕ} : (formatPadded width n).countP (· == '-') = 0 := by
    refine List.countP_eq_zero.mpr fun c hc heq => ?_
    have hdigit := isDigit_of_mem_formatPadded hc
    rw [beq_iff_eq.mp heq] at hdigit
    exact absurd hdigit (by decide)
  have hdash : Char.utf8Size '-' = 1 := by decide
  simp only [hasDatePattern, dateText, formatDate, Int.toNat_natCast, List.map_append,
    List.map_cons, List.sum_append, List.sum_cons, List.countP_append, List.countP_cons, hsize,
    hcount, hlength, hmonth, hday, hdash, beq_self_eq_true, if_true]
  rfl

end Names

/-! ## What is deleted -/

section Expiry

variable {cutoff : List Char} {base : Base} {entry : DirEntry} {file : List Char}
  {nowSecs ttlDays : ℕ}

theorem mem_foldl_expireStep (dirs : List DirEntry) (s : List DirEntry × ℕ) :
    entry ∈ (dirs.foldl (expireStep cutoff) s).1 ↔
      entry ∈ s.1 ∧ ∀ dir ∈ dirs, dir.name < cutoff → entry.name ≠ dir.name := by
  induction dirs generalizing s with
  | nil => simp
  | cons dir dirs ih =>
    rw [List.foldl_cons, ih, List.forall_mem_cons, ← and_assoc]
    refine and_congr_left fun _ => ?_
    unfold expireStep
    split
    case isTrue hlt => simp [hlt]
    case isFalse hge => simp [hge]

theorem Base.eq_of_name_eq (base : Base) {entry dir : DirEntry} (hentry : entry ∈ base.entries)
    (hdir : dir ∈ base.entries) (h : entry.name = dir.name) : entry = dir :=
  List.inj_on_of_nodup_map base.names_nodup hentry hdir h

theorem mem_expire_iff (hentry : entry ∈ base.entries) :
    entry ∈ (expire nowSecs ttlDays base).1 ↔
      ¬(entry ∈ listDateDirs base ∧ entry.name < ttlCutoffDate nowSecs ttlDays) := by
  rw [expire, mem_foldl_expireStep]
  constructor
  · rintro ⟨-, hkept⟩ ⟨hmem, hlt⟩
    exact hkept entry hmem hlt rfl
  · intro hkept
    refine ⟨hentry, fun dir hdir hlt hname => hkept ?_⟩
    rw [base.eq_of_name_eq hentry (List.mem_of_mem_filter hdir) hname]
    exact ⟨hdir, hlt⟩

theorem mem_listExpired_iff (hentry : entry ∈ base.entries) :
    (entry.name, file) ∈ listExpired nowSecs ttlDays base ↔
      (entry ∈ listDateDirs base ∧ entry.name < ttlCutoffDate nowSecs ttlDays) ∧
        file ∈ listProofFiles entry := by
  rw [listExpired, List.mem_mergeSort, List.mem_flatMap]
  constructor
  · rintro ⟨dir, hdir, hmem⟩
    split at hmem
    case isTrue hlt =>
      obtain ⟨file', hfile, heq⟩ := List.mem_map.mp hmem
      obtain ⟨hname, rfl⟩ := Prod.mk.inj heq
      obtain rfl := base.eq_of_name_eq (List.mem_of_mem_filter hdir) hentry hname
      exact ⟨⟨hdir, hlt⟩, hfile⟩
    case isFalse => cases hmem
  · rintro ⟨⟨hdir, hlt⟩, hfile⟩
    refine ⟨entry, hdir, ?_⟩
    rw [if_pos hlt]
    exact List.mem_map_of_mem hfile

end Expiry

theorem cutoffDay_eq (nowSecs ttlDays : ℕ) :
    (nowSecs - ttlDays * 86400) / 86400 = nowSecs / 86400 - ttlDays := by
  rw [Nat.mul_comm, Nat.sub_mul_div]

end WorldZk.ProofArchive
