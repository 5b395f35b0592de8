import Mathlib.Data.Prod.Lex
import Mathlib.Order.Monotone.Basic
import Mathlib.Order.Iterate

/-!
# The proleptic Gregorian calendar

The date of a day is what the rule for the next day gives when it is applied that many times to
1970-01-01. The other way to a date counts from the first of March, so that the leap day is the
last day of a year.
-/

namespace WorldZk.CivilCalendar

/-! ## Dates -/

structure Date where
  year : ℕ
  month : ℕ
  day : ℕ
deriving DecidableEq, Repr

namespace Date

theorem toLex_injective :
    Function.Injective fun date : Date => toLex (date.year, toLex (date.month, date.day)) := by
  intro date date' h
  obtain ⟨hyear, hrest⟩ := Prod.mk.inj (toLex.injective h)
  obtain ⟨hmonth, hday⟩ := Prod.mk.inj (toLex.injective hrest)
  cases date
  cases date'
  exact (mk.injEq ..).mpr ⟨hyear, hmonth, hday⟩

/-- Dates in the order of time. -/
instance : LinearOrder Date := LinearOrder.lift' _ toLex_injective

theorem lt_iff {date date' : Date} : date < date' ↔ date.year < date'.year ∨
    date.year = date'.year ∧
      (date.month < date'.month ∨ date.month = date'.month ∧ date.day < date'.day) := by
  change toLex (date.year, toLex (date.month, date.day)) <
    toLex (date'.year, toLex (date'.month, date'.day)) ↔ _
  rw [Prod.Lex.toLex_lt_toLex, Prod.Lex.toLex_lt_toLex]

end Date

def isLeap (year : ℕ) : Bool := year % 4 == 0 && (year % 100 != 0 || year % 400 == 0)

def monthLength (leap : Bool) (month : ℕ) : ℕ :=
  match month with
  | 2 => if leap then 29 else 28
  | 4 | 6 | 9 | 11 => 30
  | _ => 31

def nextDay (date : Date) : Date :=
  if date.day < monthLength (isLeap date.year) date.month then { date with day := date.day + 1 }
  else if date.month < 12 then ⟨date.year, date.month + 1, 1⟩
  else ⟨date.year + 1, 1, 1⟩

/-- The date of a day since 1970-01-01. -/
def dateOfDay (day : ℕ) : Date := nextDay^[day] ⟨1970, 1, 1⟩

theorem dateOfDay_succ (day : ℕ) : dateOfDay (day + 1) = nextDay (dateOfDay day) :=
  Function.iterate_succ_apply' nextDay day _

theorem lt_nextDay (date : Date) : date < nextDay date := by
  rw [Date.lt_iff, nextDay]
  split
  · exact .inr ⟨rfl, .inr ⟨rfl, Nat.lt_succ_self _⟩⟩
  · split
    · exact .inr ⟨rfl, .inl (Nat.lt_succ_self _)⟩
    · exact .inl (Nat.lt_succ_self _)

theorem dateOfDay_strictMono : StrictMono dateOfDay :=
  strictMono_nat_of_lt_succ fun day => dateOfDay_succ day ▸ lt_nextDay _

theorem year_le_of_le {date date' : Date} (h : date ≤ date') : date.year ≤ date'.year := by
  rcases h.lt_or_eq with hlt | rfl
  · rcases Date.lt_iff.mp hlt with hyear | ⟨hyear, -⟩
    · exact hyear.le
    · exact hyear.le
  · exact le_rfl

/-- The month and the day are numbers of two digits. -/
def Date.InRange (date : Date) : Prop := date.month ≤ 12 ∧ date.day ≤ 31

theorem monthLength_le (leap : Bool) (month : ℕ) : monthLength leap month ≤ 31 := by
  unfold monthLength
  split
  · split <;> decide
  all_goals decide

theorem Date.InRange.nextDay {date : Date} (h : date.InRange) : (nextDay date).InRange := by
  have hlength := monthLength_le (isLeap date.year) date.month
  obtain ⟨hmonth, hday⟩ := h
  unfold CivilCalendar.nextDay
  split
  case isTrue hlt => exact ⟨hmonth, (Nat.succ_le_of_lt hlt).trans hlength⟩
  case isFalse =>
    split
    case isTrue hlt => exact ⟨hlt, (by decide : 1 ≤ 31)⟩
    case isFalse => exact ⟨(by decide : 1 ≤ 12), (by decide : 1 ≤ 31)⟩

theorem dateOfDay_inRange (day : ℕ) : (dateOfDay day).InRange := by
  induction day with
  | zero => exact ⟨by decide, by decide⟩
  | succ day ih => exact dateOfDay_succ day ▸ ih.nextDay

/-! ## Years from March to February -/

/-- The days from 0000-03-01 to the first of March of a year. -/
def yearStart (year : ℕ) : ℕ := 365 * year + year / 4 - year / 100 + year / 400

/-- The leap day of a year from March on is in the February of the next year. -/
def yearLength (year : ℕ) : ℕ := if isLeap (year + 1) then 366 else 365

theorem isLeap_iff {year : ℕ} : isLeap year = true ↔ 4 ∣ year ∧ (¬100 ∣ year ∨ 400 ∣ year) := by
  simp only [isLeap, Bool.and_eq_true, Bool.or_eq_true, beq_iff_eq, bne_iff_ne,
    Nat.dvd_iff_mod_eq_zero, ne_eq]

theorem yearStart_succ (year : ℕ) : yearStart (year + 1) = yearStart year + yearLength year := by
  have hle : year / 100 ≤ year / 4 := Nat.div_le_div_left (by decide) (by decide)
  have h100 : 100 ∣ year + 1 → 4 ∣ year + 1 := Nat.dvd_trans (by decide)
  have h400 : 400 ∣ year + 1 → 100 ∣ year + 1 := Nat.dvd_trans (by decide)
  simp only [yearStart, yearLength, isLeap_iff, Nat.succ_div]
  by_cases hfour : 4 ∣ year + 1
  · by_cases hcentury : 100 ∣ year + 1
    · by_cases hera : 400 ∣ year + 1
      · simp only [hfour, hcentury, hera, if_true, true_and, or_true]
        omega
      · simp only [hfour, hcentury, hera, if_true, if_false, not_true, true_and, or_self]
        omega
    · simp only [hfour, hcentury, mt h400 hcentury, if_true, if_false, not_false_iff, true_and,
        true_or]
      omega
  · simp only [hfour, mt h100 hfour, mt h400 (mt h100 hfour), if_false, false_and]
    omega

theorem yearLength_eq (year : ℕ) :
    yearLength year = (if isLeap (year + 1) then 365 else 364) + 1 := by
  unfold yearLength
  split <;> rfl

/-- Whether January has been reached, the month and the day of the month. -/
def monthAndDay (dayOfYear : ℕ) : ℕ × ℕ × ℕ :=
  let mp := (5 * dayOfYear + 2) / 153
  (if mp < 10 then 0 else 1, if mp < 10 then mp + 3 else mp - 9,
    dayOfYear - (153 * mp + 2) / 5 + 1)

def dateOfParts (year : ℕ) (parts : ℕ × ℕ × ℕ) : Date := ⟨year + parts.1, parts.2.1, parts.2.2⟩

/-- The day with the given place in the year that starts in March. -/
def fromMarch (year dayOfYear : ℕ) : Date := dateOfParts year (monthAndDay dayOfYear)

/-- The rule for the next day on the parts; February is in the year after the one that starts. -/
def nextParts (leap leap' : Bool) (parts : ℕ × ℕ × ℕ) : ℕ × ℕ × ℕ :=
  if parts.2.2 < monthLength (if parts.1 = 0 then leap else leap') parts.2.1 then
    (parts.1, parts.2.1, parts.2.2 + 1)
  else if parts.2.1 < 12 then (parts.1, parts.2.1 + 1, 1)
  else (parts.1 + 1, 1, 1)

theorem monthAndDay_succ : ∀ (leap leap' : Bool), ∀ dayOfYear < if leap' then 365 else 364,
    nextParts leap leap' (monthAndDay dayOfYear) = monthAndDay (dayOfYear + 1) := by
  decide +kernel

theorem monthAndDay_last : ∀ leap leap' : Bool,
    nextParts leap leap' (monthAndDay (if leap' then 365 else 364)) = (1, 3, 1) := by
  decide +kernel

theorem monthAndDay_le_one (dayOfYear : ℕ) : (monthAndDay dayOfYear).1 ≤ 1 := by
  unfold monthAndDay
  dsimp only
  split <;> decide

theorem nextDay_dateOfParts {year : ℕ} {parts : ℕ × ℕ × ℕ} (h : parts.1 ≤ 1) :
    nextDay (dateOfParts year parts) =
      dateOfParts year (nextParts (isLeap year) (isLeap (year + 1)) parts) := by
  have hleap : isLeap (year + parts.1) =
      if parts.1 = 0 then isLeap year else isLeap (year + 1) := by
    split
    case isTrue hzero => rw [hzero, Nat.add_zero]
    case isFalse hone => rw [show parts.1 = 1 by omega]
  simp only [nextDay, nextParts, dateOfParts, hleap]
  generalize (if parts.1 = 0 then isLeap year else isLeap (year + 1)) = leap
  by_cases hday : parts.2.2 < monthLength leap parts.2.1
  · simp only [hday, if_true]
  · by_cases hmonth : parts.2.1 < 12
    · simp only [hday, hmonth, if_true, if_false]
    · simp only [hday, hmonth, if_false, Nat.add_assoc]

theorem nextDay_fromMarch {year dayOfYear : ℕ} (h : dayOfYear + 1 < yearLength year) :
    nextDay (fromMarch year dayOfYear) = fromMarch year (dayOfYear + 1) := by
  have hlt : dayOfYear < if isLeap (year + 1) then 365 else 364 := by
    rw [yearLength_eq] at h
    exact Nat.lt_of_succ_lt_succ h
  rw [fromMarch, nextDay_dateOfParts (monthAndDay_le_one _), monthAndDay_succ _ _ _ hlt, fromMarch]

theorem nextDay_last {year dayOfYear : ℕ} (h : dayOfYear + 1 = yearLength year) :
    nextDay (fromMarch year dayOfYear) = fromMarch (year + 1) 0 := by
  have hlast : dayOfYear = if isLeap (year + 1) then 365 else 364 := by
    rw [yearLength_eq] at h
    exact Nat.succ.inj h
  rw [fromMarch, nextDay_dateOfParts (monthAndDay_le_one _), hlast, monthAndDay_last]
  rfl

theorem exists_fromMarch (day : ℕ) : ∃ year dayOfYear, dayOfYear < yearLength year ∧
    day + 719468 = yearStart year + dayOfYear ∧ dateOfDay day = fromMarch year dayOfYear := by
  induction day with
  | zero => exact ⟨1969, 306, by decide, by decide, by decide⟩
  | succ day ih =>
    obtain ⟨year, dayOfYear, hlt, hday, hdate⟩ := ih
    rw [dateOfDay_succ, hdate]
    rcases Nat.lt_or_eq_of_le hlt with hmore | hlast
    · exact ⟨year, dayOfYear + 1, hmore, by omega, nextDay_fromMarch hmore⟩
    · refine ⟨year + 1, 0, yearLength_eq _ ▸ Nat.succ_pos _, ?_, nextDay_last hlast⟩
      rw [yearStart_succ]
      omega

end WorldZk.CivilCalendar
