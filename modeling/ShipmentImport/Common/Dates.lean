import Mathlib.Order.Basic
import ShipmentImport.Models

/-!
# Dates

Python's `date`: the proleptic Gregorian calendar from year 1 to year 9999, the order of dates, the
day after one, and `date.fromisoformat`. Day 1 of the ordinals is 0001-01-01.
-/

namespace ShipmentImport

/-! ## The calendar -/

def isLeap (year : Nat) : Bool := year % 4 = 0 && (year % 100 ≠ 0 || year % 400 = 0)

def daysInMonth (year month : Nat) : Nat :=
  if month = 2 then if isLeap year then 29 else 28
  else if month ∈ [4, 6, 9, 11] then 30 else 31

def daysBeforeYear (year : Nat) : Nat :=
  let y := year - 1
  y * 365 + y / 4 - y / 100 + y / 400

def daysBeforeMonth (year : Nat) : Nat → Nat
  | 0 | 1 => 0
  | m + 2 => daysBeforeMonth year (m + 1) + daysInMonth year (m + 1)

namespace PyDate

/-- What the constructor checks. -/
structure Valid (d : PyDate) : Prop where
  year : 1 ≤ d.year ∧ d.year ≤ 9999
  month : 1 ≤ d.month ∧ d.month ≤ 12
  day : 1 ≤ d.day ∧ d.day ≤ daysInMonth d.year d.month

instance (d : PyDate) : Decidable d.Valid :=
  decidable_of_iff ((1 ≤ d.year ∧ d.year ≤ 9999) ∧ (1 ≤ d.month ∧ d.month ≤ 12) ∧
    1 ≤ d.day ∧ d.day ≤ daysInMonth d.year d.month)
    ⟨fun h => ⟨h.1, h.2.1, h.2.2⟩, fun h => ⟨h.year, h.month, h.day⟩⟩

/-- `date(year, month, day)`; `none` is the `ValueError`. -/
def new? (year month day : Nat) : Option PyDate :=
  if Valid ⟨year, month, day⟩ then some ⟨year, month, day⟩ else none

/-- `d.toordinal()`. -/
def toOrdinal (d : PyDate) : Nat :=
  daysBeforeYear d.year + daysBeforeMonth d.year d.month + d.day

/-- `a < b`, which compares year, month and day in this order. -/
def before (a b : PyDate) : Bool :=
  a.year < b.year || (a.year == b.year &&
    (a.month < b.month || (a.month == b.month && a.day < b.day)))

/-- `d + timedelta(days=1)`; `none` is the `OverflowError`. -/
def nextDay (d : PyDate) : Option PyDate :=
  if d.day < daysInMonth d.year d.month then some { d with day := d.day + 1 }
  else if d.month < 12 then some { d with month := d.month + 1, day := 1 }
  else if d.year < 9999 then some { year := d.year + 1, month := 1, day := 1 }
  else none

end PyDate

theorem daysBeforeMonth_succ (year : Nat) {month : Nat} (h : 1 ≤ month) :
    daysBeforeMonth year (month + 1) = daysBeforeMonth year month + daysInMonth year month := by
  obtain ⟨m, rfl⟩ : ∃ m, month = m + 1 := ⟨month - 1, by omega⟩
  rfl

/-- One more day every fourth year, except every hundredth, except every four hundredth. -/
theorem daysInMonth_february (year : Nat) :
    daysInMonth year 2 + (if year % 100 = 0 then 1 else 0) =
      28 + (if year % 4 = 0 then 1 else 0) + if year % 400 = 0 then 1 else 0 := by
  have h4 : year % 100 = 0 → year % 4 = 0 := by omega
  have h100 : year % 400 = 0 → year % 100 = 0 := by omega
  simp only [daysInMonth, if_true, isLeap, Bool.and_eq_true, Bool.or_eq_true, decide_eq_true_eq]
  by_cases c100 : year % 100 = 0
  · by_cases c400 : year % 400 = 0
    · simp [c100, c400, h4 c100]
    · simp [c100, c400, h4 c100]
  · have c400 : ¬ year % 400 = 0 := mt h100 c100
    by_cases c4 : year % 4 = 0
    · simp [c100, c400, c4]
    · simp [c100, c400, c4]

/-- The days of the year before the next. -/
theorem daysBeforeYear_succ {year : Nat} (h : 1 ≤ year) :
    daysBeforeYear (year + 1) =
      daysBeforeYear year + (daysBeforeMonth year 12 + daysInMonth year 12) := by
  obtain ⟨y, rfl⟩ : ∃ y, year = y + 1 := ⟨year - 1, by omega⟩
  have hm : daysBeforeMonth (y + 1) 12 + daysInMonth (y + 1) 12 =
      337 + daysInMonth (y + 1) 2 := by
    simp [daysBeforeMonth, daysInMonth]
    omega
  have hdiv : ∀ n, (y + 1) / n = y / n + if (y + 1) % n = 0 then 1 else 0 := by
    intro n
    rw [Nat.succ_div]
    simp only [Nat.dvd_iff_mod_eq_zero]
  have hle : y / 100 ≤ y / 4 := Nat.div_le_div_left (by decide) (by decide)
  have hle' : (y + 1) / 100 ≤ (y + 1) / 4 := Nat.div_le_div_left (by decide) (by decide)
  have hf := daysInMonth_february (y + 1)
  rw [hm]
  simp only [daysBeforeYear, Nat.add_sub_cancel]
  rw [hdiv 4, hdiv 100] at hle'
  rw [hdiv 4, hdiv 100, hdiv 400]
  generalize (if (y + 1) % 4 = 0 then 1 else 0) = x4 at *
  generalize (if (y + 1) % 100 = 0 then 1 else 0) = x100 at *
  generalize (if (y + 1) % 400 = 0 then 1 else 0) = x400 at *
  generalize y / 4 = q4, y / 100 = q100, y / 400 = q400 at *
  omega

namespace PyDate

theorem new?_eq_some {year month day : Nat} {d : PyDate} :
    new? year month day = some d ↔ d.Valid ∧ d = ⟨year, month, day⟩ := by
  unfold new?
  split
  · next h =>
    constructor
    · rintro ⟨⟩
      exact ⟨h, rfl⟩
    · rintro ⟨-, rfl⟩
      rfl
  · next h =>
    constructor
    · rintro ⟨⟩
    · rintro ⟨hv, rfl⟩
      exact absurd hv h

/-- The next day has the next ordinal. -/
theorem toOrdinal_nextDay {d d' : PyDate} (h : d.Valid) (hn : d.nextDay = some d') :
    d'.toOrdinal = d.toOrdinal + 1 := by
  have hy := h.year
  have hm := h.month
  have hd := h.day
  unfold nextDay at hn
  split at hn
  · cases hn
    simp only [toOrdinal]
    omega
  split at hn
  · cases hn
    simp only [toOrdinal]
    rw [daysBeforeMonth_succ d.year hm.1]
    omega
  split at hn
  · cases hn
    have hm12 : d.month = 12 := by omega
    simp only [toOrdinal]
    rw [daysBeforeYear_succ hy.1, ← hm12]
    simp only [ShipmentImport.daysBeforeMonth]
    omega
  · cases hn

/-- Only the last day of the calendar has no next one. -/
theorem nextDay_eq_none {d : PyDate} (h : d.Valid) : d.nextDay = none ↔ d = ⟨9999, 12, 31⟩ := by
  obtain ⟨y, m, day⟩ := d
  have hy := h.year
  have hm := h.month
  have hd := h.day
  unfold nextDay
  constructor
  · intro hn
    dsimp only at hn hy hm hd
    split at hn
    · cases hn
    split at hn
    · cases hn
    split at hn
    · cases hn
    obtain rfl : m = 12 := by omega
    obtain rfl : y = 9999 := by omega
    have : daysInMonth 9999 12 = 31 := by decide
    obtain rfl : day = 31 := by omega
    rfl
  · intro he
    cases he
    decide

/-! ## `date.fromisoformat` -/

/-- Year, month and day of an ordinal, by the cycles of 400, 100, 4 and 1 years. -/
def ofOrdinal (ordinal : Nat) : Nat × Nat × Nat :=
  let n := ordinal - 1
  let (n400, n) := (n / 146097, n % 146097)
  let (n100, n) := (n / 36524, n % 36524)
  let (n4, n) := (n / 1461, n % 1461)
  let (n1, n) := (n / 365, n % 365)
  let year := n400 * 400 + 1 + n100 * 100 + n4 * 4 + n1
  if n1 = 4 ∨ n100 = 4 then (year - 1, 12, 31)
  else
    let month := (n + 50) / 32
    if ShipmentImport.daysBeforeMonth year month > n then
      (year, month - 1, n - ShipmentImport.daysBeforeMonth year (month - 1) + 1)
    else (year, month, n - ShipmentImport.daysBeforeMonth year month + 1)

/-- The weekday of the first of January, Monday being 0. -/
def firstWeekday (year : Nat) : Nat := (toOrdinal ⟨year, 1, 1⟩ + 6) % 7

/-- The Monday of the first ISO week of a year, the one that holds its first Thursday. -/
def isoWeek1Monday (year : Nat) : Nat :=
  let week1Monday := toOrdinal ⟨year, 1, 1⟩ - firstWeekday year
  if firstWeekday year > 3 then week1Monday + 7 else week1Monday

/-- The date of a day of an ISO week. Only years that begin on a Thursday, and leap years that begin
on a Wednesday, have a week 53. -/
def ofIsoWeek (year week day : Nat) : Option PyDate :=
  if year < 1 ∨ 9999 < year then none
  else if week = 0 ∨ 53 < week then none
  else if week = 53 ∧ firstWeekday year ≠ 3 ∧ ¬ (firstWeekday year = 2 ∧ isLeap year) then none
  else if day = 0 ∨ 7 < day then none
  else
    let (year, month, day) := ofOrdinal (isoWeek1Monday year + (week - 1) * 7 + (day - 1))
    new? year month day

/-- The next `n` characters as a number, if they are ASCII digits, and the rest. -/
def parseDigits : Nat → Nat → List Char → Option (Nat × List Char)
  | 0, value, cs => some (value, cs)
  | _ + 1, _, [] => none
  | n + 1, value, c :: cs =>
    if c.isDigit then parseDigits n (10 * value + (c.toNat - '0'.toNat)) cs else none

/-- A separator, where the text uses separators. -/
def parseSeparator (usesSeparator : Bool) : List Char → Option (List Char)
  | '-' :: cs => if usesSeparator then some cs else some ('-' :: cs)
  | cs => if usesSeparator then none else some cs

/-- `date.fromisoformat(value)`; `none` is the `ValueError`. The texts of 7, 8 and 10 bytes are
`YYYYMMDD`, `YYYY-MM-DD`, and the same with `Www` or `WwwD` for a week; what follows a whole date
in them is not read. -/
def fromisoformat (value : String) : Option PyDate := do
  guard (value.utf8ByteSize ∈ [7, 8, 10])
  let (year, cs) ← parseDigits 4 0 value.toList
  let usesSeparator := cs.head? = some '-'
  let cs ← parseSeparator usesSeparator cs
  match cs with
  | 'W' :: cs =>
    let (week, cs) ← parseDigits 2 0 cs
    if cs = [] then ofIsoWeek year week 1
    else
      let cs ← parseSeparator usesSeparator cs
      let (day, _) ← parseDigits 1 0 cs
      ofIsoWeek year week day
  | cs =>
    let (month, cs) ← parseDigits 2 0 cs
    let cs ← parseSeparator usesSeparator cs
    let (day, _) ← parseDigits 2 0 cs
    new? year month day

theorem ofIsoWeek_valid {year week day : Nat} {d : PyDate} (h : ofIsoWeek year week day = some d) :
    d.Valid := by
  unfold ofIsoWeek at h
  repeat' split at h
  all_goals first | cases h | exact (new?_eq_some.1 h).1

theorem fromisoformat_valid {value : String} {d : PyDate} (h : fromisoformat value = some d) :
    d.Valid := by
  simp only [fromisoformat, Option.bind_eq_bind, Option.bind_eq_some_iff] at h
  obtain ⟨-, -, ⟨year, cs⟩, -, cs', -, h⟩ := h
  split at h
  · obtain ⟨⟨week, cs⟩, -, h⟩ := Option.bind_eq_some_iff.1 h
    split at h
    · exact ofIsoWeek_valid h
    · obtain ⟨cs, -, h⟩ := Option.bind_eq_some_iff.1 h
      obtain ⟨⟨day, _⟩, -, h⟩ := Option.bind_eq_some_iff.1 h
      exact ofIsoWeek_valid h
  · obtain ⟨⟨month, cs⟩, -, h⟩ := Option.bind_eq_some_iff.1 h
    obtain ⟨cs, -, h⟩ := Option.bind_eq_some_iff.1 h
    obtain ⟨⟨day, _⟩, -, h⟩ := Option.bind_eq_some_iff.1 h
    exact (new?_eq_some.1 h).1

example : fromisoformat "2024-02-29" = some ⟨2024, 2, 29⟩ := by decide +kernel
example : fromisoformat "2023-02-29" = none := by decide +kernel
example : fromisoformat "9999-W52-5" = some ⟨9999, 12, 31⟩ := by decide +kernel

end PyDate

end ShipmentImport
