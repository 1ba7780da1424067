import Mathlib.Data.Nat.ModEq
import Mathlib.Data.List.Basic
import Mathlib.Tactic.Ring

/-!
# Dates and times as text

A time of the proleptic Gregorian calendar with an optional offset from UTC, the text `isoformat`
gives it, and a parser of these texts.
-/

namespace Apanel

/-! ## Numbers of a fixed width -/

namespace IsoFormat

/-- The last `k` decimal digits of a number. -/
def digits : ℕ → ℕ → List Char
  | 0, _ => []
  | k + 1, n => Nat.digitChar (n / 10 ^ k % 10) :: digits k n

/-- `k` decimal digits, read after `n`. -/
def number : ℕ → ℕ → List Char → Option (ℕ × List Char)
  | 0, n, text => some (n, text)
  | _ + 1, _, [] => none
  | k + 1, n, c :: text => if c.isDigit then number k (n * 10 + (c.toNat - '0'.toNat)) text else none

theorem number_cons_digitChar {d : ℕ} (hd : d < 10) (k n : ℕ) (text : List Char) :
    number (k + 1) n (Nat.digitChar d :: text) = number k (n * 10 + d) text := by
  have hdigit : ∀ d < 10, (Nat.digitChar d).isDigit ∧ (Nat.digitChar d).toNat - '0'.toNat = d := by
    decide
  rw [number, if_pos (hdigit d hd).1, (hdigit d hd).2]

theorem number_append_digits (k acc n : ℕ) (rest : List Char) :
    number k acc (digits k n ++ rest) = some (acc * 10 ^ k + n % 10 ^ k, rest) := by
  induction k generalizing acc with
  | zero => simp [digits, number, Nat.mod_one]
  | succ k ih =>
    rw [digits, List.cons_append, number_cons_digitChar (Nat.mod_lt _ (by decide)), ih,
      Nat.mod_pow_succ, Nat.pow_succ]
    congr 2
    ring

theorem number_digits {k n : ℕ} (h : n < 10 ^ k) (rest : List Char) :
    number k 0 (digits k n ++ rest) = some (n, rest) := by
  rw [number_append_digits, Nat.zero_mul, Nat.zero_add, Nat.mod_eq_of_lt h]

theorem mem_digits {k n : ℕ} {c : Char} (h : c ∈ digits k n) : c.isDigit := by
  induction k with
  | zero => cases h
  | succ k ih =>
    rcases List.mem_cons.mp h with rfl | h
    · have hdigit : ∀ d < 10, (Nat.digitChar d).isDigit := by decide
      exact hdigit _ (Nat.mod_lt _ (by decide))
    · exact ih h

end IsoFormat

/-! ## Dates and times -/

def isLeapYear (year : ℕ) : Bool := year % 4 = 0 ∧ (year % 100 ≠ 0 ∨ year % 400 = 0)

def daysInMonth (year month : ℕ) : ℕ :=
  if month = 2 then if isLeapYear year then 29 else 28
  else if month ∈ [4, 6, 9, 11] then 30 else 31

/-- An offset from UTC of less than a day. -/
structure UtcOffset where
  microseconds : ℤ
  lt_day : microseconds.natAbs < 86400000000
deriving DecidableEq

namespace UtcOffset

def utc : UtcOffset := ⟨0, by decide⟩

def of? (microseconds : ℤ) : Option UtcOffset :=
  if h : microseconds.natAbs < 86400000000 then some ⟨microseconds, h⟩ else none

end UtcOffset

/-- The fields of a time are in their ranges. -/
def ValidTime (year month day hour minute second microsecond : ℕ) : Prop :=
  (1 ≤ year ∧ year ≤ 9999) ∧ (1 ≤ month ∧ month ≤ 12) ∧ (1 ≤ day ∧ day ≤ daysInMonth year month) ∧
    hour < 24 ∧ minute < 60 ∧ second < 60 ∧ microsecond < 1000000

instance (year month day hour minute second microsecond : ℕ) :
    Decidable (ValidTime year month day hour minute second microsecond) :=
  inferInstanceAs (Decidable (_ ∧ _))

/-- A time without `tzinfo` is a naive one. -/
structure DateTime where
  year : ℕ
  month : ℕ
  day : ℕ
  hour : ℕ
  minute : ℕ
  second : ℕ
  microsecond : ℕ
  tzinfo : Option UtcOffset
  valid : ValidTime year month day hour minute second microsecond
deriving DecidableEq

namespace DateTime

/-- A naive time is taken to be one in UTC. -/
def aware (t : DateTime) : DateTime :=
  if t.tzinfo.isNone then { t with tzinfo := some .utc } else t

def daysBeforeYear (year : ℕ) : ℕ :=
  (year - 1) * 365 + (year - 1) / 4 - (year - 1) / 100 + (year - 1) / 400

/-- The day of the proleptic Gregorian calendar, counted from 1 January of year 1. -/
def toOrdinal (t : DateTime) : ℕ :=
  daysBeforeYear t.year + ((List.range' 1 (t.month - 1)).map (daysInMonth t.year)).sum + t.day

/-- The microsecond of an aware time in UTC. Aware times are compared by it. -/
def instant (t : DateTime) : ℤ :=
  (((t.toOrdinal * 24 + t.hour) * 60 + t.minute) * 60 + t.second : ℕ) * 1000000 + t.microsecond -
    (t.tzinfo.map (·.microseconds)).getD 0

end DateTime

namespace IsoFormat

/-! ## Formatting -/

def fraction (microsecond : ℕ) : List Char :=
  if microsecond = 0 then [] else '.' :: digits 6 microsecond

/-- The seconds of an offset are left out when they are zero. -/
def offsetSeconds (microseconds : ℕ) : List Char :=
  if microseconds = 0 then []
  else ':' :: (digits 2 (microseconds / 1000000) ++ fraction (microseconds % 1000000))

def formatOffset : Option UtcOffset → List Char
  | none => []
  | some offset =>
    let size := offset.microseconds.natAbs
    (if offset.microseconds < 0 then '-' else '+') ::
      (digits 2 (size / 3600000000) ++
        ':' :: (digits 2 (size / 60000000 % 60) ++ offsetSeconds (size % 60000000)))

def formatDate (year month day : ℕ) : List Char :=
  digits 4 year ++ '-' :: (digits 2 month ++ '-' :: digits 2 day)

def formatClock (hour minute second microsecond : ℕ) : List Char :=
  digits 2 hour ++ ':' :: (digits 2 minute ++ ':' :: (digits 2 second ++ fraction microsecond))

end IsoFormat

open IsoFormat

def DateTime.isoformat (t : DateTime) : List Char :=
  formatDate t.year t.month t.day ++
    'T' :: (formatClock t.hour t.minute t.second t.microsecond ++ formatOffset t.tzinfo)

namespace IsoFormat

/-! ## Parsing -/

def expect (c : Char) : List Char → Option (List Char)
  | [] => none
  | d :: text => if d = c then some text else none

@[simp] theorem expect_cons (c : Char) (text : List Char) : expect c (c :: text) = some text := by
  simp [expect]

def readFraction : List Char → Option (ℕ × List Char)
  | '.' :: text => number 6 0 text
  | text => some (0, text)

def readSeconds : List Char → Option (ℕ × List Char)
  | ':' :: text => do
    let (seconds, text) ← number 2 0 text
    let (microsecond, text) ← readFraction text
    some (seconds * 1000000 + microsecond, text)
  | text => some (0, text)

def readOffset : List Char → Option (Option UtcOffset)
  | [] => some none
  | sign :: text => do
    let (hours, text) ← number 2 0 text
    let text ← expect ':' text
    let (minutes, text) ← number 2 0 text
    let (rest, text) ← readSeconds text
    let size : ℤ := (hours * 3600000000 + minutes * 60000000 + rest : ℕ)
    if text ≠ [] then none
    else if sign = '+' then (UtcOffset.of? size).map some
    else if sign = '-' then (UtcOffset.of? (-size)).map some
    else none

def readDate (text : List Char) : Option ((ℕ × ℕ × ℕ) × List Char) := do
  let (year, text) ← number 4 0 text
  let text ← expect '-' text
  let (month, text) ← number 2 0 text
  let text ← expect '-' text
  let (day, text) ← number 2 0 text
  some ((year, month, day), text)

def readClock (text : List Char) : Option ((ℕ × ℕ × ℕ × ℕ) × List Char) := do
  let (hour, text) ← number 2 0 text
  let text ← expect ':' text
  let (minute, text) ← number 2 0 text
  let text ← expect ':' text
  let (second, text) ← number 2 0 text
  let (microsecond, text) ← readFraction text
  some ((hour, minute, second, microsecond), text)

/-- The parser of the texts that `isoformat` writes. -/
def parse (text : List Char) : Option DateTime := do
  let ((year, month, day), text) ← readDate text
  let text ← expect 'T' text
  let ((hour, minute, second, microsecond), text) ← readClock text
  let tzinfo ← readOffset text
  if valid : ValidTime year month day hour minute second microsecond then
    some { year, month, day, hour, minute, second, microsecond, tzinfo, valid }
  else none

theorem readFraction_of_head {rest : List Char} (hrest : rest.head? ≠ some '.') :
    readFraction rest = some (0, rest) := by
  rw [readFraction]
  rintro text rfl
  exact hrest rfl

theorem readFraction_fraction {n : ℕ} (h : n < 1000000) {rest : List Char}
    (hrest : rest.head? ≠ some '.') : readFraction (fraction n ++ rest) = some (n, rest) := by
  rw [fraction]
  split
  · next hzero => rw [List.nil_append, readFraction_of_head hrest, hzero]
  · exact number_digits h rest

theorem readSeconds_offsetSeconds {n : ℕ} (h : n < 60000000) :
    readSeconds (offsetSeconds n) = some (n, []) := by
  rw [offsetSeconds]
  split
  · next hzero => rw [hzero]; rfl
  · have hfraction : readFraction (fraction (n % 1000000)) = some (n % 1000000, []) := by
      rw [← List.append_nil (fraction _)]
      exact readFraction_fraction (Nat.mod_lt n (by decide)) nofun
    have hseconds : n / 1000000 < 10 ^ 2 := by omega
    simp only [readSeconds, number_digits hseconds, Option.bind_eq_bind, Option.bind_some, hfraction]
    congr 2
    omega

theorem readOffset_formatOffset (offset : Option UtcOffset) :
    readOffset (formatOffset offset) = some offset := by
  cases offset with
  | none => rfl
  | some offset =>
    have hsize := offset.lt_day
    rw [formatOffset]
    generalize hn : offset.microseconds.natAbs = n at hsize ⊢
    have hhours : n / 3600000000 < 10 ^ 2 := by omega
    have hminutes : n / 60000000 % 60 < 10 ^ 2 := by omega
    have hsplit : n / 3600000000 * 3600000000 + n / 60000000 % 60 * 60000000 + n % 60000000 = n := by
      omega
    have hseconds := readSeconds_offsetSeconds (Nat.mod_lt n (show 0 < 60000000 by decide))
    simp only [readOffset, number_digits hhours, number_digits hminutes, expect_cons,
      Option.bind_eq_bind, Option.bind_some, hseconds, hsplit]
    rcases lt_or_ge offset.microseconds 0 with hneg | hpos
    · have hvalue : -(n : ℤ) = offset.microseconds := by omega
      simp [hneg, hvalue, UtcOffset.of?, offset.lt_day]
    · have hvalue : (n : ℤ) = offset.microseconds := by omega
      simp [hpos.not_gt, hvalue, UtcOffset.of?, offset.lt_day]

theorem formatOffset_head (offset : Option UtcOffset) : (formatOffset offset).head? ≠ some '.' := by
  cases offset with
  | none => nofun
  | some offset =>
    rw [formatOffset]
    split <;> exact nofun

theorem readDate_formatDate {year month day : ℕ} (hyear : year < 10 ^ 4) (hmonth : month < 10 ^ 2)
    (hday : day < 10 ^ 2) (rest : List Char) :
    readDate (formatDate year month day ++ rest) = some ((year, month, day), rest) := by
  simp only [readDate, formatDate, List.append_assoc, List.cons_append, number_digits hyear,
    number_digits hmonth, number_digits hday, expect_cons, Option.bind_eq_bind, Option.bind_some]

theorem readClock_formatClock {hour minute second microsecond : ℕ} (hhour : hour < 10 ^ 2)
    (hminute : minute < 10 ^ 2) (hsecond : second < 10 ^ 2) (hmicrosecond : microsecond < 1000000)
    {rest : List Char} (hrest : rest.head? ≠ some '.') :
    readClock (formatClock hour minute second microsecond ++ rest) =
      some ((hour, minute, second, microsecond), rest) := by
  simp only [readClock, formatClock, List.append_assoc, List.cons_append, number_digits hhour,
    number_digits hminute, number_digits hsecond, expect_cons, Option.bind_eq_bind,
    Option.bind_some, readFraction_fraction hmicrosecond hrest]

theorem daysInMonth_le (year month : ℕ) : daysInMonth year month ≤ 31 := by
  rw [daysInMonth]
  split_ifs <;> decide

theorem parse_isoformat (t : DateTime) : parse t.isoformat = some t := by
  obtain ⟨hyear, hmonth, hday, hhour, hminute, hsecond, hmicrosecond⟩ := t.valid
  have hdays := daysInMonth_le t.year t.month
  rw [parse, DateTime.isoformat, readDate_formatDate (by omega) (by omega) (by omega)]
  simp only [Option.bind_eq_bind, Option.bind_some, expect_cons]
  rw [readClock_formatClock (by omega) (by omega) (by omega) hmicrosecond
    (formatOffset_head t.tzinfo)]
  simp only [Option.bind_some, readOffset_formatOffset, dif_pos t.valid]

/-- The characters of a formatted time. -/
theorem mem_isoformat {t : DateTime} {c : Char} (h : c ∈ t.isoformat) :
    c.isDigit ∨ c ∈ ['-', 'T', ':', '.', '+'] := by
  have hfraction {n : ℕ} (h : c ∈ fraction n) : c.isDigit ∨ c = '.' := by
    rw [fraction] at h
    split at h
    · cases h
    · exact (List.mem_cons.mp h).symm.imp_left mem_digits
  have hseconds {n : ℕ} (h : c ∈ offsetSeconds n) : c.isDigit ∨ c = '.' ∨ c = ':' := by
    rw [offsetSeconds] at h
    split at h
    · cases h
    · rcases List.mem_cons.mp h with h | h
      · exact .inr (.inr h)
      · rcases List.mem_append.mp h with h | h
        · exact .inl (mem_digits h)
        · exact (hfraction h).imp_right .inl
  have hoffset {offset : Option UtcOffset} (h : c ∈ formatOffset offset) :
      c.isDigit ∨ c ∈ ['-', 'T', ':', '.', '+'] := by
    cases offset with
    | none => cases h
    | some offset =>
      simp only [formatOffset, List.mem_cons, List.mem_append] at h
      rcases h with h | h | h | h | h
      · split at h <;> simp [h]
      · exact .inl (mem_digits h)
      · simp [h]
      · exact .inl (mem_digits h)
      · rcases hseconds h with h | h | h <;> simp [h]
  simp only [DateTime.isoformat, formatDate, formatClock, List.mem_append, List.mem_cons] at h
  rcases h with (h | h | h | h | h) | h | (h | h | h | h | h | h) | h
  all_goals first
    | exact .inl (mem_digits h)
    | exact hoffset h
    | exact (hfraction h).imp_right fun h => by simp [h]
    | simp [h]

end IsoFormat

end Apanel
