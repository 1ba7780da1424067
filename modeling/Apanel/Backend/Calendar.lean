import Apanel.Backend.IndicatorService
import Mathlib.Data.List.Dedup
import Mathlib.Order.Bounds.Basic

/-!
# The trading calendar

`TradingCalendarService.previous_open_dates` (`app/services/trading_calendar_service.py`), and the
continuity it proves: the predecessor of an open day is the open day before it with only closed
days between.
-/

namespace Apanel

inductive CalendarStatus
  | opened
  | closed
  | unknown
  deriving DecidableEq

abbrev Calendar := Table Date CalendarStatus

/-- The confirmed open days before `target`, the latest last. -/
def Calendar.openDatesBefore (calendar : Calendar) (target : Date) : List Date :=
  (calendar.rows.filter fun row => row.2 = .opened ∧ row.1 < target).map (·.1)

/-- The immediately previous confirmed trading day of one date. `none` is fail-closed: the target
is not confirmed open, no earlier open day is available, or an intervening calendar date is missing
or not closed. -/
def Calendar.previousOpenDate (calendar : Calendar) (target : Date) : Option Date :=
  if calendar.get? target ≠ some .opened then none
  else match (calendar.openDatesBefore target).getLast? with
    | none => none
    | some previous =>
      let between := (List.range (target - previous - 1).toNat).map fun i : ℕ => previous + 1 + (i : ℤ)
      if between.all fun day => calendar.get? day = some .closed then some previous else none

/-- `bisect_left`. -/
def bisectLeft (dates : List Date) (target : Date) : ℕ := (dates.takeWhile (· < target)).length

/-- One target of `previous_open_dates`, among the rows and the open dates it has loaded. -/
def Calendar.resolve (calendar : Calendar) (openDates : List Date) (target : Date) : Option Date :=
  if calendar.get? target ≠ some .opened then none
  else
    let index := bisectLeft openDates target
    if index = 0 then none
    else match openDates[index - 1]? with
      | none => none
      | some previous =>
        let between := (List.range (target - previous - 1).toNat).map fun i : ℕ => previous + 1 + (i : ℤ)
        if between.all fun day => calendar.get? day = some .closed then some previous else none

/-- `previous_open_dates`, with the rows of `trading_calendar` by market. -/
def previousOpenDates (tradingCalendar : String → Calendar) (tradeDates : List Date)
    (market : String) : Table Date (Option Date) :=
  let targets := tradeDates.dedup.insertionSort (· ≤ ·)
  match targets.getLast? with
  | none => ∅
  | some last =>
    let rows : Calendar := (tradingCalendar market).filter (· ≤ last)
    let openDates := (rows.rows.filter fun row => row.2 = .opened).map (·.1)
    .ofList (targets.map fun target => (target, rows.resolve openDates target))

theorem takeWhile_lt_eq_filter {dates : List Date} (h : dates.Pairwise (· < ·)) (target : Date) :
    dates.takeWhile (· < target) = dates.filter (· < target) := by
  induction dates with
  | nil => rfl
  | cons day dates ih =>
    obtain ⟨hday, hdates⟩ := List.pairwise_cons.mp h
    by_cases hlt : day < target
    · rw [List.takeWhile_cons_of_pos (by simpa using hlt), List.filter_cons_of_pos (by simpa using hlt),
        ih hdates]
    · rw [List.takeWhile_cons_of_neg (by simpa using hlt), List.filter_cons_of_neg (by simpa using hlt)]
      refine (List.filter_eq_nil_iff.mpr fun day' hday' => ?_).symm
      have hlt' := hday day' hday'
      simp only [decide_eq_true_eq]
      order

theorem getLast?_takeWhile {α : Type} (p : α → Bool) (l : List α) :
    (l.takeWhile p).getLast? =
      if (l.takeWhile p).length = 0 then none else l[(l.takeWhile p).length - 1]? := by
  obtain ⟨rest, hrest⟩ := List.takeWhile_prefix (l := l) p
  split
  · next hnil => rw [List.length_eq_zero_iff.mp hnil, List.getLast?_nil]
  · next hpos =>
    have hlt : (l.takeWhile p).length - 1 < (l.takeWhile p).length := by omega
    have hfront : (l.takeWhile p ++ rest)[(l.takeWhile p).length - 1]? =
        (l.takeWhile p)[(l.takeWhile p).length - 1]? := List.getElem?_append_left hlt
    rw [List.getLast?_eq_getElem?, ← hfront, hrest]

namespace Calendar

theorem mem_openDatesBefore {calendar : Calendar} {target day : Date} :
    day ∈ calendar.openDatesBefore target ↔ calendar.get? day = some .opened ∧ day < target := by
  simp only [openDatesBefore, List.mem_map, List.mem_filter, decide_eq_true_eq, Table.get?_eq_some]
  constructor
  · rintro ⟨⟨d, s⟩, ⟨hrow, rfl, hlt⟩, rfl⟩
    exact ⟨hrow, hlt⟩
  · rintro ⟨hrow, hlt⟩
    exact ⟨(day, .opened), ⟨hrow, rfl, hlt⟩, rfl⟩

theorem openDatesBefore_sorted (calendar : Calendar) (target : Date) :
    (calendar.openDatesBefore target).Pairwise (· < ·) :=
  List.pairwise_map.mpr (calendar.sorted.filter _)

/-- The predecessor of an open day is open, and every day between them is closed. -/
theorem previousOpenDate_eq_some {calendar : Calendar} {target previous : Date} :
    calendar.previousOpenDate target = some previous ↔
      calendar.get? target = some .opened ∧ calendar.get? previous = some .opened ∧
        previous < target ∧
        ∀ day, previous < day → day < target → calendar.get? day = some .closed := by
  by_cases htarget : calendar.get? target = some .opened
  swap
  · simp [previousOpenDate, htarget]
  simp only [previousOpenDate, htarget, ne_eq, not_true_eq_false, ↓reduceIte, true_and]
  have hall (previous : Date) :
      (((List.range (target - previous - 1).toNat).map fun i : ℕ => previous + 1 + (i : ℤ)).all
        fun day => calendar.get? day = some .closed) = true ↔
      ∀ day, previous < day → day < target → calendar.get? day = some .closed := by
    simp only [List.all_map, List.all_eq_true, List.mem_range, Function.comp_apply,
      decide_eq_true_eq]
    constructor
    · intro h day hlt hgt
      have := h (day - previous - 1).toNat (by lia)
      rwa [show previous + 1 + ((day - previous - 1).toNat : ℤ) = day by lia] at this
    · exact fun h i hi => h _ (by lia) (by lia)
  split
  · next hnone =>
    have hnil : calendar.openDatesBefore target = [] := List.getLast?_eq_none_iff.mp hnone
    simp only [reduceCtorEq, false_iff]
    rintro ⟨hopen, hlt, -⟩
    have := mem_openDatesBefore.mpr ⟨hopen, hlt⟩
    rw [hnil] at this
    cases this
  · next latest hlatest =>
    obtain ⟨hopen, hlt⟩ := mem_openDatesBefore.mp (List.mem_of_getLast? hlatest)
    -- an open day with only closed days up to the target is the latest open day
    have huniq (hprev : calendar.get? previous = some .opened) (hprevlt : previous < target)
        (hbetween : ∀ day, previous < day → day < target → calendar.get? day = some .closed) :
        previous = latest := by
      rcases lt_trichotomy previous latest with h | h | h
      · have := hbetween latest h hlt
        rw [hopen] at this
        cases this
      · exact h
      · obtain ⟨l, hl⟩ := List.getLast?_eq_some_iff.mp hlatest
        have hmem := mem_openDatesBefore.mpr ⟨hprev, hprevlt⟩
        have hsorted := calendar.openDatesBefore_sorted target
        rw [hl] at hmem hsorted
        rcases List.mem_append.mp hmem with hmem | hmem
        · exact absurd ((List.pairwise_append.mp hsorted).2.2 _ hmem latest (by simp)) h.asymm
        · exact List.mem_singleton.mp hmem
    split
    · next h =>
      rw [Option.some.injEq]
      constructor
      · rintro rfl
        exact ⟨hopen, hlt, (hall _).mp h⟩
      · rintro ⟨hprev, hprevlt, hbetween⟩
        exact (huniq hprev hprevlt hbetween).symm
    · next h =>
      simp only [reduceCtorEq, false_iff]
      rintro ⟨hprev, hprevlt, hbetween⟩
      obtain rfl := huniq hprev hprevlt hbetween
      exact h ((hall _).mpr hbetween)

theorem previousOpenDate_lt {calendar : Calendar} {target previous : Date}
    (h : calendar.previousOpenDate target = some previous) : previous < target :=
  (previousOpenDate_eq_some.mp h).2.2.1

/-- The predecessor of a day depends on the calendar up to the day. -/
theorem previousOpenDate_congr {calendar calendar' : Calendar} {target : Date}
    (h : ∀ day ≤ target, calendar.get? day = calendar'.get? day) :
    calendar.previousOpenDate target = calendar'.previousOpenDate target := by
  refine Option.ext fun previous => ?_
  rw [previousOpenDate_eq_some, previousOpenDate_eq_some, h target le_rfl]
  refine and_congr_right fun _ => ?_
  constructor
  · rintro ⟨hopen, hlt, hclosed⟩
    exact ⟨h previous hlt.le ▸ hopen, hlt, fun day hday hday' => h day hday'.le ▸ hclosed day hday hday'⟩
  · rintro ⟨hopen, hlt, hclosed⟩
    exact ⟨h previous hlt.le ▸ hopen, hlt, fun day hday hday' => h day hday'.le ▸ hclosed day hday hday'⟩

/-- No open day lies between a day and its predecessor. -/
theorem le_previousOpenDate {calendar : Calendar} {target previous day : Date}
    (h : calendar.previousOpenDate target = some previous)
    (hday : calendar.get? day = some .opened) (hlt : day < target) : day ≤ previous := by
  by_contra hgt
  have := (previousOpenDate_eq_some.mp h).2.2.2 day (not_le.mp hgt) hlt
  rw [hday] at this
  cases this

theorem takeWhile_openDates (calendar : Calendar) (target : Date) :
    (((calendar.rows.filter fun row => row.2 = .opened).map (·.1)).takeWhile (· < target)) =
      calendar.openDatesBefore target := by
  have hsorted : ((calendar.rows.filter fun row => row.2 = .opened).map (·.1)).Pairwise (· < ·) :=
    List.pairwise_map.mpr (calendar.sorted.filter _)
  rw [takeWhile_lt_eq_filter hsorted, openDatesBefore, List.filter_map, List.filter_filter]
  refine congrArg _ (List.filter_congr fun row _ => ?_)
  rw [Function.comp_apply, Bool.decide_and, Bool.and_comm]

theorem resolve_eq (calendar : Calendar) (target : Date) :
    calendar.resolve ((calendar.rows.filter fun row => row.2 = .opened).map (·.1)) target =
      calendar.previousOpenDate target := by
  have hlast : (if bisectLeft ((calendar.rows.filter fun row => row.2 = .opened).map (·.1)) target = 0
      then none else ((calendar.rows.filter fun row => row.2 = .opened).map
        (·.1))[bisectLeft ((calendar.rows.filter fun row => row.2 = .opened).map (·.1)) target - 1]?) =
        (calendar.openDatesBefore target).getLast? := by
    rw [← takeWhile_openDates, bisectLeft, getLast?_takeWhile]
  rw [resolve, previousOpenDate, ← hlast]
  split
  · rfl
  · dsimp only
    split <;> rfl

end Calendar

/-- Only the requested dates are mapped, each to its predecessor in the whole calendar. -/
theorem get?_previousOpenDates (tradingCalendar : String → Calendar) (tradeDates : List Date)
    (market : String) (t : Date) :
    (previousOpenDates tradingCalendar tradeDates market).get? t =
      if t ∈ tradeDates then some ((tradingCalendar market).previousOpenDate t) else none := by
  have hmem (day : Date) : day ∈ tradeDates.dedup.insertionSort (· ≤ ·) ↔ day ∈ tradeDates := by
    rw [List.mem_insertionSort, List.mem_dedup]
  have hnodup : (tradeDates.dedup.insertionSort (· ≤ ·)).Nodup :=
    (List.perm_insertionSort _ _).nodup_iff.mpr (List.nodup_dedup tradeDates)
  have hsorted := List.pairwise_insertionSort (· ≤ ·) tradeDates.dedup
  rw [previousOpenDates]
  generalize tradeDates.dedup.insertionSort (· ≤ ·) = targets at hmem hnodup hsorted
  cases hlast : targets.getLast? with
  | none =>
    rw [List.getLast?_eq_none_iff.mp hlast] at hmem
    rw [if_neg fun ht => absurd ((hmem t).mpr ht) List.not_mem_nil, Table.get?_empty]
  | some last =>
    -- every target is up to the last one, so the rows after it decide nothing
    have hcongr {day : Date} (hday : day ∈ targets) :
        Calendar.previousOpenDate ((tradingCalendar market).filter (· ≤ last)) day =
          (tradingCalendar market).previousOpenDate day := by
      have hle : day ≤ last := by
        obtain ⟨init, rfl⟩ := List.getLast?_eq_some_iff.mp hlast
        rcases List.mem_append.mp hday with hday | hday
        · exact (List.pairwise_append.mp hsorted).2.2 day hday last (List.mem_singleton_self last)
        · exact (List.mem_singleton.mp hday).le
      refine Calendar.previousOpenDate_congr fun day' hday' => ?_
      rw [Table.get?_filter, if_pos (by simpa using hday'.trans hle)]
    have hkeys : (targets.map fun target => (target,
        Calendar.previousOpenDate ((tradingCalendar market).filter (· ≤ last)) target)).Pairwise
          fun r s => r.1 ≠ s.1 :=
      List.pairwise_map.mpr hnodup
    simp only [Calendar.resolve_eq]
    refine Option.ext fun x => ?_
    rw [Table.ofList, Table.get?_insertMany hkeys, Table.get?_empty]
    simp only [List.mem_map, Prod.mk.injEq, reduceCtorEq, and_false, or_false]
    constructor
    · rintro ⟨day, hday, rfl, rfl⟩
      rw [if_pos ((hmem day).mp hday), hcongr hday]
    · intro hx
      split at hx
      · next ht =>
        cases hx
        exact ⟨t, (hmem t).mpr ht, rfl, hcongr ((hmem t).mpr ht)⟩
      · cases hx

/-- A requested date is mapped to the latest open day before it if it is open itself and every
calendar date between the two is stored as closed, and to no predecessor otherwise. -/
theorem previousOpenDates_spec (tradingCalendar : String → Calendar) (tradeDates : List Date)
    (market : String) :
    (∀ t p, (previousOpenDates tradingCalendar tradeDates market).get? t = some (some p) ↔
      t ∈ tradeDates ∧ (tradingCalendar market).get? t = some .opened ∧
        IsGreatest {day | day < t ∧ (tradingCalendar market).get? day = some .opened} p ∧
        ∀ day, p < day → day < t → (tradingCalendar market).get? day = some .closed) ∧
    (∀ t ∈ tradeDates,
      (∀ p, (previousOpenDates tradingCalendar tradeDates market).get? t ≠ some (some p)) →
        (previousOpenDates tradingCalendar tradeDates market).get? t = some none) ∧
    ∀ t ∉ tradeDates, (previousOpenDates tradingCalendar tradeDates market).get? t = none := by
  refine ⟨fun t p => ?_, fun t ht hnone => ?_, fun t ht => ?_⟩
  · rw [get?_previousOpenDates]
    by_cases ht : t ∈ tradeDates
    · rw [if_pos ht, Option.some.injEq, Calendar.previousOpenDate_eq_some]
      constructor
      · rintro ⟨hopen, hprevious, hlt, hclosed⟩
        refine ⟨ht, hopen, ⟨⟨hlt, hprevious⟩, fun day hday => ?_⟩, hclosed⟩
        by_contra hgt
        cases (hclosed day (not_le.mp hgt) hday.1).symm.trans hday.2
      · rintro ⟨-, hopen, ⟨⟨hlt, hprevious⟩, -⟩, hclosed⟩
        exact ⟨hopen, hprevious, hlt, hclosed⟩
    · simp [ht]
  · rw [get?_previousOpenDates, if_pos ht] at hnone ⊢
    cases hprevious : (tradingCalendar market).previousOpenDate t with
    | none => rfl
    | some p => exact absurd (congrArg some hprevious) (hnone p)
  · rw [get?_previousOpenDates, if_neg ht]

end Apanel
