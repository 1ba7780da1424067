import Apanel.Backend.Windows
import Apanel.Backend.Analysis

/-!
# Incremental publication

A full publication through the day before a split, continued by a partial one from the split, leaves
the timeline of one full publication, if and only if the seam keeps its predecessors. It loses one
when the first snapshot of the suffix is dated on a closed day: that day has no predecessor, so the
partial pass reads nothing before the split, where the predecessor of the next open day lies.
-/

namespace Apanel

variable {F : Type} [Arith F] [LinearOrder (IndicatorRequest F)] [LinearOrder (Target F)]

/-! ## A day without its predecessor -/

/-- An iteration whose previous snapshot is not read. -/
def WorkItem.forget (item : WorkItem F) : WorkItem F := { item with previous := none }

omit [Arith F] [LinearOrder (IndicatorRequest F)] [LinearOrder (Target F)] in
theorem maVariantPairs_map (previous previous' variants : List (IndicatorRequest F × Variant F))
    (emitted : List (ℕ × ℕ)) :
    (maVariantPairs previous emitted variants).map (fun pair => (pair.1, pair.2.1)) =
      (maVariantPairs previous' emitted variants).map fun pair => (pair.1, pair.2.1) := by
  induction variants generalizing emitted with
  | nil => rfl
  | cons variant variants ih =>
    obtain ⟨request, values⟩ := variant
    simp only [maVariantPairs]
    split
    · exact ih _
    split
    · exact ih _
    · rw [List.map_cons, List.map_cons, ih]

omit [Arith F] [LinearOrder (Target F)] in
theorem stateVariantPairs_map (type : IndicatorType)
    (current previous previous' : List (IndicatorRequest F × Variant F)) :
    (stateVariantPairs type current previous).map (fun pair => (pair.1, pair.2.1)) =
      (stateVariantPairs type current previous').map fun pair => (pair.1, pair.2.1) := by
  unfold stateVariantPairs
  split
  · exact maVariantPairs_map ..
  · rw [List.map_map, List.map_map]
    rfl

/-- Without the previous row, the iterations of a date are the same but for what they forget. -/
theorem workItems_none (row : SnapshotRow F) (previous : Option (SnapshotRow F)) :
    workItems {} row none = (workItems {} row previous).map WorkItem.forget := by
  simp only [workItems, Option.all_none, List.filter_true, List.map_flatMap]
  refine List.flatMap_congr fun definition _ => ?_
  let make (pair : StateParameters F × Variant F) : WorkItem F :=
    { definition, parameters := pair.1
      current := { indicator := definition.indicatorType, values := pair.2.values
                   previousValues := pair.2.previousValues, maPair := pair.1.pair? }
      previous := none }
  have hpairs := congrArg (List.map make) (stateVariantPairs_map definition.indicatorType
    (row.variantsOf definition.indicatorType) []
    ((previous.map (·.variantsOf definition.indicatorType)).getD []))
  simp only [List.map_map] at hpairs
  simp only [definitionItems, List.map_map]
  exact hpairs

omit [LinearOrder (IndicatorRequest F)] [LinearOrder (Target F)] in
theorem observeItem_forget (day : Date) (previousDate : Date) (close : Date → Option F)
    (prior : Option StateStatus) (memory : Option Bool) (item : WorkItem F) :
    (observeItem day (some previousDate) close prior memory item.forget).1 =
      unknownRow day item .missingPreviousTradingDay (some previousDate) := rfl

omit [LinearOrder (IndicatorRequest F)] [LinearOrder (Target F)] in
theorem observeItem_of_none {day previousDate : Date} {close : Date → Option F}
    {prior : Option StateStatus} {memory : Option Bool} {item : WorkItem F}
    (h : item.previous = none) :
    (observeItem day (some previousDate) close prior memory item).1 =
      unknownRow day item .missingPreviousTradingDay (some previousDate) := by
  simp only [observeItem, h]

omit [LinearOrder (IndicatorRequest F)] [LinearOrder (Target F)] in
theorem observeItem_of_error {day previousDate : Date} {close : Date → Option F}
    {prior : Option StateStatus} {memory : Option Bool} {item : WorkItem F}
    {previous : IndicatorSnapshot F} (h : item.previous = some previous) {reason : StateReason}
    (herror : evaluateSignal item.definition item.current previous (close day) (close previousDate) =
      .error reason) :
    (observeItem day (some previousDate) close prior memory item).1 =
      unknownRow day item reason (some previousDate) := by
  simp only [observeItem, h, evaluateState, herror]

omit [LinearOrder (IndicatorRequest F)] [LinearOrder (Target F)] in
theorem observeItem_of_ok {day previousDate : Date} {close : Date → Option F}
    {prior : Option StateStatus} {memory : Option Bool} {item : WorkItem F}
    {previous : IndicatorSnapshot F} (h : item.previous = some previous) {signal : StateSignal}
    (hok : evaluateSignal item.definition item.current previous (close day) (close previousDate) =
      .ok signal) :
    (observeItem day (some previousDate) close prior memory item).1.status ≠ .unknown := by
  simp only [observeItem, h, evaluateState, hok, StateResult.status]
  split
  · intro hunknown
    cases hunknown
  · intro hunknown
    cases hunknown

/-! ## A pass that is not seeded -/

namespace History

/-- The history between two days. -/
def windowed (h : History F) (start last : Date) : History F :=
  { snapshots := h.snapshots.window (some start) (some last)
    bars := h.bars.window (some start) (some last)
    calendar := h.calendar }

variable {h : History F} {start last day : Date}

omit [Arith F] [LinearOrder (Target F)] in
theorem windowed_snapshots (hstart : start ≤ day) (hlast : day ≤ last) :
    (h.windowed start last).snapshots.get? day = h.snapshots.get? day :=
  (Table.get?_window h.snapshots (some start) (some last) day).trans (by simp [hstart, hlast])

omit [LinearOrder (Target F)] in
theorem windowed_close (hstart : start ≤ day) (hlast : day ≤ last) :
    (h.windowed start last).close day = h.close day :=
  congrArg (Option.map _) <|
    (Table.get?_window h.bars (some start) (some last) day).trans (by simp [hstart, hlast])

omit [Arith F] [LinearOrder (Target F)] in
theorem windowed_persistent (hpersistent : h.snapshots.Persistent) :
    (h.windowed start last).snapshots.Persistent := by
  intro day day' row row' hlt hrow hrow'
  have hget (d : Date) (r : SnapshotRow F)
      (hr : (h.windowed start last).snapshots.get? d = some r) : h.snapshots.get? d = some r := by
    have hwindow := (Table.get?_window h.snapshots (some start) (some last) d).symm.trans hr
    split at hwindow
    · exact hwindow
    · cases hwindow
  exact hpersistent day day' row row' hlt (hget day row hrow) (hget day' row' hrow')

end History

namespace StateInput

variable {input : StateInput F} {filter : StateFilter F} {start last first : Date}

/-- A pass whose first date has no predecessor reads the history from its start. -/
theorem observations_windowed {maxRows : Option ℕ} {rows : List (StateRow F)}
    (hpersistent : input.snapshots.Persistent)
    (hfirst : (input.snapshots.window (some start) (some last)).minKey? = some first)
    (hnone : input.history.previousDate first = none)
    (hok : input.observations filter (some start) (some last) maxRows = .ok rows) :
    rows = (input.history.windowed start last).observed filter
      (input.history.datesFrom start last) := by
  have hseed : (input.pass filter (some start) (some last)).seedDate = none :=
    (seedDate_eq hfirst).trans hnone
  have hsnapshots : (input.pass filter (some start) (some last)).snapshots =
      (input.history.windowed start last).snapshots := by
    have : (input.pass filter (some start) (some last)).snapshots = input.snapshots.window
      ((input.pass filter (some start) (some last)).seedDate.or (some start)) (some last) := rfl
    rw [this, hseed]
    rfl
  have hbars : (input.pass filter (some start) (some last)).bars =
      (input.history.windowed start last).bars := by
    have : (input.pass filter (some start) (some last)).bars = input.bars.window
      ((input.pass filter (some start) (some last)).seedDate.or (some start)) (some last) := rfl
    rw [this, hseed]
    rfl
  have hclose (day : Date) : (input.pass filter (some start) (some last)).close day =
      (input.history.windowed start last).close day := by
    rw [Pass.close, hbars]
    rfl
  refine observations_eq (h := input.history.windowed start last) hok ?_
    (History.windowed_persistent hpersistent) ?_ fun day _ => by rw [hsnapshots]
  · refine
      { previousDate := fun _ _ => rfl
        stored := fun day hday => hday
        close := fun day _ => hclose day
        previous := fun day _ previousDate _ => by rw [hsnapshots]
        prior := fun day _ previousDate _ hstored => ⟨hclose previousDate, .inl hstored⟩
        seedDate := fun day _ => by rw [hseed]; nofun
        known := fun target htarget => ?_ }
    obtain ⟨first', seedDate, hfirst', hprevious⟩ := exists_seedDate htarget
    rw [hfirst] at hfirst'
    cases hfirst'
    rw [hnone] at hprevious
    cases hprevious
  · refine congrArg Table.keys (Table.ext_get? fun day => ?_)
    rw [Table.get?_window, hsnapshots]
    have hget := Table.get?_window input.history.snapshots (some start) (some last) day
    by_cases hstart : start ≤ day
    · rw [if_pos (by simpa using hstart)]
      rfl
    · rw [if_neg (by simpa using hstart)]
      exact (hget.trans (if_neg fun h => hstart (by simpa using h.1))).symm

end StateInput

/-! ## The seam -/

namespace History

/-- A later date of a suffix whose predecessor is stored before the suffix. -/
structure Lost (h : History F) (start last day previousDate : Date) : Prop where
  mem : day ∈ h.datesFrom start last
  later : ∃ first ∈ h.datesFrom start last, first < day
  previous : h.previousDate day = some previousDate
  stored : previousDate ∈ h.snapshots.keys
  before : previousDate < start

/-- The engine evaluates an iteration: it has a previous snapshot, and its evaluator succeeds. -/
def Evaluates (h : History F) (day : Date) (item : WorkItem F) : Prop :=
  ∃ previousDate previous signal, h.previousDate day = some previousDate ∧
    item.previous = some previous ∧
    evaluateSignal item.definition item.current previous (h.close day) (h.close previousDate) =
      .ok signal

/-- A partial pass over the suffix keeps the statuses of the targets it selects: on a date that loses
its predecessor none of them is evaluated. -/
def StatusesKept (h : History F) (filter : StateFilter F) (start last : Date) : Prop :=
  ∀ day previousDate, h.Lost start last day previousDate → ∀ item ∈ h.items day,
    filter.accepts item.target → ¬h.Evaluates day item

/-- A partial pass over the suffix keeps the timeline: it keeps the statuses, and a date that loses
its predecessor is not the last if a state has a previous snapshot there. -/
def SeamKept (h : History F) (start last : Date) : Prop :=
  h.StatusesKept {} start last ∧
  ∀ day previousDate, h.Lost start last day previousDate → ∀ item ∈ h.items day,
    item.previous.isSome → ∃ later ∈ h.datesFrom start last, day < later

variable {h : History F} {start last day previousDate : Date}

omit [Arith F] [LinearOrder (Target F)] in
/-- The days of the suffix before a date that loses its predecessor are closed. -/
theorem Lost.previousDate_eq_none (hlost : h.Lost start last day previousDate) {d : Date}
    (hstart : start ≤ d) (hd : d < day) : h.previousDate d = none := by
  have hclosed := (Calendar.previousOpenDate_eq_some.mp hlost.previous).2.2.2 d
    (hlost.before.trans_le hstart) hd
  cases hprevious : h.previousDate d with
  | none => rfl
  | some p =>
    have hopen := (Calendar.previousOpenDate_eq_some.mp hprevious).1
    rw [hclosed] at hopen
    cases hopen

omit [LinearOrder (Target F)] in
theorem statusOf_of_previousDate_eq_none (hnone : h.previousDate day = none) (item : WorkItem F) :
    h.statusOf day item = .unknown := by
  rw [statusOf, hnone]
  rfl

omit [LinearOrder (Target F)] in
theorem statusOf_of_not_evaluates {item : WorkItem F} (heval : ¬h.Evaluates day item) :
    h.statusOf day item = .unknown := by
  cases hprevious : h.previousDate day with
  | none => exact statusOf_of_previousDate_eq_none hprevious item
  | some previousDate =>
    rw [statusOf, hprevious]
    cases hitem : item.previous with
    | none => rw [observeItem_of_none hitem]; rfl
    | some previous =>
      cases hsignal : evaluateSignal item.definition item.current previous (h.close day)
          (h.close previousDate) with
      | error reason => rw [observeItem_of_error hitem hsignal]; rfl
      | ok signal => exact absurd ⟨previousDate, previous, signal, hprevious, hitem, hsignal⟩ heval

omit [LinearOrder (Target F)] in
theorem statusOf_of_evaluates {item : WorkItem F} (heval : h.Evaluates day item) :
    h.statusOf day item ≠ .unknown := by
  obtain ⟨previousDate, previous, signal, hprevious, hitem, hok⟩ := heval
  rw [statusOf, hprevious]
  exact observeItem_of_ok hitem hok

/-! ### The suffix read on its own -/

/-- The first date of the suffix has no predecessor. -/
def Unseeded (h : History F) (start last : Date) : Prop :=
  ∀ day ∈ h.datesFrom start last, ∀ previousDate, h.previousDate day = some previousDate →
    previousDate ∈ h.snapshots.keys → previousDate < start → h.Lost start last day previousDate

theorem windowed_items (hday : day ∈ h.datesFrom start last)
    (hkept : ∀ previousDate, h.previousDate day = some previousDate →
      previousDate ∈ h.snapshots.keys → start ≤ previousDate) :
    (h.windowed start last).items day = h.items day := by
  obtain ⟨-, hstart, hlast⟩ := mem_datesFrom.mp hday
  have hprevious : ((h.windowed start last).previousDate day).bind
      (h.windowed start last).snapshots.get? = (h.previousDate day).bind h.snapshots.get? := by
    have heq : (h.windowed start last).previousDate day = h.previousDate day := rfl
    rw [heq]
    cases hp : h.previousDate day with
    | none => rfl
    | some previousDate =>
      have hle := (Calendar.previousOpenDate_lt hp).le.trans hlast
      rw [Option.bind_some, Option.bind_some]
      by_cases hstored : previousDate ∈ h.snapshots.keys
      · exact windowed_snapshots (hkept previousDate hp hstored) hle
      · have hnone := Table.get?_eq_none.mpr hstored
        have hget := Table.get?_window h.snapshots (some start) (some last) previousDate
        rw [hnone, ite_self] at hget
        exact hget.trans hnone.symm
  rw [items, items, windowed_snapshots hstart hlast, hprevious]

theorem Lost.windowed_items (hlost : h.Lost start last day previousDate) :
    (h.windowed start last).items day = (h.items day).map WorkItem.forget := by
  obtain ⟨-, hstart, hlast⟩ := mem_datesFrom.mp hlost.mem
  have hnone : (h.windowed start last).snapshots.get? previousDate = none := by
    refine (Table.get?_window h.snapshots (some start) (some last) previousDate).trans (if_neg ?_)
    exact fun hin => absurd hlost.before (not_lt.mpr (by simpa using hin.1))
  have heq : (h.windowed start last).previousDate day = h.previousDate day := rfl
  rw [items, items, windowed_snapshots hstart hlast, heq, hlost.previous, Option.bind_some, hnone]
  cases h.snapshots.get? day with
  | none => rfl
  | some row => exact workItems_none row _

theorem Lost.windowed_row (hlost : h.Lost start last day previousDate) (item : WorkItem F) :
    (h.windowed start last).row day item.forget =
      unknownRow day item .missingPreviousTradingDay (some previousDate) := by
  have heq : (h.windowed start last).previousDate day = some previousDate := hlost.previous
  rw [row, heq]
  exact observeItem_forget ..

theorem windowed_statusOf_forget (hlost : h.Lost start last day previousDate) (item : WorkItem F) :
    (h.windowed start last).statusOf day item.forget = .unknown := by
  rw [← row_status, hlost.windowed_row]
  rfl

omit [Arith F] [LinearOrder (Target F)] in
/-- A date keeps its predecessor, or loses it. -/
theorem Unseeded.kept_or_lost (hunseeded : h.Unseeded start last)
    (hday : day ∈ h.datesFrom start last) :
    (∀ previousDate, h.previousDate day = some previousDate →
      previousDate ∈ h.snapshots.keys → start ≤ previousDate) ∨
    ∃ previousDate, h.Lost start last day previousDate := by
  by_cases hlost : ∃ previousDate, h.Lost start last day previousDate
  · exact .inr hlost
  · left
    intro previousDate hprevious hstored
    by_contra hlt
    exact hlost ⟨previousDate, hunseeded day hday previousDate hprevious hstored (not_le.mp hlt)⟩

theorem windowed_statusOf (hday : day ∈ h.datesFrom start last)
    (hkept : ∀ previousDate, h.previousDate day = some previousDate →
      previousDate ∈ h.snapshots.keys → start ≤ previousDate)
    {item : WorkItem F} (hitem : item ∈ h.items day) :
    (h.windowed start last).statusOf day item = h.statusOf day item := by
  obtain ⟨-, hstart, hlast⟩ := mem_datesFrom.mp hday
  refine congrArg StateRow.status (observeItem_congr fun previousDate hprevious hsome => ?_)
  have hstored := Pass.stored_of_previous hitem hprevious hsome
  have hle := (Calendar.previousOpenDate_lt hprevious).le.trans hlast
  exact ⟨windowed_close hstart hlast, windowed_close (hkept previousDate hprevious hstored) hle, rfl,
    fun _ => rfl⟩

/-- Where the statuses are kept, the suffix on its own gives every date its statuses. -/
theorem StatusesKept.windowed_status {filter : StateFilter F}
    (hkeeps : h.StatusesKept filter start last) (hunseeded : h.Unseeded start last)
    (hday : day ∈ h.datesFrom start last) {target : Target F} (haccepts : filter.accepts target) :
    (h.windowed start last).status day target = h.status day target := by
  refine Option.ext fun status => ?_
  rw [status_eq_some, status_eq_some]
  rcases hunseeded.kept_or_lost hday with hkept | ⟨previousDate, hlost⟩
  · rw [windowed_items hday hkept]
    refine exists_congr fun item => and_congr_right fun hitem => and_congr_right fun _ => ?_
    rw [windowed_statusOf hday hkept hitem]
  · rw [hlost.windowed_items]
    have hunknown (item : WorkItem F) (hitem : item ∈ h.items day) (htarget : item.target = target) :
        h.statusOf day item = .unknown :=
      statusOf_of_not_evaluates (hkeeps day previousDate hlost item hitem (htarget ▸ haccepts))
    constructor
    · rintro ⟨_, hforget, htarget, hstatus⟩
      obtain ⟨item, hitem, rfl⟩ := List.mem_map.mp hforget
      rw [windowed_statusOf_forget hlost] at hstatus
      exact ⟨item, hitem, htarget, (hunknown item hitem htarget).trans hstatus⟩
    · rintro ⟨item, hitem, htarget, hstatus⟩
      refine ⟨item.forget, List.mem_map_of_mem hitem, htarget, ?_⟩
      rw [windowed_statusOf_forget hlost, ← hunknown item hitem htarget, hstatus]

theorem StatusesKept.windowed_rows (hkeeps : h.StatusesKept {} start last)
    (hunseeded : h.Unseeded start last) (hday : day ∈ h.datesFrom start last)
    (hkept : ∀ previousDate, h.previousDate day = some previousDate →
      previousDate ∈ h.snapshots.keys → start ≤ previousDate) :
    (h.windowed start last).rows day = h.rows day := by
  obtain ⟨-, hstart, hlast⟩ := mem_datesFrom.mp hday
  rw [rows, rows, windowed_items hday hkept]
  refine List.map_congr_left fun item hitem => ?_
  refine observeItem_congr fun previousDate hprevious hsome => ?_
  have hprevious' : h.previousDate day = some previousDate := hprevious
  have hstored := Pass.stored_of_previous hitem hprevious' hsome
  have hge := hkept previousDate hprevious' hstored
  have hle := (Calendar.previousOpenDate_lt hprevious').le.trans hlast
  refine ⟨windowed_close hstart hlast, windowed_close hge hle, ?_, fun _ => rfl⟩
  rw [hprevious, hprevious', Option.bind_some, Option.bind_some]
  exact hkeeps.windowed_status hunseeded (mem_datesFrom.mpr ⟨hstored, hge, hle⟩) rfl

/-- Where the statuses are kept, the suffix on its own makes the same observations. -/
theorem StatusesKept.windowed_observations (hkeeps : h.StatusesKept {} start last)
    (hunseeded : h.Unseeded start last) (hday : day ∈ h.datesFrom start last) :
    ((h.windowed start last).rows day).map (fun row => (row.target, row.observation)) =
      (h.rows day).map fun row => (row.target, row.observation) := by
  rcases hunseeded.kept_or_lost hday with hkept | ⟨previousDate, hlost⟩
  · rw [hkeeps.windowed_rows hunseeded hday hkept]
  · rw [rows, rows, hlost.windowed_items, List.map_map, List.map_map, List.map_map]
    refine List.map_congr_left fun item hitem => ?_
    simp only [Function.comp_apply, hlost.windowed_row]
    cases hprevious : item.previous with
    | none => rw [row, hlost.previous, observeItem_of_none hprevious]
    | some previous =>
      cases heval : evaluateSignal item.definition item.current previous (h.close day)
          (h.close previousDate) with
      | error reason => rw [row, hlost.previous, observeItem_of_error hprevious heval]; rfl
      | ok signal =>
        exact absurd ⟨previousDate, previous, signal, hlost.previous, hprevious, heval⟩
          (hkeeps day previousDate hlost item hitem rfl)

/-- Over a seam that is kept, the suffix on its own gives its last date the same rows. -/
theorem SeamKept.windowed_rows_last (hseam : h.SeamKept start last)
    (hunseeded : h.Unseeded start last) (hday : day ∈ h.datesFrom start last)
    (hlatest : ∀ d ∈ h.datesFrom start last, d ≤ day) :
    (h.windowed start last).rows day = h.rows day := by
  rcases hunseeded.kept_or_lost hday with hkept | ⟨previousDate, hlost⟩
  · exact hseam.1.windowed_rows hunseeded hday hkept
  · rw [rows, rows, hlost.windowed_items, List.map_map]
    refine List.map_congr_left fun item hitem => ?_
    rw [Function.comp_apply, hlost.windowed_row]
    cases hprevious : item.previous with
    | none => rw [row, hlost.previous, observeItem_of_none hprevious]
    | some previous =>
      obtain ⟨later, hlater, hlt⟩ :=
        hseam.2 day previousDate hlost item hitem (by rw [hprevious]; rfl)
      exact absurd (hlatest later hlater) (not_le.mpr hlt)

end History

/-! ## Continuing a timeline -/

namespace StateInput

variable {input : StateInput F} {dates : List Date} {start last : Date}

/-- Where no date loses its predecessor, a pass over the suffix resumes a timeline that records the
dates before it. -/
theorem resumable_of_records (hpersistent : input.snapshots.Persistent)
    (hrecords : Records input.history dates input.events) (hdates : dates.Pairwise (· < ·))
    (hstored : ∀ day ∈ dates, day ∈ input.snapshots.keys)
    (hbefore : ∀ day ∈ input.snapshots.keys, day < start → day ∈ dates)
    (hthrough : input.stateThrough.isSome)
    (hkept : ∀ day previousDate, ¬input.history.Lost start last day previousDate) :
    input.Resumable start last where
  seam first hfirst day hday hlt previousDate hprevious hstored := by
    by_contra hstart
    exact hkept day previousDate
      ⟨hday, ⟨first, hfirst, hlt⟩, hprevious, hstored, not_le.mp hstart⟩
  initialized := hthrough
  known first hfirst seedDate hseed target htarget := by
    obtain ⟨day, -, hle, hhas⟩ := hrecords.seed_observed hdates htarget
    exact hhas.persist hpersistent (hle.trans (Calendar.previousOpenDate_lt hseed).le)
      (History.mem_datesFrom.mp (first_mem hfirst)).1
  status first _ seedDate _ hseedStored hlt target :=
    hrecords.seed_status hdates hpersistent hstored (hbefore seedDate hseedStored hlt) target

/-- What a pass over the suffix observes: the suffix of the history, or the suffix on its own. -/
theorem observations_cases (hpersistent : input.snapshots.Persistent)
    (hresume : (∀ day previousDate, ¬input.history.Lost start last day previousDate) →
      input.Resumable start last)
    {filter : StateFilter F} {maxRows : Option ℕ} {rows : List (StateRow F)}
    (hok : input.observations filter (some start) (some last) maxRows = .ok rows) :
    (∀ day previousDate, ¬input.history.Lost start last day previousDate) ∧
        rows = input.history.observed filter (input.history.datesFrom start last) ∨
      input.history.Unseeded start last ∧
        rows = (input.history.windowed start last).observed filter
          (input.history.datesFrom start last) := by
  by_cases hlost : ∃ day previousDate, input.history.Lost start last day previousDate
  · right
    obtain ⟨day, previousDate, hlost⟩ := hlost
    obtain ⟨first, hfirst, hle⟩ := exists_first hlost.mem
    have hmem := first_mem hfirst
    have hfirstlt : first < day := by
      obtain ⟨first', hfirst', hlt⟩ := hlost.later
      exact (Table.minKey?_le hfirst hfirst').trans_lt hlt
    have hnone := hlost.previousDate_eq_none (History.mem_datesFrom.mp hmem).2.1 hfirstlt
    refine ⟨fun d hd p hprevious hstored hlt => ?_,
      observations_windowed hpersistent hfirst hnone hok⟩
    refine ⟨hd, ⟨first, hmem, lt_of_le_of_ne (Table.minKey?_le hfirst hd) ?_⟩, hprevious, hstored, hlt⟩
    rintro rfl
    rw [hnone] at hprevious
    cases hprevious
  · left
    have hkept (day previousDate : Date) : ¬input.history.Lost start last day previousDate :=
      fun h => hlost ⟨day, previousDate, h⟩
    exact ⟨hkept, observations_resumed hpersistent (hresume hkept) hok⟩

/-- A pass over the suffix that keeps the statuses makes the observations of the history. -/
theorem track_resumed (hpersistent : input.snapshots.Persistent)
    (hresume : (∀ day previousDate, ¬input.history.Lost start last day previousDate) →
      input.Resumable start last)
    (hkeeps : input.history.StatusesKept {} start last) {maxRows : Option ℕ} {rows : List (StateRow F)}
    (hok : input.observations {} (some start) (some last) maxRows = .ok rows) :
    InDateOrder rows ∧ ∀ target, observationsOf rows target =
      input.history.track (input.history.datesFrom start last) target := by
  have hsorted := input.history.datesFrom_sorted start last
  rcases observations_cases hpersistent hresume hok with ⟨-, rfl⟩ | ⟨hunseeded, rfl⟩
  · exact ⟨History.observed_inDateOrder _ {} hsorted, fun _ => rfl⟩
  · exact ⟨History.observed_inDateOrder _ {} hsorted, History.track_congr_observations
      fun day hday => hkeeps.windowed_observations hunseeded hday⟩

end StateInput

end Apanel
