import Apanel.Backend.Split

/-!
# Reading the history

`StateService.history` recognizes the states of a window once more. What it returns is what the
timeline says, wherever the passes that made the timeline and the one that reads it keep their
seams.
-/

namespace Apanel

variable {F : Type} [Arith F] [LinearOrder (IndicatorRequest F)] [LinearOrder (Target F)]

/-! ## The last event -/

/-- The last valid event of a target dated at or before a day. -/
structure LastEvent (events : List (StateEvent F)) (target : Target F) (day : Date)
    (event : StateEvent F) : Prop where
  mem : event ∈ events
  valid : event.valid
  target_eq : event.target = target
  le : event.tradeDate ≤ day
  last : ∀ other ∈ events, other.valid → other.target = target → other.tradeDate ≤ day →
    other = event ∨ other.tradeDate < event.tradeDate

omit [Arith F] [LinearOrder (IndicatorRequest F)] in
theorem mem_filter_validEvents {events : List (StateEvent F)} {target : Target F} {day : Date}
    {event : StateEvent F} :
    event ∈ (validEvents events target).filter (·.tradeDate ≤ day) ↔
      event ∈ events ∧ event.valid ∧ event.target = target ∧ event.tradeDate ≤ day := by
  simp only [validEvents, List.mem_filter, Bool.and_eq_true, decide_eq_true_eq, and_assoc]

omit [Arith F] [LinearOrder (IndicatorRequest F)] in
theorem lastEvent_iff {events : List (StateEvent F)} {target : Target F}
    (hsorted : (validOf events target).Pairwise fun a b => a.date < b.date) {day : Date}
    {event : StateEvent F} :
    LastEvent events target day event ↔ (seedAt events day).get? target = some event := by
  rw [get?_seedAt hsorted]
  have hdates : ((validEvents events target).filter (·.tradeDate ≤ day)).Pairwise
      fun a b => a.tradeDate < b.tradeDate := (List.pairwise_map.mp hsorted).filter _
  constructor
  · intro h
    have hmem := mem_filter_validEvents.mpr ⟨h.mem, h.valid, h.target_eq, h.le⟩
    cases hlast : ((validEvents events target).filter (·.tradeDate ≤ day)).getLast? with
    | none => exact absurd (List.getLast?_eq_none_iff.mp hlast) (List.ne_nil_of_mem hmem)
    | some latest =>
      obtain ⟨hlatest, hvalid, htarget, hle⟩ := mem_filter_validEvents.mp (List.mem_of_getLast? hlast)
      rcases h.last latest hlatest hvalid htarget hle with rfl | hlt
      · rfl
      · exact absurd (le_of_getLast? hdates hlast hmem) (not_le.mpr hlt)
  · intro hlast
    obtain ⟨hmem, hvalid, htarget, hle⟩ := mem_filter_validEvents.mp (List.mem_of_getLast? hlast)
    refine ⟨hmem, hvalid, htarget, hle, fun other hother hvalid' htarget' hle' => ?_⟩
    have hother := mem_filter_validEvents.mpr ⟨hother, hvalid', htarget', hle'⟩
    obtain ⟨before, hbefore⟩ := List.getLast?_eq_some_iff.mp hlast
    rw [hbefore] at hother hdates
    rcases List.mem_append.mp hother with hother | hother
    · exact .inr ((List.pairwise_append.mp hdates).2.2 other hother event (List.mem_singleton_self _))
    · exact .inl (List.mem_singleton.mp hother)

/-- A read agrees with a timeline: it has one row of a target for a date at most, with the status of
the last valid event of the target at or before the date. -/
structure AgreesWith (events : List (StateEvent F)) (rows : List (StateRow F)) : Prop where
  nodup : (rows.map fun row => (row.tradeDate, row.target)).Nodup
  status : ∀ row ∈ rows, ∃ event, LastEvent events row.target row.tradeDate event ∧
    event.status = row.status

/-! ## Timelines -/

/-- A pass from `start` through `last` appends the days of `h'` to a history published through
`through`. -/
structure Appends (h h' : History F) (through start last : Date) : Prop where
  unchanged : h.AgreeUpTo h' through
  persistent : h'.snapshots.Persistent
  later : through < start
  ordered : start ≤ last
  covers : ∀ day ∈ h'.snapshots.keys, through < day → start ≤ day ∧ day ≤ last

variable [DecidableEq F]

/-- The timelines one full pass and any number of partial passes appending new days produce, with
the history they were produced from and the day they are published through. `keeps` restricts the
partial passes. -/
inductive TimelineOf (keeps : History F → Date → Date → Prop) :
    History F → Date → AnalysisStore F → Prop
  | full {calendar store last n store'} :
    store.timeline = { events := [], current := ∅ } → store.snapshots.Persistent →
    (∀ day ∈ store.snapshots.keys, day ≤ last) →
    rebuildStates calendar store none last = .ok (n, store') →
    TimelineOf keeps ⟨store.snapshots, store.bars, calendar⟩ last store'
  | append {h through store h' start last sourceRevision n store'} :
    TimelineOf keeps h through store → Appends h h' through start last → keeps h' start last →
    rebuildStates h'.calendar (store.withData h'.snapshots h'.bars sourceRevision) (some start) last =
      .ok (n, store') →
    TimelineOf keeps h' last store'

/-- What such a timeline records: every date of the history. -/
structure Recorded (h : History F) (through : Date) (store : AnalysisStore F) : Prop where
  snapshots : store.snapshots = h.snapshots
  bars : store.bars = h.bars
  initialized : store.stream.stateThrough.isSome
  persistent : h.snapshots.Persistent
  le_through : ∀ day ∈ h.snapshots.keys, day ≤ through
  records : Records h h.snapshots.keys store.timeline.events

omit [DecidableEq F] in
theorem Records.congr {h h' : History F} {dates : List Date} {events : List (StateEvent F)}
    (hrecords : Records h dates events) {through : Date} (hagree : h.AgreeUpTo h' through)
    (hdates : ∀ day ∈ dates, day ≤ through) : Records h' dates events := fun target =>
  (hrecords target).trans <| congrArg _ <|
    History.track_congr (fun day hday => (hagree.mono (hdates day hday)).rows_eq) target

theorem Recorded.full {calendar : Calendar} {store store' : AnalysisStore F} {last : Date} {n : ℕ}
    (hempty : store.timeline = { events := [], current := ∅ })
    (hpersistent : store.snapshots.Persistent) (hlast : ∀ day ∈ store.snapshots.keys, day ≤ last)
    (h : rebuildStates calendar store none last = .ok (n, store')) :
    Recorded ⟨store.snapshots, store.bars, calendar⟩ last store' := by
  obtain ⟨rows, stream, hrows, hpublish, hthrough, hsnapshots, hbars⟩ := rebuildStates_eq_ok h
  rw [ite_self] at hrows hpublish
  have hkeys : (store.snapshots.upTo last).keys = store.snapshots.keys :=
    eq_of_mem_iff (Table.keys_sorted _) (Table.keys_sorted _) fun day => by
      rw [Table.mem_keys_upTo, and_iff_left_of_imp (hlast day)]
  have hagree : (store.stateInput calendar).history.AgreeUpTo
      ⟨store.snapshots, store.bars, calendar⟩ last :=
    ⟨fun _ _ => rfl, fun _ _ => rfl, fun _ _ => rfl⟩
  have hobserved := StateInput.observations_full hagree hpersistent hrows
  have hinput : (store.stateInput calendar).snapshots = store.snapshots := rfl
  rw [hinput, hkeys] at hobserved
  subst hobserved
  rw [hempty] at hpublish
  exact
    { snapshots := hsnapshots
      bars := hbars
      initialized := hthrough
      persistent := hpersistent
      le_through := hlast
      records := (Records.empty ⟨store.snapshots, store.bars, calendar⟩).publish .nil nofun
        (Table.keys_sorted _) nofun hpublish }

/-- A partial pass that keeps the statuses records the new days. -/
theorem Recorded.append {h h' : History F} {through start last : Date} {store store' : AnalysisStore F}
    {sourceRevision : ℤ} {n : ℕ} (hs : Recorded h through store)
    (happends : Appends h h' through start last) (hkeeps : h'.StatusesKept {} start last)
    (hrebuild : rebuildStates h'.calendar (store.withData h'.snapshots h'.bars sourceRevision)
      (some start) last = .ok (n, store')) :
    Recorded h' last store' := by
  obtain ⟨rows, stream, hrows, hpublish, hthrough, hsnapshots, hbars⟩ := rebuildStates_eq_ok hrebuild
  have hpersist : (store.withData h'.snapshots h'.bars sourceRevision).stream.stateThrough.isNone =
      false := Option.isNone_eq_false_iff.mpr hs.initialized
  rw [hpersist, if_neg Bool.false_ne_true] at hrows hpublish
  have hthroughLast := happends.later.le.trans happends.ordered
  have hlast (day : Date) (hday : day ∈ h'.snapshots.keys) : day ≤ last :=
    (le_or_gt day through).elim (fun hle => hle.trans hthroughLast)
      fun hgt => (happends.covers day hday hgt).2
  have hbefore (day : Date) (hday : day ∈ h'.snapshots.keys) (hlt : day < start) :
      day ∈ h.snapshots.keys :=
    (le_or_gt day through).elim (fun hle => (happends.unchanged.mem_keys hle).mpr hday)
      fun hgt => absurd (happends.covers day hday hgt).1 (not_le.mpr hlt)
  have hstored (day : Date) (hday : day ∈ h.snapshots.keys) : day ∈ h'.snapshots.keys :=
    (happends.unchanged.mem_keys (hs.le_through day hday)).mp hday
  have hrecords : Records h' h.snapshots.keys store.timeline.events :=
    hs.records.congr happends.unchanged hs.le_through
  have hsorted : h.snapshots.keys.Pairwise (· < ·) := Table.keys_sorted _
  have hnewSorted := h'.datesFrom_sorted start last
  let input := (store.withData h'.snapshots h'.bars sourceRevision).stateInput h'.calendar
  have hinput : input.snapshots.Persistent := happends.persistent
  obtain ⟨horder, htrack⟩ := StateInput.track_resumed hinput (StateInput.resumable_of_records hinput
    hrecords hsorted hstored hbefore hs.initialized) hkeeps hrows
  have hkeys : h'.snapshots.keys =
      datesBefore h.snapshots.keys (some start) ++ h'.datesFrom start last := by
    have hall : datesBefore h.snapshots.keys (some start) = h.snapshots.keys :=
      List.filter_eq_self.mpr fun day hday => by
        simpa using (hs.le_through day hday).trans_lt happends.later
    rw [hall]
    refine eq_of_mem_iff (Table.keys_sorted _) ?_ fun day => ?_
    · refine List.pairwise_append.mpr ⟨hsorted, hnewSorted, fun day hday day' hday' => ?_⟩
      exact ((hs.le_through day hday).trans_lt happends.later).trans_le
        (History.mem_datesFrom.mp hday').2.1
    · rw [List.mem_append, History.mem_datesFrom]
      constructor
      · intro hday
        rcases lt_or_ge day start with hlt | hge
        · exact .inl (hbefore day hday hlt)
        · exact .inr ⟨hday, hge, hlast day hday⟩
      · rintro (hday | ⟨hday, -⟩)
        · exact hstored day hday
        · exact hday
  refine
    { snapshots := hsnapshots
      bars := hbars
      initialized := hthrough
      persistent := happends.persistent
      le_through := hlast
      records := fun target => ?_ }
  rw [hrecords.publish_validOf hsorted (fun day hday => (hs.le_through day hday).trans hthroughLast)
    horder hpublish, htrack, hkeys, h'.track_append]
  rfl

/-- A timeline whose partial passes keep the statuses records its history. -/
theorem TimelineOf.recorded {h : History F} {through : Date} {store : AnalysisStore F}
    (htimeline : TimelineOf (fun h start last => h.StatusesKept {} start last) h through store) :
    Recorded h through store := by
  induction htimeline with
  | full hempty hpersistent hlast hrebuild => exact .full hempty hpersistent hlast hrebuild
  | append _ happends hkeeps hrebuild ih => exact ih.append happends hkeeps hrebuild

/-! ## The read -/

omit [DecidableEq F] in
/-- The rows of a window agree with a timeline that records the history if and only if their statuses
are those of the history. -/
theorem Recorded.agreesWith_iff {h suffix : History F} {through : Date} {store : AnalysisStore F}
    (hs : Recorded h through store) {filter : StateFilter F} {dates : List Date}
    (hsorted : dates.Pairwise (· < ·)) (hdates : ∀ day ∈ dates, day ∈ h.snapshots.keys) :
    AgreesWith store.timeline.events (suffix.observed filter dates) ↔
      ∀ row ∈ suffix.observed filter dates, h.status row.tradeDate row.target = some row.status := by
  have hkeys : h.snapshots.keys.Pairwise (· < ·) := Table.keys_sorted _
  have hevent {row : StateRow F} (hrow : row ∈ suffix.observed filter dates) :
      (∃ event, LastEvent store.timeline.events row.target row.tradeDate event ∧
        event.status = row.status) ↔ h.status row.tradeDate row.target = some row.status := by
    obtain ⟨day, hday, hrow, -⟩ := History.mem_observed.mp hrow
    rw [← hs.records.seed_status hkeys hs.persistent (fun _ hday => hday)
      (History.tradeDate_of_mem_rows hrow ▸ hdates day hday), Option.map_eq_some_iff]
    exact exists_congr fun event =>
      and_congr_left fun _ => lastEvent_iff (hs.records.sorted hkeys row.target)
  constructor
  · intro hagrees row hrow
    exact (hevent hrow).mp (hagrees.status row hrow)
  · intro hstatus
    exact ⟨(suffix.observed_inDateOrder filter hsorted).nodup,
      fun row hrow => (hevent hrow).mpr (hstatus row hrow)⟩

omit [DecidableEq F] in
/-- A recorded timeline records the history of its tables, with any calendar that agrees. -/
theorem Recorded.withCalendar {h : History F} {through : Date} {store : AnalysisStore F}
    (hs : Recorded h through store) {calendar : Calendar}
    (hcalendar : ∀ day ≤ through, calendar.get? day = h.calendar.get? day) :
    Recorded ⟨store.snapshots, store.bars, calendar⟩ through store where
  snapshots := rfl
  bars := rfl
  initialized := hs.initialized
  persistent := by rw [hs.snapshots]; exact hs.persistent
  le_through := by rw [hs.snapshots]; exact hs.le_through
  records := by
    rw [hs.snapshots, hs.bars]
    refine hs.records.congr ?_ hs.le_through
    exact ⟨fun _ _ => rfl, fun _ _ => rfl, fun day hday => (hcalendar day hday).symm⟩

omit [DecidableEq F] in
/-- A window read on its own agrees with the timeline if and only if it keeps its statuses: a date
that loses its predecessor reads unknown. -/
theorem Recorded.windowed_agreesWith_iff {h : History F} {through start last : Date}
    {store : AnalysisStore F} (hs : Recorded h through store) (hunseeded : h.Unseeded start last)
    {filter : StateFilter F} :
    AgreesWith store.timeline.events
        ((h.windowed start last).observed filter (h.datesFrom start last)) ↔
      h.StatusesKept filter start last := by
  rw [hs.agreesWith_iff (h.datesFrom_sorted start last)
    fun day hday => (History.mem_datesFrom.mp hday).1]
  constructor
  · intro hstatus day previousDate hlost item hitem haccepts heval
    have hrow : (h.windowed start last).row day item.forget ∈
        (h.windowed start last).observed filter (h.datesFrom start last) := by
      refine History.mem_observed.mpr ⟨day, hlost.mem, List.mem_map_of_mem ?_, ?_⟩
      · rw [hlost.windowed_items]
        exact List.mem_map_of_mem hitem
      · rw [History.row_target]
        exact haccepts
    have hunknown := hstatus _ hrow
    rw [hlost.windowed_row] at hunknown
    have hknown : h.status day item.target = some (h.statusOf day item) :=
      History.status_eq_some.mpr ⟨item, hitem, rfl, rfl⟩
    exact History.statusOf_of_evaluates heval (Option.some.inj (hknown.symm.trans hunknown))
  · intro hkeeps row hrow
    obtain ⟨day, hday, hrow, haccepts⟩ := History.mem_observed.mp hrow
    rw [History.tradeDate_of_mem_rows hrow, ← hkeeps.windowed_status hunseeded hday haccepts]
    exact History.status_eq_some_iff_row.mpr ⟨row, hrow, rfl, rfl⟩

/-- What a history request returns agrees with the timeline if and only if the window it reads keeps
the statuses it selects. -/
theorem stateHistory_agreesWith_iff {h : History F} {through : Date} {store : AnalysisStore F}
    (htimeline : TimelineOf (fun h start last => h.StatusesKept {} start last) h through store)
    {calendar : Calendar} (hcalendar : ∀ day ≤ through, calendar.get? day = h.calendar.get? day)
    {start last : Option Date} {filter : StateFilter F} {rows : List (StateRow F)}
    (hrows : stateHistory calendar store start last filter = .ok rows) :
    ∃ resolvedStart resolvedEnd,
      historyWindow store start last filter = .ok (resolvedStart, resolvedEnd) ∧
      (AgreesWith store.timeline.events rows ↔
        History.StatusesKept ⟨store.snapshots, store.bars, calendar⟩ filter resolvedStart
          resolvedEnd) := by
  obtain ⟨hthrough, resolvedStart, resolvedEnd, observed, hwindow, hobserved, rfl⟩ :=
    stateHistory_eq_ok hrows
  refine ⟨resolvedStart, resolvedEnd, hwindow, ?_⟩
  have hs := htimeline.recorded.withCalendar hcalendar
  let input := store.stateInput calendar
  have hpersistent : input.snapshots.Persistent := hs.persistent
  have hrecords : Records input.history input.snapshots.keys input.events := hs.records
  have hselected (suffix : History F) (dates : List Date) :
      ((suffix.observed filter dates).filter fun row => filter.accepts row.target) =
        suffix.observed filter dates :=
    List.filter_eq_self.mpr fun row hrow => by
      obtain ⟨_, _, _, haccepts⟩ := History.mem_observed.mp hrow
      exact haccepts
  rcases StateInput.observations_cases hpersistent (StateInput.resumable_of_records hpersistent hrecords
    (Table.keys_sorted _) (fun _ hday => hday) (fun _ hday _ => hday) hthrough) hobserved with ⟨hkept, rfl⟩ | ⟨hunseeded, rfl⟩
  · rw [hselected]
    refine iff_of_true ?_ fun day p hlost => absurd hlost (hkept day p)
    refine (hs.agreesWith_iff (History.datesFrom_sorted _ _ _) fun day hday =>
      (History.mem_datesFrom.mp hday).1).mpr fun row hrow => ?_
    obtain ⟨day, -, hrow, -⟩ := History.mem_observed.mp hrow
    rw [History.tradeDate_of_mem_rows hrow]
    exact History.status_eq_some_iff_row.mpr ⟨row, hrow, rfl, rfl⟩
  · rw [hselected]
    exact hs.windowed_agreesWith_iff hunseeded

/-! ## A window that starts on a closed day

The days of `closedDayStore` again, published in full: day 4 evaluates a state, but a window from the
closed day 3 reads it as unknown. -/

/-- The store with its data up to a day. -/
def AnalysisStore.dataUpTo {F : Type} [LinearOrder (IndicatorRequest F)] [LinearOrder (Target F)]
    (store : AnalysisStore F) (day : Date) : AnalysisStore F :=
  { store with snapshots := store.snapshots.upTo day, bars := store.bars.upTo day }

def closedDayHistory (day : Date) : History Ranged :=
  ⟨(closedDayStore.dataUpTo day).snapshots, (closedDayStore.dataUpTo day).bars, closedDayCalendar⟩

theorem closedDayHistory_appends : Appends (closedDayHistory 2) (closedDayHistory 3) 2 3 3 where
  unchanged :=
    { snapshots := fun day hday => by
        simp only [closedDayHistory, AnalysisStore.dataUpTo, Table.get?_upTo, if_pos hday,
          if_pos (show day ≤ 3 by lia)]
      bars := fun day hday => by
        simp only [closedDayHistory, AnalysisStore.dataUpTo, Table.get?_upTo, if_pos hday,
          if_pos (show day ≤ 3 by lia)]
      calendar := fun _ _ => rfl }
  persistent := by decide +kernel
  later := by decide
  ordered := by decide
  covers day hday hlt := ⟨by lia, Table.le_of_mem_upTo_keys hday⟩

theorem closedDayHistory_statusesKept : (closedDayHistory 3).StatusesKept {} 3 3 := by
  intro day previousDate hlost
  obtain ⟨first, hfirst, hlt⟩ := hlost.later
  have hle := (History.mem_datesFrom.mp hfirst).2.1
  have hge := (History.mem_datesFrom.mp hlost.mem).2.2
  exact absurd (hle.trans_lt hlt) (not_lt.mpr hge)

/-- A full pass through day 2, a partial one for day 3, and a read of the default window. -/
def closedDayRead : Except ApiError (AnalysisStore Ranged × List (StateRow Ranged)) :=
  match rebuildStates closedDayCalendar (closedDayStore.dataUpTo 2) none 2 with
  | .error error => .error error
  | .ok (_, store) =>
    let h := closedDayHistory 3
    match rebuildStates h.calendar (store.withData h.snapshots h.bars 1) (some 3) 3 with
    | .error error => .error error
    | .ok (_, store) => (stateHistory closedDayCalendar store none none {}).map (store, ·)

theorem stateHistory_agreesWith_iff_closedDay : ∃ store rows,
    closedDayRead = .ok (store, rows) ∧ ∃ resolvedStart resolvedEnd,
      historyWindow store none none {} = .ok (resolvedStart, resolvedEnd) ∧
      (AgreesWith store.timeline.events rows ↔
        History.StatusesKept ⟨store.snapshots, store.bars, closedDayCalendar⟩ {} resolvedStart
          resolvedEnd) := by
  have hok : closedDayRead.isOk := by decide +kernel
  unfold closedDayRead at hok ⊢
  split at hok
  · cases hok
  next n full hfull =>
  dsimp only at hok ⊢
  split at hok
  · cases hok
  next n' appended happended =>
  cases hrows : stateHistory closedDayCalendar appended none none {} with
  | error error => rw [hrows] at hok; cases hok
  | ok rows =>
    have htimeline : TimelineOf (fun h start last => h.StatusesKept {} start last)
        ⟨(closedDayStore.dataUpTo 2).snapshots, (closedDayStore.dataUpTo 2).bars,
          closedDayCalendar⟩ 2 full :=
      .full rfl (by decide +kernel) (fun _ => Table.le_of_mem_upTo_keys) hfull
    refine ⟨appended, rows, rfl, ?_⟩
    exact stateHistory_agreesWith_iff
      (htimeline.append closedDayHistory_appends closedDayHistory_statusesKept happended)
      (fun _ _ => rfl) hrows

theorem not_agreesWith_closedDay : ∃ h store rows,
    TimelineOf (fun _ _ _ => True) h 4 store ∧ store.stream.publicationIsCurrent ∧
      stateHistory h.calendar store (some 3) (some 4) {} = .ok rows ∧
      ¬AgreesWith store.timeline.events (rows : List (StateRow Ranged)) := by
  have hread : (rebuildStates closedDayCalendar closedDayStore none 4).toOption.any fun full =>
      full.2.stream.publicationIsCurrent &&
      (stateHistory closedDayCalendar full.2 (some 3) (some 4) {}).toOption.any fun rows =>
        rows.any fun row =>
          ((validOf full.2.timeline.events row.target).Pairwise fun a b => a.date < b.date) &&
          ((seedAt full.2.timeline.events row.tradeDate).get? row.target).map (·.status) ≠
            some row.status := by
    decide +kernel
  cases hfull : rebuildStates closedDayCalendar closedDayStore none 4 with
  | error error => rw [hfull] at hread; cases hread
  | ok full =>
  rw [hfull] at hread
  obtain ⟨hcurrent, hread⟩ := Bool.and_eq_true_iff.mp hread
  cases hrows : stateHistory closedDayCalendar full.2 (some 3) (some 4) {} with
  | error error => rw [hrows] at hread; cases hread
  | ok rows =>
  rw [hrows] at hread
  refine ⟨_, full.2, rows,
    .full rfl (by decide +kernel) (by decide +kernel) hfull, hcurrent, hrows, fun hagrees => ?_⟩
  obtain ⟨row, hrow, hne⟩ := List.any_eq_true.mp hread
  obtain ⟨hsorted, hne⟩ := Bool.and_eq_true_iff.mp hne
  obtain ⟨event, hevent, hstatus⟩ := hagrees.status row hrow
  rw [lastEvent_iff (of_decide_eq_true hsorted)] at hevent
  exact of_decide_eq_true hne (by rw [hevent, Option.map_some, hstatus])

end Apanel
