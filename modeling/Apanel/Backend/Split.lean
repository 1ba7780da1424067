import Apanel.Backend.Incremental
import Apanel.Backend.Freshness

/-!
# Rebuilding in two parts

`StateService.rebuild_history` over the days before a split, then over the days from it, against one
rebuild of all of them.
-/

namespace Apanel

variable {F : Type} [Arith F] [LinearOrder (IndicatorRequest F)] [LinearOrder (Target F)]

section Timelines

/-! ## Timelines before a split -/

/-- Two timelines with the same valid events and current rows, target by target. -/
structure SameTimeline (timeline timeline' : Timeline F) : Prop where
  events (target) : validOf timeline.events target = validOf timeline'.events target
  current (target) : timeline.current.get? target = timeline'.current.get? target

/-- What a full publication leaves before a split: a timeline that records every snapshot date
before it, and whose current rows belong to observed targets. -/
structure PublishedBefore (h : History F) (start : Date) (dates : List Date)
    (timeline : Timeline F) : Prop where
  sorted : dates.Pairwise (· < ·)
  mem (day) : day ∈ dates ↔ day ∈ h.snapshots.keys ∧ day < start
  records : Records h dates timeline.events
  current (target) : timeline.current.get? target ≠ none → ∃ day ∈ dates, h.HasTarget day target

variable [DecidableEq F] {δ : Type} {h : History F} {start last : Date} {dates : List Date}
  {timeline : Timeline F}

theorem observationKind_of_unknown {prior : Option StateEntry} {o : Observation}
    (hprior : ∀ entry, prior = some entry → entry.status = .unknown) (ho : o.status ≠ .unknown) :
    ∃ kind, observationKind prior o = some kind := by
  cases prior with
  | none => exact ⟨_, rfl⟩
  | some entry =>
    have hunknown := hprior entry rfl
    simp only [observationKind, hunknown, ho, if_false, if_true]
    split <;> exact ⟨_, rfl⟩

omit [DecidableEq F] in
/-- A date that loses its predecessor and evaluates a state has an event in the full timeline: the
days before it were unknown. -/
theorem History.Lost.exists_event {day previousDate : Date} {item : WorkItem F}
    (hlost : h.Lost start last day previousDate) (hpersistent : h.snapshots.Persistent)
    {all : List Date} (hsorted : all.Pairwise (· < ·))
    (hall : ∀ d, d ∈ all ↔ d ∈ h.snapshots.keys ∧ d ≤ last) (hitem : item ∈ h.items day)
    (heval : h.Evaluates day item) :
    ∃ event ∈ timelineRecorder.log none (h.track all item.target),
      event.date = day ∧ event.entry.status ≠ .unknown := by
  obtain ⟨hstored, -, hlast⟩ := History.mem_datesFrom.mp hlost.mem
  obtain ⟨first, hfirst, hfirstlt⟩ := hlost.later
  obtain ⟨hfirststored, hfirststart, -⟩ := History.mem_datesFrom.mp hfirst
  have hrow : h.row day item ∈ h.rows day := List.mem_map_of_mem hitem
  have htrack := h.track_singleton hrow
  rw [History.row_target] at htrack
  have hprior : ∀ entry, timelineRecorder.final none (h.track (all.filter (· < day)) item.target) =
      some entry → entry.status = .unknown := by
    intro entry hentry
    have hview := timelineRecorder.final_view StateEntry.status Observation.status
      observationEntry_status none (h.track (all.filter (· < day)) item.target)
    rw [hentry, Option.map_none, Option.or_none] at hview
    obtain ⟨o, ho, hostatus⟩ := Option.map_eq_some_iff.mp hview.symm
    obtain ⟨hodate, hstatus⟩ := History.status_of_mem_track (List.mem_of_getLast? ho)
    obtain ⟨-, holt⟩ := List.mem_filter.mp hodate
    -- the target is observed on the first date of the suffix, if it was before
    have hostart : start ≤ o.date := by
      by_contra hlt
      have hle : o.date ≤ first := (not_le.mp hlt).le.trans hfirststart
      have htarget : h.HasTarget o.date item.target := History.status_isSome.mp (by rw [hstatus]; rfl)
      have hmem : first ∈ all.filter (· < day) :=
        List.mem_filter.mpr ⟨(hall first).mpr ⟨hfirststored, (hfirstlt.le.trans hlast)⟩,
          by simpa using hfirstlt⟩
      obtain ⟨o', ho', hdate⟩ := History.exists_mem_track hmem
        (History.status_isSome.mpr (htarget.persist hpersistent hle hfirststored))
      have := le_of_getLast? (h.track_sorted (hsorted.filter _) item.target) ho ho'
      rw [hdate] at this
      exact hlt (hfirststart.trans this)
    obtain ⟨item', -, -, hitem'⟩ := History.status_eq_some.mp hstatus
    rw [← hostatus, ← hitem']
    exact History.statusOf_of_previousDate_eq_none
      (hlost.previousDate_eq_none hostart (of_decide_eq_true holt)) item'
  have hknown : (h.row day item).observation.status ≠ .unknown := by
    have := h.row_status day item
    exact fun hunknown => History.statusOf_of_evaluates heval (this.symm.trans hunknown)
  obtain ⟨kind, hkind⟩ := observationKind_of_unknown hprior hknown
  generalize hfinal : timelineRecorder.final none (h.track (all.filter (· < day)) item.target) = prior
    at hkind
  refine ⟨⟨(h.row day item).observation.date, kind,
    observationEntry prior (h.row day item).observation⟩, ?_, h.row_tradeDate day item, ?_⟩
  · have hlog := timelineRecorder.log_filter (p := fun d => decide (d ≤ day))
      (fun d d' hlt hd' => by simp at hd' ⊢; order) (h.track_sorted hsorted item.target) none
    refine List.mem_of_mem_filter (p := fun event => decide (event.date ≤ day)) ?_
    refine hlog.symm ▸ ?_
    have hday : day ∈ all := (hall day).mpr ⟨hstored, hlast⟩
    have hfilter := h.track_filter all (fun d => decide (d ≤ day)) item.target
    rw [filter_le_eq_concat hsorted hday, h.track_append, htrack] at hfilter
    refine hfilter.symm ▸ ?_
    rw [timelineRecorder.log_append, hfinal]
    refine List.mem_append_right _ ?_
    simp only [Recorder.log, List.append_nil, Option.mem_toList, timelineRecorder_step, hkind,
      Option.map_some]
  · rw [observationEntry_status]
    exact hknown

namespace PublishedBefore

variable (hbefore : PublishedBefore h start dates timeline)

include hbefore

omit [DecidableEq F] in
theorem stored (day : Date) (hday : day ∈ dates) : day ∈ h.snapshots.keys :=
  ((hbefore.mem day).mp hday).1

omit [DecidableEq F] in
/-- What the partial pass observes: the suffix of the history, or the suffix on its own. -/
theorem observations {input : StateInput F} (hhistory : input.history = h)
    (hevents : input.events = timeline.events) (hthrough : input.stateThrough.isSome)
    (hpersistent : h.snapshots.Persistent) {rows : List (StateRow F)}
    (hok : input.observations {} (some start) (some last) none = .ok rows) :
    (∀ day previousDate, ¬h.Lost start last day previousDate) ∧
        rows = h.observed {} (h.datesFrom start last) ∨
      h.Unseeded start last ∧
        rows = (h.windowed start last).observed {} (h.datesFrom start last) := by
  subst hhistory
  refine StateInput.observations_cases hpersistent ?_ hok
  exact StateInput.resumable_of_records hpersistent (hevents ▸ hbefore.records) hbefore.sorted
    hbefore.stored (fun day hday hlt => (hbefore.mem day).mpr ⟨hday, hlt⟩) hthrough

variable {stream stream₂ stream₃ stream₂' stream₃' : AnalysisStream δ}
  {timeline₂ timeline₃ : Timeline F} {rows : List (StateRow F)}

omit [DecidableEq F] in
/-- The dates before the split and those from it are the dates of the whole. -/
theorem append_sorted : (dates ++ h.datesFrom start last).Pairwise (· < ·) := by
  refine List.pairwise_append.mpr ⟨hbefore.sorted, h.datesFrom_sorted start last, ?_⟩
  intro day hday day' hday'
  exact ((hbefore.mem day).mp hday).2.trans_le (History.mem_datesFrom.mp hday').2.1

omit [DecidableEq F] in
theorem mem_append (hstart : start ≤ last) (day : Date) :
    day ∈ dates ++ h.datesFrom start last ↔ day ∈ h.snapshots.keys ∧ day ≤ last := by
  rw [List.mem_append, hbefore.mem, History.mem_datesFrom]
  constructor
  · rintro (⟨hstored, hlt⟩ | ⟨hstored, -, hle⟩)
    · exact ⟨hstored, hlt.le.trans hstart⟩
    · exact ⟨hstored, hle⟩
  · rintro ⟨hstored, hle⟩
    rcases lt_or_ge day start with hlt | hge
    · exact .inl ⟨hstored, hlt⟩
    · exact .inr ⟨hstored, hge, hle⟩

omit [DecidableEq F] in
theorem datesBefore_eq : datesBefore dates (some start) = dates :=
  List.filter_eq_self.mpr fun day hday => by
    have := ((hbefore.mem day).mp hday).2
    simpa using this

/-- The timelines after the partial publication and after the full one. -/
theorem validOf_resumed (hstart : start ≤ last) (hrows : InDateOrder rows)
    (hresumed : publish stream₂ timeline rows (some start) last = .ok (stream₂', timeline₂))
    (target : Target F) :
    validOf timeline₂.events target =
      timelineRecorder.log none (h.track dates target ++ observationsOf rows target) := by
  rw [hbefore.records.publish_validOf hbefore.sorted
    (fun day hday => ((hbefore.mem day).mp hday).2.le.trans hstart) hrows hresumed,
    hbefore.datesBefore_eq]

theorem current_resumed (hrows : InDateOrder rows)
    (hresumed : publish stream₂ timeline rows (some start) last = .ok (stream₂', timeline₂))
    (target : Target F) :
    timeline₂.current.get? target =
      ((rows.filter (·.target = target)).getLast?.bind fun row =>
        (timelineRecorder.final none (h.track dates target ++ observationsOf rows target)).map
          (row.published stream₂.sourceRevision)).or (timeline.current.get? target) := by
  rw [hbefore.records.publish_current hbefore.sorted hrows hresumed, hbefore.datesBefore_eq]
  rfl

theorem validOf_full
    (hfull : publish stream₃ { events := [], current := ∅ }
      (h.observed {} (dates ++ h.datesFrom start last)) none last = .ok (stream₃', timeline₃))
    (target : Target F) :
    validOf timeline₃.events target =
      timelineRecorder.log none (h.track (dates ++ h.datesFrom start last) target) :=
  (Records.empty h).publish_validOf .nil nofun (h.observed_inDateOrder {} hbefore.append_sorted) hfull
    target

theorem current_full
    (hfull : publish stream₃ { events := [], current := ∅ }
      (h.observed {} (dates ++ h.datesFrom start last)) none last = .ok (stream₃', timeline₃))
    (target : Target F) :
    timeline₃.current.get? target =
      ((h.observed {} (dates ++ h.datesFrom start last)).filter
        (·.target = target)).getLast?.bind fun row =>
          (timelineRecorder.final none (h.track (dates ++ h.datesFrom start last) target)).map
            (row.published stream₃.sourceRevision) := by
  rw [(Records.empty h).publish_current .nil (h.observed_inDateOrder {} hbefore.append_sorted) hfull]
  exact Option.or_none

/-- A partial publication that makes the observations of the suffix, and the same rows on its last
date, leaves the timeline of the full one. -/
theorem sameTimeline (hstart : start ≤ last) (hpersistent : h.snapshots.Persistent) {day : Date}
    (hday : (h.datesFrom start last).getLast? = some day) {suffix : History F}
    (hobservations : ∀ d ∈ h.datesFrom start last,
      (suffix.rows d).map (fun row => (row.target, row.observation)) =
        (h.rows d).map fun row => (row.target, row.observation))
    (hrows : suffix.rows day = h.rows day)
    (hresumed : publish stream₂ timeline (suffix.observed {} (h.datesFrom start last)) (some start)
      last = .ok (stream₂', timeline₂))
    (hfull : publish stream₃ { events := [], current := ∅ }
      (h.observed {} (dates ++ h.datesFrom start last)) none last = .ok (stream₃', timeline₃))
    (hrevision : stream₂.sourceRevision = stream₃.sourceRevision) :
    SameTimeline timeline₂ timeline₃ := by
  have hsorted := h.datesFrom_sorted start last
  have htrack (target : Target F) : h.track dates target ++
      observationsOf (suffix.observed {} (h.datesFrom start last)) target =
        h.track (dates ++ h.datesFrom start last) target := by
    rw [h.track_append]
    exact congrArg _ (History.track_congr_observations hobservations target)
  refine ⟨fun target => ?_, fun target => ?_⟩
  · rw [hbefore.validOf_resumed hstart (suffix.observed_inDateOrder {} hsorted) hresumed, htrack,
      hbefore.validOf_full hfull]
  rw [hbefore.current_resumed (suffix.observed_inDateOrder {} hsorted) hresumed, htrack,
    hbefore.current_full hfull]
  have hmem : day ∈ h.datesFrom start last := List.mem_of_getLast? hday
  have hstored := (History.mem_datesFrom.mp hmem).1
  have hlastDate : (dates ++ h.datesFrom start last).getLast? = some day := by
    rw [List.getLast?_append, hday]
    rfl
  have hlatest (d : Date) (hd : d ∈ dates ++ h.datesFrom start last) : d ≤ day :=
    le_of_getLast? hbefore.append_sorted hlastDate hd
  by_cases htarget : h.HasTarget day target
  · -- both current rows are the row of the last date
    obtain ⟨item, hitem, rfl⟩ := List.mem_map.mp (History.mem_items_targets.mpr htarget)
    have hrow : h.row day item ∈ h.rows day := List.mem_map_of_mem hitem
    have hresumedRow := suffix.getLast?_observed hday (hrows ▸ hrow)
    have hfullRow := h.getLast?_observed hlastDate hrow
    rw [History.row_target] at hresumedRow hfullRow
    obtain ⟨o, ho, -⟩ := History.exists_mem_track (List.mem_append_right dates hmem)
      (History.status_isSome.mpr htarget)
    obtain ⟨entry, hentry⟩ := timelineRecorder.exists_final_of_ne_nil none (List.ne_nil_of_mem ho)
    rw [hresumedRow, hfullRow, hentry, hrevision]
    rfl
  · -- a target that is not observed on the last date never was
    have hnone (d : Date) (hd : d ∈ dates ++ h.datesFrom start last) (row : StateRow F)
        (hrow : row ∈ h.rows d) : row.target ≠ target := by
      rintro rfl
      have : h.HasTarget d row.target := History.mem_items_targets.mp <| by
        rw [← History.rows_targets]
        exact List.mem_map_of_mem hrow
      exact htarget (this.persist hpersistent (hlatest d hd) hstored)
    have hfullRow : (h.observed {} (dates ++ h.datesFrom start last)).filter
        (·.target = target) = [] := by
      rw [List.filter_eq_nil_iff]
      intro row hrow
      obtain ⟨d, hd, hrow, -⟩ := History.mem_observed.mp hrow
      simpa using hnone d hd row hrow
    have hresumedRow : (suffix.observed {} (h.datesFrom start last)).filter
        (·.target = target) = [] := by
      rw [List.filter_eq_nil_iff]
      intro row hrow
      obtain ⟨d, hd, hrow, -⟩ := History.mem_observed.mp hrow
      have hpair := List.mem_map_of_mem (f := fun row => (row.target, row.observation)) hrow
      rw [hobservations d hd] at hpair
      obtain ⟨row', hrow', heq⟩ := List.mem_map.mp hpair
      have := hnone d (List.mem_append_right _ hd) row' hrow'
      rw [(Prod.mk.inj heq).1] at this
      simpa using this
    have hcurrent : timeline.current.get? target = none := by
      by_contra hne
      obtain ⟨d, hd, hhas⟩ := hbefore.current target hne
      have hle := ((hbefore.mem d).mp hd).2.trans_le (History.mem_datesFrom.mp hmem).2.1
      exact htarget (hhas.persist hpersistent hle.le hstored)
    rw [hfullRow, hresumedRow, hcurrent]
    rfl

omit [DecidableEq F] in
/-- Where both timelines log the same events, the partial pass keeps the statuses: an evaluated state
of a date that loses its predecessor has an event in the full timeline. -/
theorem statusesKept_of_log_eq (hstart : start ≤ last) (hpersistent : h.snapshots.Persistent)
    (hlog : ∀ target, timelineRecorder.log none (h.track dates target ++
        (h.windowed start last).track (h.datesFrom start last) target) =
      timelineRecorder.log none (h.track (dates ++ h.datesFrom start last) target)) :
    h.StatusesKept {} start last := by
  intro day previousDate hlost item hitem _ heval
  have hge := (History.mem_datesFrom.mp hlost.mem).2.1
  obtain ⟨event, hevent, hdate, hknown⟩ := hlost.exists_event hpersistent hbefore.append_sorted
    (hbefore.mem_append hstart) hitem heval
  rw [← hlog] at hevent
  obtain ⟨o, ho, hstamp, hstatus⟩ := timelineRecorder.exists_of_mem_log_view
    StateEntry.status Observation.status observationEntry_status hevent
  have hodate : o.date = day := hstamp.symm.trans hdate
  rcases List.mem_append.mp ho with ho | ho
  · have hmem := (History.status_of_mem_track ho).1
    rw [hodate] at hmem
    exact absurd ((hbefore.mem day).mp hmem).2 (not_lt.mpr hge)
  · have hostatus := (History.status_of_mem_track ho).2
    rw [hodate] at hostatus
    obtain ⟨_, hforget, -, hunknown⟩ := History.status_eq_some.mp hostatus
    rw [hlost.windowed_items] at hforget
    obtain ⟨item', -, rfl⟩ := List.mem_map.mp hforget
    rw [History.windowed_statusOf_forget hlost] at hunknown
    exact hknown (hstatus.trans hunknown.symm)

/-- On the last date of the suffix, a state that loses its previous snapshot and is not evaluated
anyway has another reason in its current row. -/
theorem current_ne_of_lost {day previousDate : Date} {item : WorkItem F}
    (hlost : h.Lost start last day previousDate)
    (hday : (h.datesFrom start last).getLast? = some day) (hitem : item ∈ h.items day)
    (hsome : item.previous.isSome) (heval : ¬h.Evaluates day item)
    (hresumed : publish stream₂ timeline
      ((h.windowed start last).observed {} (h.datesFrom start last)) (some start) last =
        .ok (stream₂', timeline₂))
    (hfull : publish stream₃ { events := [], current := ∅ }
      (h.observed {} (dates ++ h.datesFrom start last)) none last = .ok (stream₃', timeline₃)) :
    timeline₂.current.get? item.target ≠ timeline₃.current.get? item.target := by
  intro hcurrent
  have hsorted := h.datesFrom_sorted start last
  obtain ⟨previous, hprevious⟩ := Option.isSome_iff_exists.mp hsome
  obtain ⟨reason, herror⟩ : ∃ reason, evaluateSignal item.definition item.current previous
      (h.close day) (h.close previousDate) = .error reason := by
    cases hsignal : evaluateSignal item.definition item.current previous (h.close day)
        (h.close previousDate) with
    | error reason => exact ⟨reason, rfl⟩
    | ok signal =>
      exact absurd ⟨previousDate, previous, signal, hlost.previous, hprevious, hsignal⟩ heval
  have hfullRow : h.row day item ∈ h.rows day := List.mem_map_of_mem hitem
  have hresumedRow : (h.windowed start last).row day item.forget ∈
      (h.windowed start last).rows day :=
    List.mem_map_of_mem (hlost.windowed_items ▸ List.mem_map_of_mem hitem)
  have hlastDate : (dates ++ h.datesFrom start last).getLast? = some day := by
    rw [List.getLast?_append, hday]
    rfl
  have hfullLast := h.getLast?_observed hlastDate hfullRow
  have hresumedLast := (h.windowed start last).getLast?_observed hday hresumedRow
  have hforget : item.forget.target = item.target := rfl
  rw [History.row_target] at hfullLast hresumedLast
  rw [hforget] at hresumedLast
  have hfullMem : (h.row day item).observation ∈
      h.track (dates ++ h.datesFrom start last) item.target := History.mem_track.mpr
    ⟨day, List.mem_append_right _ hlost.mem, _, hfullRow, h.row_target day item, rfl⟩
  have hresumedMem : ((h.windowed start last).row day item.forget).observation ∈
      observationsOf ((h.windowed start last).observed {} (h.datesFrom start last)) item.target :=
    History.mem_track.mpr ⟨day, hlost.mem, _, hresumedRow, History.row_target .., rfl⟩
  obtain ⟨entry, hentry⟩ :=
    timelineRecorder.exists_final_of_ne_nil none (List.ne_nil_of_mem hfullMem)
  obtain ⟨entry', hentry'⟩ := timelineRecorder.exists_final_of_ne_nil none <|
    List.ne_nil_of_mem (List.mem_append_right (h.track dates item.target) hresumedMem)
  rw [hbefore.current_resumed ((h.windowed start last).observed_inDateOrder {} hsorted) hresumed,
    hbefore.current_full hfull, hfullLast, hresumedLast, Option.bind_some, Option.bind_some, hentry,
    hentry', Option.map_some, Option.some_or, Option.map_some] at hcurrent
  have hreason := congrArg (fun row => row.metadata.reason) (Option.some.inj hcurrent)
  simp only [StateRow.published] at hreason
  rw [hlost.windowed_row, History.row, hlost.previous, observeItem_of_error hprevious herror]
    at hreason
  exact evaluateSignal_error (History.definition_of_mem_items hitem) herror
    (Option.some.inj hreason).symm

/-- When the timelines are the same, the seam was kept. -/
theorem seamKept_of_sameTimeline (hstart : start ≤ last) (hpersistent : h.snapshots.Persistent)
    (hresumed : publish stream₂ timeline
      ((h.windowed start last).observed {} (h.datesFrom start last)) (some start) last =
        .ok (stream₂', timeline₂))
    (hfull : publish stream₃ { events := [], current := ∅ }
      (h.observed {} (dates ++ h.datesFrom start last)) none last = .ok (stream₃', timeline₃))
    (hsame : SameTimeline timeline₂ timeline₃) : h.SeamKept start last := by
  have hkeeps : h.StatusesKept {} start last := by
    refine hbefore.statusesKept_of_log_eq hstart hpersistent fun target => ?_
    have hevents := hsame.events target
    rwa [hbefore.validOf_resumed hstart
      ((h.windowed start last).observed_inDateOrder {} (h.datesFrom_sorted start last)) hresumed,
      hbefore.validOf_full hfull] at hevents
  refine ⟨hkeeps, fun day previousDate hlost item hitem hsome => ?_⟩
  obtain ⟨latest, hlatest⟩ := Table.exists_maxKey? hlost.mem
  rcases (Table.le_maxKey? hlatest hlost.mem).lt_or_eq with hlt | rfl
  · exact ⟨latest, Table.mem_keys_of_maxKey? hlatest, hlt⟩
  · exact absurd (hsame.current item.target) <| hbefore.current_ne_of_lost hlost hlatest hitem hsome
      (hkeeps day previousDate hlost item hitem rfl) hresumed hfull

end PublishedBefore

end Timelines

section Rebuild

/-! ## When a rebuild succeeds -/

/-- Without a row limit, a pass that reads a snapshot returns its rows. -/
theorem StateInput.exists_observations (input : StateInput F) (filter : StateFilter F)
    {persistFrom : Option Date} {last day : Date}
    (hday : day ∈ (input.pass filter persistFrom (some last)).snapshots.keys) :
    ∃ rows, input.observations filter persistFrom (some last) none = .ok rows := by
  have hne : (input.pass filter persistFrom (some last)).snapshots.rows.isEmpty = false := by
    rw [List.isEmpty_eq_false_iff]
    intro hnil
    simp [Table.keys, hnil] at hday
  simp only [observations, hne, Bool.false_eq_true, if_false]
  obtain ⟨s, hs⟩ := (input.pass filter persistFrom (some last)).run_isOk
    { computed := ∅, memory := ∅
      known := (input.pass filter persistFrom (some last)).seeds.filterMap fun _ _ => some ()
      rows := [] }
    ((input.pass filter persistFrom (some last)).snapshots.window persistFrom none).rows
  exact ⟨s.rows, by rw [hs]; rfl⟩

omit [Arith F] in
/-- A full pass reads every snapshot up to its last day. -/
theorem StateInput.mem_pass_full {input : StateInput F} {filter : StateFilter F} {last day : Date}
    (hday : day ∈ input.snapshots.keys) (hlast : day ≤ last) :
    day ∈ (input.pass filter none (some last)).snapshots.keys := by
  obtain ⟨row, hrow⟩ := Table.mem_keys.mp hday
  exact Table.mem_keys.mpr ⟨row, (pass_snapshots_get? rfl hlast).trans hrow⟩

omit [Arith F] in
/-- A partial pass reads the snapshots of its dates. -/
theorem StateInput.mem_pass_resumed {input : StateInput F} {filter : StateFilter F}
    {start last day : Date} (hday : day ∈ input.history.datesFrom start last) :
    day ∈ (input.pass filter (some start) (some last)).snapshots.keys := by
  obtain ⟨hstored, -, hlast⟩ := History.mem_datesFrom.mp hday
  obtain ⟨row, hrow⟩ := Table.mem_keys.mp hstored
  exact Table.mem_keys.mpr ⟨row, (pass_snapshots_get? (readFrom_le_of_mem filter hday) hlast).trans hrow⟩

variable [DecidableEq F]

omit [Arith F] [LinearOrder (IndicatorRequest F)] in
/-- A publication is refused only when the current rows are later. -/
theorem exists_publish {δ : Type} (stream : AnalysisStream δ) {timeline : Timeline F}
    (rows : List (StateRow F)) (start : Option Date) {through : Date}
    (h : ∀ target state, timeline.current.get? target = some state → state.tradeDate ≤ through) :
    ∃ stream' timeline', publish stream timeline rows start through = .ok (stream', timeline') := by
  have hstale : ¬timeline.previousThrough.any (through < ·) := by
    cases hprevious : timeline.previousThrough with
    | none => nofun
    | some previous =>
      obtain ⟨row, hrow, hdate⟩ := List.mem_map.mp (List.max?_mem hprevious)
      have hle := h row.1 row.2 (Table.get?_eq_some.mpr hrow)
      rw [hdate] at hle
      simpa using hle
  simp only [publish, hstale]
  exact ⟨_, _, rfl⟩

theorem rebuildStates_eq_ok {calendar : Calendar} {store store' : AnalysisStore F}
    {start : Option Date} {last : Date} {n : ℕ}
    (h : rebuildStates calendar store start last = .ok (n, store')) :
    let persistFrom := if store.stream.stateThrough.isNone then none else start
    ∃ rows stream', (store.stateInput calendar).observations {} persistFrom (some last) none =
        .ok rows ∧
      publish store.stream store.timeline rows persistFrom last = .ok (stream', store'.timeline) ∧
      store'.stream.stateThrough.isSome ∧ store'.snapshots = store.snapshots ∧
      store'.bars = store.bars := by
  simp only [rebuildStates] at h
  split at h
  · cases h
  next rows hrows =>
  split at h
  · cases h
  next stream timeline hpublish =>
  obtain ⟨-, rfl⟩ := Prod.mk.inj (Except.ok.inj h)
  exact ⟨rows, stream, hrows, hpublish, rfl, rfl, rfl⟩

theorem exists_rebuildStates {calendar : Calendar} (store : AnalysisStore F) (start : Option Date)
    {last : Date} {persistFrom : Option Date}
    (hpersist : persistFrom = if store.stream.stateThrough.isNone then none else start)
    {rows : List (StateRow F)}
    (hrows : (store.stateInput calendar).observations {} persistFrom (some last) none = .ok rows)
    (hcurrent : ∀ target state, store.timeline.current.get? target = some state →
      state.tradeDate ≤ last) :
    ∃ n store', rebuildStates calendar store start last = .ok (n, store') := by
  obtain ⟨stream, timeline, hpublish⟩ := exists_publish store.stream rows persistFrom hcurrent
  simp only [rebuildStates, ← hpersist, hrows, hpublish]
  exact ⟨_, _, rfl⟩

/-! ## The split -/

/-- The store with other indicator snapshots and bars, of another revision of the source. -/
def AnalysisStore.withData (store : AnalysisStore F) (snapshots : Snapshots F) (bars : Bars)
    (sourceRevision : ℤ) : AnalysisStore F :=
  { store with snapshots, bars, stream := { store.stream with sourceRevision } }

/-- The timelines after a rebuild of the days before a split continued by one of the days from it,
and after one rebuild of all of them. -/
def splitRebuild (calendar : Calendar) (store : AnalysisStore F) (snapshots : Snapshots F)
    (bars : Bars) (sourceRevision : ℤ) (split last : Date) :
    Except ApiError (Timeline F × Timeline F) := do
  let (_, before) ← rebuildStates calendar store none (split - 1)
  let (_, continued) ←
    rebuildStates calendar (before.withData snapshots bars sourceRevision) (some split) last
  let (_, full) ← rebuildStates calendar (store.withData snapshots bars sourceRevision) none last
  return (continued.timeline, full.timeline)

theorem splitRebuild_eq {calendar : Calendar} {store before continued full : AnalysisStore F}
    {snapshots : Snapshots F} {bars : Bars} {sourceRevision : ℤ} {split last : Date} {n n' n'' : ℕ}
    (hbefore : rebuildStates calendar store none (split - 1) = .ok (n, before))
    (hcontinued : rebuildStates calendar (before.withData snapshots bars sourceRevision) (some split)
      last = .ok (n', continued))
    (hfull : rebuildStates calendar (store.withData snapshots bars sourceRevision) none last =
      .ok (n'', full)) :
    splitRebuild calendar store snapshots bars sourceRevision split last =
      .ok (continued.timeline, full.timeline) := by
  rw [splitRebuild, hbefore]
  dsimp only [bind, Except.bind]
  rw [hcontinued]
  dsimp only
  rw [hfull]
  rfl

variable {calendar : Calendar} {store before : AnalysisStore F} {snapshots : Snapshots F}
  {bars : Bars} {sourceRevision : ℤ} {split last : Date} {n : ℕ}

/-- What the rebuild of the days before the split leaves. -/
theorem publishedBefore_of_rebuild (hempty : store.timeline = { events := [], current := ∅ })
    (hbefore : rebuildStates calendar store none (split - 1) = .ok (n, before))
    (hsnapshots : ∀ day < split, store.snapshots.get? day = snapshots.get? day)
    (hbars : ∀ day < split, store.bars.get? day = bars.get? day)
    (hpersistent : snapshots.Persistent) :
    PublishedBefore ⟨snapshots, bars, calendar⟩ split (store.snapshots.upTo (split - 1)).keys
        before.timeline ∧
      (∀ target state, before.timeline.current.get? target = some state → state.tradeDate < split) ∧
      before.stream.stateThrough.isSome := by
  obtain ⟨rows, stream', hrows, hpublish, hthrough, -⟩ := rebuildStates_eq_ok hbefore
  rw [ite_self] at hrows hpublish
  set h : History F := ⟨snapshots, bars, calendar⟩
  have hagree : (store.stateInput calendar).history.AgreeUpTo h (split - 1) :=
    { snapshots := fun d hd => congrArg (Option.map _) (hsnapshots d (by lia))
      bars := fun d hd => hbars d (by lia)
      calendar := fun _ _ => rfl }
  have hrows' : rows = h.observed {} (store.snapshots.upTo (split - 1)).keys :=
    StateInput.observations_full hagree hpersistent hrows
  subst hrows'
  set dates := (store.snapshots.upTo (split - 1)).keys with hdates
  have hsorted : dates.Pairwise (· < ·) := Table.keys_sorted _
  have hlt (day : Date) (hday : day ∈ dates) : day < split := by
    have := Table.le_of_mem_upTo_keys hday
    lia
  rw [hempty] at hpublish
  have hcurrent := (Records.empty h).publish_current .nil (h.observed_inDateOrder {} hsorted) hpublish
  have hobserved {target : Target F} {state : PublishedState F}
      (hstate : before.timeline.current.get? target = some state) :
      ∃ day ∈ dates, state.tradeDate = day ∧ h.HasTarget day target := by
    rw [hcurrent, Option.isNone_none, if_pos rfl, Option.or_none, Option.bind_eq_some_iff] at hstate
    obtain ⟨row, hrow, hstate⟩ := hstate
    obtain ⟨entry, -, rfl⟩ := Option.map_eq_some_iff.mp hstate
    obtain ⟨hrow, htarget⟩ := List.mem_filter.mp (List.mem_of_getLast? hrow)
    obtain ⟨day, hday, hrow, -⟩ := History.mem_observed.mp hrow
    refine ⟨day, hday, History.tradeDate_of_mem_rows hrow, History.mem_items_targets.mp ?_⟩
    rw [← History.rows_targets, ← of_decide_eq_true htarget]
    exact List.mem_map_of_mem hrow
  refine ⟨⟨hsorted, fun day => ?_, ?_, fun target hne => ?_⟩, fun target state hstate => ?_, hthrough⟩
  · have hkeys : day < split → (day ∈ store.snapshots.keys ↔ day ∈ snapshots.keys) := fun hday => by
      rw [Table.mem_keys, Table.mem_keys, hsnapshots day hday]
    rw [hdates, Table.mem_keys_upTo]
    constructor
    · rintro ⟨hstored, hle⟩
      have hday : day < split := by lia
      exact ⟨(hkeys hday).mp hstored, hday⟩
    · rintro ⟨hstored, hday⟩
      exact ⟨(hkeys hday).mpr hstored, by lia⟩
  · exact (Records.empty h).publish .nil nofun hsorted nofun hpublish
  · obtain ⟨state, hstate⟩ := Option.ne_none_iff_exists'.mp hne
    obtain ⟨day, hday, -, htarget⟩ := hobserved hstate
    exact ⟨day, hday, htarget⟩
  · obtain ⟨day, hday, hdate, -⟩ := hobserved hstate
    rw [hdate]
    exact hlt day hday

omit [DecidableEq F] in
/-- The dates before the split and those from it are all the snapshot dates. -/
theorem PublishedBefore.dates_eq {h : History F} {dates : List Date} {timeline : Timeline F}
    (hbefore : PublishedBefore h split dates timeline) (hsplit : split ≤ last) :
    (h.snapshots.upTo last).keys = dates ++ h.datesFrom split last :=
  eq_of_mem_iff (Table.keys_sorted _) hbefore.append_sorted fun day => by
    rw [hbefore.mem_append hsplit, Table.mem_keys_upTo]

/-- A rebuild in two parts leaves the timeline of one rebuild if and only if the seam is kept. -/
theorem splitRebuild_sameTimeline_iff
    (hempty : store.timeline = { events := [], current := ∅ })
    (hbefore : (rebuildStates calendar store none (split - 1)).isOk)
    (hsnapshots : ∀ day < split, store.snapshots.get? day = snapshots.get? day)
    (hbars : ∀ day < split, store.bars.get? day = bars.get? day)
    (hpersistent : snapshots.Persistent)
    (hsuffix : ∃ day ∈ snapshots.keys, split ≤ day ∧ day ≤ last) :
    ∃ continued full,
      splitRebuild calendar store snapshots bars sourceRevision split last = .ok (continued, full) ∧
      (SameTimeline continued full ↔
        History.SeamKept ⟨snapshots, bars, calendar⟩ split last) := by
  cases hrebuild : rebuildStates calendar store none (split - 1) with
  | error error => rw [hrebuild] at hbefore; cases hbefore
  | ok result =>
  obtain ⟨n, before⟩ := result
  obtain ⟨hpublished, hcurrent, hthrough⟩ :=
    publishedBefore_of_rebuild hempty hrebuild hsnapshots hbars hpersistent
  set h : History F := ⟨snapshots, bars, calendar⟩ with hh
  obtain ⟨day, hstored, hsplit, hlast⟩ := hsuffix
  have hle := hsplit.trans hlast
  have hday : day ∈ h.datesFrom split last := History.mem_datesFrom.mpr ⟨hstored, hsplit, hlast⟩
  -- the two runs succeed
  have hpersist : some split =
      if (before.withData snapshots bars sourceRevision).stream.stateThrough.isNone then none
      else some split := by
    have : (before.withData snapshots bars sourceRevision).stream.stateThrough.isSome := hthrough
    cases hs : (before.withData snapshots bars sourceRevision).stream.stateThrough <;> simp_all
  let resumed := (before.withData snapshots bars sourceRevision).stateInput calendar
  obtain ⟨rows, hrows⟩ :=
    resumed.exists_observations {} (StateInput.mem_pass_resumed hday)
  obtain ⟨n', continued, hcontinued⟩ := exists_rebuildStates _ _ hpersist hrows
    fun target state hstate => (hcurrent target state hstate).le.trans hle
  let whole := (store.withData snapshots bars sourceRevision).stateInput calendar
  obtain ⟨fullRows, hfullRows⟩ := whole.exists_observations {} (StateInput.mem_pass_full hstored hlast)
  obtain ⟨n'', full, hfull⟩ := exists_rebuildStates
    (store.withData snapshots bars sourceRevision) none (ite_self _).symm hfullRows
    fun target state hstate => by
      rw [show (store.withData snapshots bars sourceRevision).timeline = store.timeline from rfl,
        hempty] at hstate
      cases hstate
  refine ⟨_, _, splitRebuild_eq hrebuild hcontinued hfull, ?_⟩
  -- what they publish
  obtain ⟨rows', stream₂, hrows', hresumedPublish, -⟩ := rebuildStates_eq_ok hcontinued
  rw [← hpersist] at hrows' hresumedPublish
  obtain ⟨fullRows', stream₃, hfullRows', hfullPublish, -⟩ := rebuildStates_eq_ok hfull
  rw [ite_self] at hfullRows' hfullPublish
  have hfullObserved : fullRows' =
      h.observed {} ((store.snapshots.upTo (split - 1)).keys ++ h.datesFrom split last) := by
    rw [← hpublished.dates_eq hle]
    exact StateInput.observations_full (h := h) ⟨fun _ _ => rfl, fun _ _ => rfl, fun _ _ => rfl⟩
      hpersistent hfullRows'
  subst hfullObserved
  have htimeline : (store.withData snapshots bars sourceRevision).timeline =
      { events := [], current := ∅ } := hempty
  rw [htimeline] at hfullPublish
  obtain ⟨latest, hlatest⟩ := Table.exists_maxKey? hday
  have hlatestMem := Table.mem_keys_of_maxKey? hlatest
  have hhistory : resumed.history = h := rfl
  rcases hpublished.observations hhistory rfl hthrough hpersistent hrows' with
    ⟨hkept, rfl⟩ | ⟨hunseeded, rfl⟩
  · refine iff_of_true ?_ ⟨fun day p hlost => absurd hlost (hkept day p),
      fun day p hlost => absurd hlost (hkept day p)⟩
    exact hpublished.sameTimeline hle hpersistent hlatest (fun _ _ => rfl) rfl hresumedPublish
      hfullPublish rfl
  · constructor
    · exact hpublished.seamKept_of_sameTimeline hle hpersistent hresumedPublish hfullPublish
    · intro hseam
      exact hpublished.sameTimeline hle hpersistent hlatest
        (fun d hd => hseam.1.windowed_observations hunseeded hd)
        (hseam.windowed_rows_last hunseeded hlatestMem fun d hd => Table.le_maxKey? hlatest hd)
        hresumedPublish hfullPublish rfl

end Rebuild

/-! ## A bar on a closed day

Days 1, 2 and 4 are open, day 3 is closed but has a bar. Split at day 3, the second rebuild has no
predecessor for its first date, reads from day 3, and misses the predecessor of day 4. -/

def closedDayCalendar : Calendar := Table.ofList [(1, .opened), (2, .opened), (3, .closed), (4, .opened)]

def closedDayStore : AnalysisStore Ranged :=
  let bars := Table.ofList [(1, flatBar 10), (2, flatBar 12), (3, flatBar 11), (4, flatBar 15)]
  { bars, stream := { sourceRevision := 1, publishedRevision := 1, publishedDemandGeneration := 0 }
    timeline := { events := [], current := ∅ }
    snapshots := match rebuildIndicators ∅ bars [bollRequest 2] none none none with
      | .ok (_, snapshots) => snapshots
      | .error _ => ∅ }

def closedDayTarget : Target Ranged := ⟨.bollWidthExpanding, .request (bollRequest 2)⟩

theorem splitRebuild_sameTimeline_iff_openSplit :
    ∃ continued full,
      splitRebuild closedDayCalendar closedDayStore closedDayStore.snapshots closedDayStore.bars 1 4 4 =
        .ok (continued, full) ∧
      (SameTimeline continued full ↔ History.SeamKept
        ⟨closedDayStore.snapshots, closedDayStore.bars, closedDayCalendar⟩ 4 4) :=
  splitRebuild_sameTimeline_iff rfl (by decide +kernel) (fun _ _ => rfl) (fun _ _ => rfl)
    (by decide +kernel) (by decide +kernel)

theorem not_sameTimeline_closedDay : ∃ continued full,
    splitRebuild closedDayCalendar closedDayStore closedDayStore.snapshots closedDayStore.bars 1 3 4 =
      .ok (continued, full) ∧ ¬SameTimeline continued full := by
  have hevents : (splitRebuild closedDayCalendar closedDayStore closedDayStore.snapshots
      closedDayStore.bars 1 3 4).toOption.any fun timelines =>
        validOf timelines.1.events closedDayTarget ≠ validOf timelines.2.events closedDayTarget := by
    decide +kernel
  cases hsplit : splitRebuild closedDayCalendar closedDayStore closedDayStore.snapshots
      closedDayStore.bars 1 3 4 with
  | error error => rw [hsplit] at hevents; cases hevents
  | ok timelines =>
    rw [hsplit] at hevents
    exact ⟨timelines.1, timelines.2, rfl, fun h => of_decide_eq_true hevents (h.events closedDayTarget)⟩

end Apanel
