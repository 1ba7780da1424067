import Apanel.Backend.HistoryRead

/-!
# Preservation of published history

A materialization recomputes a suffix of a series and keeps what was published before it. In a run
the timeline stays the log of the published snapshots (`Intact`), so a valid event survives as long
as the bars it depends on do. What loses events is a partial rebuild that starts after the cutoff:
it recomputes nothing, and the timeline is replaced by nothing.
-/

namespace Apanel

variable {F R : Type} [Arith F] [DecidableEq F] [LinearOrder (IndicatorRequest F)]
  [LinearOrder (Target F)] [DecidableEq R]

/-! ## Runs with the published bars -/

/-- A price series with the bars of its last publication, which no table stores. -/
structure TrackedSeries (F R : Type) [LinearOrder (IndicatorRequest F)] [LinearOrder (Target F)] where
  series : Series F R
  published : Bars

namespace TrackedSeries

def initial (demanded : List (IndicatorRequest F)) : TrackedSeries F R :=
  { series := .initial demanded, published := ∅ }

def step (s : TrackedSeries F R) (a : SeriesAction F R) : TrackedSeries F R :=
  { series := s.series.step a
    published := match a with
      | .materialize calendar withDemand cutoff forceHistory =>
        if (s.series.materialize calendar withDemand cutoff forceHistory).isOk then
          s.series.store.bars.window none cutoff
        else s.published
      | _ => s.published }

end TrackedSeries

/-- A partial rebuild from `start` through `latest` resumes a timeline: it starts at or before the
latest bar, keeps its statuses, and every target with an event between its start and the predecessor
of its first date is observed on that date. -/
structure ResumesAt (events : List (StateEvent F)) (h : History F) (start latest : Date) : Prop where
  reached : start ≤ latest ∨ ∀ event ∈ events, event.valid = false
  kept : h.StatusesKept {} start latest
  known : ∀ first ∈ h.datesFrom start latest, (∀ day ∈ h.datesFrom start latest, first ≤ day) →
    ∀ seedDate, h.previousDate first = some seedDate → ∀ event ∈ events, event.valid →
      start ≤ event.tradeDate → event.tradeDate ≤ seedDate → h.HasTarget first event.target

/-- The materializations a run may contain: no calculation is abandoned, the calendar up to the
latest bar is that of the run, and a partial rebuild resumes the timeline on the recomputed
snapshots. -/
def preservingStep (calendar₀ : Calendar) (s : TrackedSeries F R) (a : SeriesAction F R) : Prop :=
  calculableStep s.series a ∧
  match a with
  | .materialize calendar _ cutoff forceHistory =>
    let store := s.series.store
    let effective := mergeIndicatorRequests s.series.demanded
    let bars := store.bars.window none cutoff
    ∀ first latest, bars.minKey? = some first → bars.maxKey? = some latest →
      store.stream.stateThrough.all (· ≤ latest) →
      (∀ day ≤ latest, calendar.get? day = calendar₀.get? day) ∧
      ∀ start, planMaterialize store (demandKey effective) forceHistory first latest =
          .rebuild (some start) →
        ∀ snapshots : Snapshots F, recompute effective bars = .ok snapshots.variants →
          ResumesAt store.timeline.events ⟨snapshots, store.bars, calendar⟩ start latest
  | _ => True

/-- The bars a date's states depend on are those of the last publication. -/
def UnchangedThrough (published : Bars) (s : Series F R) (day : Date) : Prop :=
  ∀ d ≤ day, s.store.bars.get? d = published.get? d

/-- With unchanged demand, a step keeps the valid events of unchanged dates and the current rows of
the targets that have one. -/
structure Preserves (published : Bars) (s s' : Series F R) : Prop where
  events : s.store.stream.demandKey = some (demandKey (mergeIndicatorRequests s.demanded)) →
    ∀ event ∈ s.store.timeline.events, event.valid → UnchangedThrough published s event.tradeDate →
      ∃ event' ∈ s'.store.timeline.events, event'.valid ∧ event'.target = event.target ∧
        event'.event = event.event
  current : s.store.stream.demandKey = some (demandKey (mergeIndicatorRequests s.demanded)) →
    ∀ event ∈ s.store.timeline.events, event.valid → UnchangedThrough published s event.tradeDate →
      (s.store.timeline.current.get? event.target).isSome →
        (s'.store.timeline.current.get? event.target).isSome

/-- The history of the last publication. -/
def TrackedSeries.history (s : TrackedSeries F R) (calendar₀ : Calendar) : History F :=
  ⟨s.series.store.snapshots, s.published, calendar₀⟩

/-- The invariant of a run: the timeline is the log of the published snapshots. -/
structure Intact (calendar₀ : Calendar) (s : TrackedSeries F R) : Prop where
  fresh : Fresh s.published s.series
  records : Records (s.history calendar₀) s.series.store.snapshots.keys
    s.series.store.timeline.events

omit [DecidableEq F] [DecidableEq R] in
theorem Intact.initial (calendar₀ : Calendar) (demanded : List (IndicatorRequest F)) :
    Intact calendar₀ (TrackedSeries.initial (R := R) demanded) where
  fresh := Fresh.initial demanded
  records := Records.empty _

/-! ## The snapshots of a publication -/

/-- A recomputation is persistent. -/
theorem persistent_of_recompute {requests : List (IndicatorRequest F)} {bars : Bars}
    {snapshots : Snapshots F} (h : recompute requests bars = .ok snapshots.variants) :
    snapshots.Persistent := by
  intro day day' row row' hlt hrow hrow' request hrequest
  have hvariants : snapshots.variants.get? day = some row.variants := by simp [hrow]
  have hvariants' : snapshots.variants.get? day' = some row'.variants := by simp [hrow']
  obtain ⟨variants, hget, hsub⟩ :=
    recompute_persists h hlt (recompute_keys h hvariants') hvariants
  rw [hvariants'] at hget
  cases hget
  exact hsub request hrequest

theorem mem_bars_of_recompute {requests : List (IndicatorRequest F)} {bars : Bars}
    {snapshots : Snapshots F} (h : recompute requests bars = .ok snapshots.variants) {day : Date}
    (hday : day ∈ snapshots.keys) : day ∈ bars.keys := by
  obtain ⟨row, hrow⟩ := Table.mem_keys.mp hday
  have hvariants : snapshots.variants.get? day = some row.variants := by simp [hrow]
  exact recompute_keys h hvariants

omit [DecidableEq F] [DecidableEq R] in
/-- The published snapshots are a recomputation of the published bars. -/
theorem Fresh.exists_recompute {published : Bars} {s : Series F R} (hs : Fresh published s) :
    ∃ requests, recompute requests published = .ok s.store.snapshots.variants := by
  rcases lt_or_ge s.store.stream.publishedRevision 0 with hpub | hpub
  · obtain ⟨rfl, hsnapshots⟩ := hs.unpublished hpub
    rw [hsnapshots]
    exact ⟨[], rfl⟩
  · obtain ⟨effective, through, hp⟩ := hs.published hpub
    exact ⟨effective, hp.recomputed⟩

omit [DecidableEq R] in
theorem Fresh.persistent {published : Bars} {s : Series F R} (hs : Fresh published s) :
    s.store.snapshots.Persistent :=
  persistent_of_recompute hs.exists_recompute.choose_spec

omit [DecidableEq R] in
/-- Published dates are not after the bars a materialization may read. -/
theorem Fresh.le_latest {published : Bars} {s : Series F R} (hs : Fresh published s) {latest : Date}
    (hstale : s.store.stream.stateThrough.all (· ≤ latest)) :
    ∀ day ∈ s.store.snapshots.keys, day ≤ latest := by
  intro day hday
  rcases lt_or_ge s.store.stream.publishedRevision 0 with hpub | hpub
  · rw [(hs.unpublished hpub).2] at hday
    cases hday
  · obtain ⟨effective, through, hp⟩ := hs.published hpub
    have hle : through ≤ latest := by simpa [hp.stateThrough] using hstale
    exact (hp.through_le day (mem_bars_of_recompute hp.recomputed hday)).trans hle

omit [DecidableEq R] [DecidableEq F] in
/-- Before the start of a partial rebuild, the new history is the published one. -/
theorem Fresh.agreeUpTo_of_rebuild {published : Bars} {s : Series F R} (hs : Fresh published s)
    {key : DemandKey F} {forceHistory : Bool} {first latest start : Date}
    (hplan : planMaterialize s.store key forceHistory first latest = .rebuild (some start))
    {effective : List (IndicatorRequest F)} {source : Option SourceMarker}
    {payloads : Table Date (Variants F)} {snapshots : Snapshots F}
    (hindicators : rebuildIndicators s.store.snapshots s.store.bars effective (some start)
      (some latest) source = .ok (payloads, snapshots)) (calendar₀ : Calendar) {day : Date}
    (hday : day < start) (hlatest : day ≤ latest) :
    History.AgreeUpTo ⟨s.store.snapshots, published, calendar₀⟩
      ⟨snapshots, s.store.bars.upTo latest, calendar₀⟩ day where
  snapshots d hd := by
    obtain ⟨variants, -, -, hget⟩ := rebuildIndicators_eq_ok hindicators
    have hlt : ¬start ≤ d := by order
    exact congrArg (Option.map _) <| ((hget d).trans (if_neg fun h => hlt (by simpa using h.2))).symm
  bars d hd := by
    have hle : d ≤ latest := hd.trans hlatest
    refine Eq.trans ?_ ((Table.get?_upTo ..).trans (if_pos hle)).symm
    obtain ⟨-, -, hdirty⟩ := planMaterialize_start hplan
    rcases hs.agrees d with hag | ⟨dirtyFrom, hdirtyFrom, hge⟩
    · exact hag.symm
    · rcases hdirty with hnone | hsome
      · rw [hnone] at hdirtyFrom
        cases hdirtyFrom
      · rw [hsome] at hdirtyFrom
        cases hdirtyFrom
        order
  calendar _ _ := rfl

/-- A rebuild that writes no indicators although it reaches the latest bar leaves none. -/
theorem rebuildIndicators_keys_eq_nil {snapshots snapshots' : Snapshots F} {bars : Bars}
    {requests : List (IndicatorRequest F)} {start : Option Date} {latest : Date}
    {source : Option SourceMarker} {payloads : Table Date (Variants F)}
    (h : rebuildIndicators snapshots bars requests start (some latest) source =
      .ok (payloads, snapshots'))
    (hrecompute : recompute requests (bars.upTo latest) = .ok snapshots'.variants)
    (hlatest : latest ∈ bars.keys) (hstart : start.all (· ≤ latest))
    (hempty : payloads.rows.isEmpty) : snapshots'.keys = [] := by
  obtain ⟨variants, hvariants, rfl, -⟩ := rebuildIndicators_eq_ok h
  rw [hrecompute] at hvariants
  cases hvariants
  have hnone (day : Date) (hday : start.all (· ≤ day)) : snapshots'.variants.get? day = none := by
    have hget := Table.get?_window snapshots'.variants start none day
    rw [if_pos ⟨hday, rfl⟩] at hget
    rw [← hget, Table.get?_eq_none, Table.keys, List.isEmpty_iff.mp hempty]
    exact List.not_mem_nil
  refine List.eq_nil_iff_forall_not_mem.mpr fun day hday => ?_
  obtain ⟨row, hrow⟩ := Table.mem_keys.mp hday
  have hvariants : snapshots'.variants.get? day = some row.variants := by simp [hrow]
  rcases lt_or_ge day latest with hlt | hge
  · -- the variants of an earlier day would be on the latest bar
    obtain ⟨variants', hget, -⟩ := recompute_persists hrecompute hlt
      (Table.mem_keys_upTo.mpr ⟨hlatest, le_rfl⟩) hvariants
    rw [hnone latest hstart] at hget
    cases hget
  · have hle := Table.le_of_mem_upTo_keys (recompute_keys hrecompute hvariants)
    rw [le_antisymm hle hge, hnone latest hstart] at hvariants
    cases hvariants

/-! ## One materialization -/

/-- A publication without observations from scratch leaves no valid event. -/
theorem Records.publish_nil {h : History F} {dates : List Date} {δ : Type}
    {stream stream' : AnalysisStream δ} {timeline timeline' : Timeline F} {through : Date}
    (hrecords : Records h dates timeline.events) (hdates : dates.Pairwise (· < ·))
    (hthrough : ∀ day ∈ dates, day ≤ through)
    (hpublish : Apanel.publish stream timeline [] none through = .ok (stream', timeline'))
    (target : Target F) : validOf timeline'.events target = [] := by
  have hnone : datesBefore dates none = [] := List.filter_eq_nil_iff.mpr fun _ _ => nofun
  rw [hrecords.publish_validOf hdates hthrough (fun _ => .nil) hpublish, hnone]
  rfl

/-- The old history, and that of a rebuild, below the start of the rebuild. -/
structure Continues (old new : History F) (start latest : Date) : Prop where
  agree : ∀ day < start, day ≤ latest → old.AgreeUpTo new day
  old_le : ∀ day ∈ old.snapshots.keys, day ≤ latest
  new_le : ∀ day ∈ new.snapshots.keys, day ≤ latest

omit [DecidableEq F] [Arith F] [LinearOrder (Target F)] in
theorem Continues.mem_keys {old new : History F} {start latest day : Date}
    (h : Continues old new start latest) (hday : day < start) :
    day ∈ old.snapshots.keys ↔ day ∈ new.snapshots.keys := by
  constructor
  · intro hmem
    exact ((h.agree day hday (h.old_le day hmem)).mem_keys le_rfl).mp hmem
  · intro hmem
    exact ((h.agree day hday (h.new_le day hmem)).mem_keys le_rfl).mpr hmem

omit [DecidableEq F] [Arith F] [LinearOrder (Target F)] in
theorem Continues.keys_eq {old new : History F} {start latest : Date}
    (h : Continues old new start latest) :
    datesBefore old.snapshots.keys (some start) ++ new.datesFrom start latest =
      new.snapshots.keys := by
  have hbefore (day : Date) :
      day ∈ datesBefore old.snapshots.keys (some start) ↔
        day ∈ old.snapshots.keys ∧ day < start := by simp [datesBefore]
  refine eq_of_mem_iff (List.pairwise_append.mpr ⟨(Table.keys_sorted _).filter _,
    new.datesFrom_sorted .., fun a ha b hb => ?_⟩) (Table.keys_sorted _) fun day => ?_
  · exact ((hbefore a).mp ha).2.trans_le (History.mem_datesFrom.mp hb).2.1
  · rw [List.mem_append, hbefore, History.mem_datesFrom]
    constructor
    · rintro (⟨hmem, hday⟩ | ⟨hmem, -⟩)
      · exact (h.mem_keys hday).mp hmem
      · exact hmem
    · intro hmem
      rcases lt_or_ge day start with hday | hday
      · exact .inl ⟨(h.mem_keys hday).mpr hmem, hday⟩
      · exact .inr ⟨hmem, hday, h.new_le day hmem⟩

omit [DecidableEq F] in
theorem Continues.track_eq {old new : History F} {start latest : Date}
    (h : Continues old new start latest) (target : Target F) :
    old.track (datesBefore old.snapshots.keys (some start)) target =
      new.track (datesBefore old.snapshots.keys (some start)) target := by
  refine History.track_congr (fun day hday => ?_) target
  obtain ⟨hmem, hlt⟩ := List.mem_filter.mp hday
  exact (h.agree day (by simpa using hlt) (h.old_le day hmem)).rows_eq

omit [DecidableEq F] in
/-- A pass over the recomputed suffix resumes the timeline of the old history. -/
theorem ResumesAt.resumable {input : StateInput F} {old : History F} {start latest : Date}
    (h : ResumesAt input.events input.history start latest)
    (hcontinues : Continues old input.history start latest)
    (hrecords : Records old old.snapshots.keys input.events)
    (hpersistentOld : old.snapshots.Persistent) (hpersistent : input.snapshots.Persistent)
    (hthrough : input.stateThrough.isSome)
    (hkept : ∀ day previousDate, ¬input.history.Lost start latest day previousDate) :
    input.Resumable start latest where
  seam first hfirst day hday hlt previousDate hprevious hstored := by
    by_contra hbefore
    exact hkept day previousDate ⟨hday, ⟨first, hfirst, hlt⟩, hprevious, hstored, not_le.mp hbefore⟩
  initialized := hthrough
  known first hfirst seedDate hseed target htarget := by
    have hmem := StateInput.first_mem hfirst
    obtain ⟨event, hevent⟩ := Table.mem_keys.mp htarget
    rw [get?_seedAt (hrecords.sorted (Table.keys_sorted _) target)] at hevent
    obtain ⟨hof, hle⟩ := List.mem_filter.mp (List.mem_of_getLast? hevent)
    obtain ⟨hevents, hmatch⟩ := List.mem_filter.mp hof
    obtain ⟨hvalid, rfl⟩ : event.valid = true ∧ event.target = target := by simpa using hmatch
    rcases le_or_gt start event.tradeDate with hge | hlt
    · exact h.known first hmem (fun day hday => Table.minKey?_le hfirst hday) seedDate hseed event
        hevents hvalid hge (by simpa using hle)
    · -- a target observed before the start is still observed
      obtain ⟨hdate, hold⟩ := hrecords.observed hevents hvalid
      have hagree := hcontinues.agree _ hlt (hcontinues.old_le _ hdate)
      obtain ⟨hstored, hstart, -⟩ := History.mem_datesFrom.mp hmem
      exact (hagree.hasTarget hold).persist hpersistent (hlt.le.trans hstart) hstored
  status first hfirst seedDate hseed hstored hlt target := by
    have hle := hcontinues.new_le seedDate hstored
    rw [hrecords.seed_status (Table.keys_sorted _) hpersistentOld (fun _ h => h)
      ((hcontinues.mem_keys hlt).mpr hstored)]
    exact (hcontinues.agree seedDate hlt hle).status_eq target

omit [DecidableEq F] in
/-- An empty rebuild that starts after its latest bar leaves the empty timeline of a series without
events. -/
theorem Continues.log_eq_nil {old new : History F} {start latest : Date}
    (h : Continues old new start latest) {events : List (StateEvent F)}
    (hrecords : Records old old.snapshots.keys events) (hlt : latest < start)
    (hinvalid : ∀ event ∈ events, event.valid = false) (target : Target F) :
    timelineRecorder.log none (new.track new.snapshots.keys target) = [] := by
  have hnone : validOf events target = [] := by
    refine List.map_eq_nil_iff.mpr (List.filter_eq_nil_iff.mpr fun event hevent => ?_)
    simp [hinvalid event hevent]
  have hdates : new.datesFrom start latest = [] := by
    refine List.eq_nil_iff_forall_not_mem.mpr fun day hday => ?_
    obtain ⟨-, hge, hle⟩ := History.mem_datesFrom.mp hday
    order
  have hbefore : datesBefore old.snapshots.keys (some start) = old.snapshots.keys := by
    refine List.filter_eq_self.mpr fun day hday => ?_
    simpa using (h.old_le day hday).trans_lt hlt
  have hkeys := h.keys_eq
  rw [hdates, List.append_nil, hbefore] at hkeys
  have htrack := h.track_eq target
  rw [hbefore] at htrack
  rw [← hkeys, ← htrack, ← hrecords target, hnone]

/-- A publication over the recomputed suffix leaves the log of the new history. -/
theorem Continues.records {old new : History F} {start latest : Date}
    (h : Continues old new start latest) {δ : Type} {stream stream' : AnalysisStream δ}
    {timeline timeline' : Timeline F} (hrecords : Records old old.snapshots.keys timeline.events)
    {rows : List (StateRow F)} (horder : InDateOrder rows)
    (hrows : ∀ target, observationsOf rows target =
      new.track (new.datesFrom start latest) target)
    (hpublish : publish stream timeline rows (some start) latest = .ok (stream', timeline')) :
    Records new new.snapshots.keys timeline'.events := by
  intro target
  rw [hrecords.publish_validOf (Table.keys_sorted _) h.old_le horder hpublish target, hrows target,
    h.track_eq target, ← History.track_append, h.keys_eq]

/-- A publication over a recorded timeline keeps the current rows of the targets that still have a
valid event. -/
theorem Records.publish_current_isSome {h : History F} {dates : List Date} {δ : Type}
    {stream stream' : AnalysisStream δ} {timeline timeline' : Timeline F} {start : Option Date}
    {through : Date} (hrecords : Records h dates timeline.events) (hdates : dates.Pairwise (· < ·))
    (hthrough : ∀ day ∈ dates, day ≤ through) {rows : List (StateRow F)} (horder : InDateOrder rows)
    (hpublish : Apanel.publish stream timeline rows start through = .ok (stream', timeline'))
    {target : Target F} (hvalid : validOf timeline'.events target ≠ [])
    (hcurrent : (timeline.current.get? target).isSome) :
    (timeline'.current.get? target).isSome := by
  rw [hrecords.publish_current hdates horder hpublish, Option.isSome_or, Bool.or_eq_true]
  cases start with
  | some start => exact .inr hcurrent
  | none =>
    left
    have hnone : datesBefore dates none = [] := List.filter_eq_nil_iff.mpr fun _ _ => nofun
    rw [hrecords.publish_validOf hdates hthrough horder hpublish, hnone] at hvalid
    rw [hnone]
    have hne : observationsOf rows target ≠ [] := fun hnil => by
      rw [hnil] at hvalid
      exact hvalid rfl
    obtain ⟨entry, hentry⟩ := timelineRecorder.exists_final_of_ne_nil none hne
    have hrows : rows.filter (·.target = target) ≠ [] := fun hnil =>
      hne (congrArg (List.map StateRow.observation) hnil)
    obtain ⟨row, hrow⟩ := Option.ne_none_iff_exists'.mp (mt List.getLast?_eq_none_iff.mp hrows)
    rw [hrow]
    change (Option.map _ (timelineRecorder.final none (observationsOf rows target))).isSome
    rw [hentry]
    rfl

omit [DecidableEq R] in
/-- What the rebuild of a recorded timeline replaces it by. -/
theorem Intact.rebuild {calendar₀ calendar : Calendar} {s : TrackedSeries F R}
    (hs : Intact calendar₀ s) {forceHistory : Bool} {first latest : Date}
    (hlatest : latest ∈ s.series.store.bars.keys)
    (hstale : s.series.store.stream.stateThrough.all (· ≤ latest))
    (hcalendar : ∀ day ≤ latest, calendar.get? day = calendar₀.get? day)
    {effective : List (IndicatorRequest F)} {start : Option Date} {indicators states : ℕ}
    {store : AnalysisStore F}
    (hplan : planMaterialize s.series.store (demandKey effective) forceHistory first latest =
      .rebuild start)
    (hrebuild : rebuildSeries calendar s.series.store effective start latest =
      .ok (indicators, states, store))
    (hrecompute : recompute effective (s.series.store.bars.upTo latest) =
      .ok store.snapshots.variants)
    (hresumes : ∀ day, start = some day → ResumesAt s.series.store.timeline.events
      ⟨store.snapshots, s.series.store.bars, calendar⟩ day latest) :
    Records ⟨store.snapshots, s.series.store.bars.upTo latest, calendar₀⟩ store.snapshots.keys
        store.timeline.events ∧
      ∀ target, validOf store.timeline.events target ≠ [] →
        (s.series.store.timeline.current.get? target).isSome →
          (store.timeline.current.get? target).isSome := by
  obtain ⟨payloads, source, rows, persistFrom, stream, stream', hindicators, hpublishes, hpublish,
    -, -, -⟩ := rebuildSeries_eq_ok hrebuild
  have hthrough := hs.fresh.le_latest hstale
  have hpersistent : store.snapshots.Persistent := persistent_of_recompute hrecompute
  have hkeys (day : Date) (hday : day ∈ store.snapshots.keys) : day ≤ latest :=
    Table.le_of_mem_upTo_keys (mem_bars_of_recompute hrecompute hday)
  -- the pass reads the real calendar and the bars after `latest`, which it does not depend on
  let input := ({ s.series.store with snapshots := store.snapshots }).stateInput calendar
  let new : History F := ⟨store.snapshots, s.series.store.bars.upTo latest, calendar₀⟩
  have hagree : input.history.AgreeUpTo new latest :=
    { snapshots := fun _ _ => rfl
      bars := fun d hd => ((Table.get?_upTo ..).trans (if_pos hd)).symm
      calendar := hcalendar }
  have hcontinues (start' : Date) (hstart : start = some start') :
      Continues (s.history calendar₀) new start' latest :=
    { agree := fun day hday hle =>
        hs.fresh.agreeUpTo_of_rebuild (hstart ▸ hplan) (hstart ▸ hindicators) calendar₀ hday hle
      old_le := hthrough
      new_le := hkeys }
  have hnone : datesBefore s.series.store.snapshots.keys none = [] :=
    List.filter_eq_nil_iff.mpr fun _ _ => nofun
  suffices h : InDateOrder rows ∧ Records new store.snapshots.keys store.timeline.events from
    ⟨h.2, fun target =>
      hs.records.publish_current_isSome (Table.keys_sorted _) hthrough h.1 hpublish⟩
  cases hempty : payloads.rows.isEmpty with
  | true =>
    rw [hempty] at hpublishes
    obtain ⟨rfl, rfl⟩ := hpublishes.without rfl
    refine ⟨fun _ => .nil, fun target => ?_⟩
    rw [hs.records.publish_nil (Table.keys_sorted _) hthrough hpublish target]
    rcases hreached : start.all (· ≤ latest) with _ | _
    · obtain ⟨start', rfl, hlt⟩ : ∃ start', start = some start' ∧ latest < start' := by
        cases start with
        | none => cases hreached
        | some start' => exact ⟨start', rfl, by simpa using hreached⟩
      have hinvalid := (hresumes start' rfl).reached.resolve_left (by order)
      exact ((hcontinues start' rfl).log_eq_nil hs.records hlt hinvalid target).symm
    · rw [rebuildIndicators_keys_eq_nil hindicators hrecompute hlatest hreached hempty]
      rfl
  | false =>
    rw [hempty] at hpublishes
    have hobserved := hpublishes.observations rfl
    have hpersistFrom := hpublishes.persistFrom_eq rfl
    cases persistFrom with
    | none =>
      have hrows := StateInput.observations_full hagree hpersistent hobserved
      have hdates : (input.snapshots.upTo latest).keys = store.snapshots.keys :=
        eq_of_mem_iff (Table.keys_sorted _) (Table.keys_sorted _) fun day => by
          rw [Table.mem_keys_upTo]
          exact ⟨And.left, fun hday => ⟨hday, hkeys day hday⟩⟩
      rw [hrows, hdates] at hpublish
      refine ⟨hrows ▸ hdates ▸ new.observed_inDateOrder {} (Table.keys_sorted _), ?_⟩
      have hrecords := hs.records.publish (Table.keys_sorted _) hthrough (Table.keys_sorted _)
        (fun day hday => by rw [hnone] at hday; cases hday) hpublish
      rwa [hnone] at hrecords
    | some start' =>
      obtain ⟨hinitialized, rfl⟩ : s.series.store.stream.stateThrough.isSome ∧
          start = some start' := by
        split at hpersistFrom
        · cases hpersistFrom
        · rename_i hsome
          exact ⟨by simpa [Option.isSome_iff_ne_none] using hsome, hpersistFrom.symm⟩
      have hcont := hcontinues start' rfl
      have hinput : Continues (s.history calendar₀) input.history start' latest :=
        { agree := fun day hday hle =>
            { snapshots := (hcont.agree day hday hle).snapshots
              bars := fun d hd => ((hcont.agree day hday hle).bars d hd).trans
                (hagree.bars d (hd.trans hle)).symm
              calendar := fun d hd => (hcalendar d (hd.trans hle)).symm }
          old_le := hthrough
          new_le := hkeys }
      have hat : ResumesAt input.events input.history start' latest := hresumes start' rfl
      have hresume := hat.resumable hinput hs.records hs.fresh.persistent hpersistent hinitialized
      obtain ⟨horder, htrack⟩ := StateInput.track_resumed hpersistent hresume hat.kept hobserved
      refine ⟨horder, hcont.records hs.records horder (fun target => (htrack target).trans ?_)
        hpublish⟩
      exact History.track_congr (fun day hday =>
        (hagree.mono (History.mem_datesFrom.mp hday).2.2).rows_eq) target

/-! ## Runs -/

theorem rebuildSeries_stream {calendar : Calendar} {store store' : AnalysisStore F}
    {effective : List (IndicatorRequest F)} {start : Option Date} {latest : Date}
    {indicators states : ℕ}
    (h : rebuildSeries calendar store effective start latest = .ok (indicators, states, store')) :
    store'.stream.publishedRevision = store.stream.sourceRevision ∧
      store'.stream.publishedDemandGeneration = store'.stream.demandGeneration ∧
      store'.stream.demandKey = some (demandKey effective) := by
  obtain ⟨_, _, _, _, _, _, -, -, -, hsame, hstream, -⟩ := rebuildSeries_eq_ok h
  obtain ⟨_, _, _, rfl⟩ := hsame
  rw [hstream]
  exact ⟨rfl, rfl, rfl⟩

omit [DecidableEq F] in
/-- Where two histories agree, so do the logs recorded of them. -/
theorem Records.validOf_filter_eq {h h' : History F} {events events' : List (StateEvent F)}
    (hrecords : Records h h.snapshots.keys events) (hrecords' : Records h' h'.snapshots.keys events')
    {day : Date} (hagree : h.AgreeUpTo h' day) (target : Target F) :
    (validOf events target).filter (·.date ≤ day) =
      (validOf events' target).filter (·.date ≤ day) := by
  have hbelow (t t' : Date) (hlt : t < t') (ht : decide (t' ≤ day) = true) :
      decide (t ≤ day) = true := by simp only [decide_eq_true_eq] at ht ⊢; order
  have hfilter {g : History F} {log : List (StateEvent F)} (hg : Records g g.snapshots.keys log) :
      (validOf log target).filter (·.date ≤ day) =
        timelineRecorder.log none (g.track (g.snapshots.keys.filter (· ≤ day)) target) := by
    rw [hg target, ← History.track_filter]
    exact timelineRecorder.log_filter hbelow (g.track_sorted (Table.keys_sorted _) target) none
  have hkeys : h.snapshots.keys.filter (· ≤ day) = h'.snapshots.keys.filter (· ≤ day) := by
    refine eq_of_mem_iff ((Table.keys_sorted _).filter _) ((Table.keys_sorted _).filter _)
      fun d => ?_
    simp only [List.mem_filter, decide_eq_true_eq]
    exact and_congr_left fun hd => hagree.mem_keys hd
  rw [hfilter hrecords, hfilter hrecords', hkeys]
  refine congrArg _ (History.track_congr (fun d hd => ?_) target)
  have hle : d ≤ day := by simpa using (List.mem_filter.mp hd).2
  exact (hagree.mono hle).rows_eq

omit [DecidableEq R] in
/-- Two publications for the same demand agree as long as their bars do. -/
theorem Fresh.agreeUpTo {published published' : Bars} {s s' : Series F R}
    (hs : Fresh published s) (hs' : Fresh published' s')
    (hpub : 0 ≤ s.store.stream.publishedRevision) (hpub' : 0 ≤ s'.store.stream.publishedRevision)
    (hkey : s.store.stream.demandKey = s'.store.stream.demandKey) {day : Date}
    (hbars : ∀ d ≤ day, published.get? d = published'.get? d) (calendar₀ : Calendar) :
    History.AgreeUpTo ⟨s.store.snapshots, published, calendar₀⟩
      ⟨s'.store.snapshots, published', calendar₀⟩ day where
  snapshots d hd := by
    obtain ⟨effective, through, hp⟩ := hs.published hpub
    obtain ⟨effective', through', hp'⟩ := hs'.published hpub'
    obtain ⟨requests, rfl⟩ := hp.merged
    obtain ⟨requests', rfl⟩ := hp'.merged
    rw [hp.demandKey, hp'.demandKey] at hkey
    have heq := mergeIndicatorRequests_eq_of_demandKey_eq (Option.some.inj hkey)
    have hrecomputed := recompute_before hp.calculable (heq ▸ hp'.calculable) hp.recomputed
      (heq ▸ hp'.recomputed) (fun d' hd' => hbars d' (Int.lt_add_one_iff.mp hd'))
      (Int.lt_add_one_iff.mpr hd)
    simpa only [Snapshots.get?_variants] using hrecomputed
  bars := hbars
  calendar _ _ := rfl

omit [DecidableEq F] [DecidableEq R] in
theorem Preserves.of_timeline_eq {published : Bars} {s s' : Series F R}
    (h : s'.store.timeline = s.store.timeline) : Preserves published s s' where
  events _ event hevent hvalid _ := ⟨event, h ▸ hevent, hvalid, rfl, rfl⟩
  current _ _ _ _ _ hcurrent := h ▸ hcurrent

omit [DecidableEq F] in
/-- A valid event of an unchanged date is an event of the new timeline. -/
theorem Records.mem_validOf {h h' : History F} {events events' : List (StateEvent F)}
    (hrecords : Records h h.snapshots.keys events) (hrecords' : Records h' h'.snapshots.keys events')
    {event : StateEvent F} (hevent : event ∈ events) (hvalid : event.valid)
    (hagree : h.AgreeUpTo h' event.tradeDate) :
    event.event ∈ validOf events' event.target := by
  have hmem : event.event ∈ validOf events event.target :=
    List.mem_map_of_mem (List.mem_filter.mpr ⟨hevent, by simp [hvalid]⟩)
  have hfilter : event.event ∈
      (validOf events event.target).filter (·.date ≤ event.tradeDate) :=
    List.mem_filter.mpr ⟨hmem, decide_eq_true le_rfl⟩
  rw [hrecords.validOf_filter_eq hrecords' hagree] at hfilter
  exact (List.mem_filter.mp hfilter).1

/-- Every admissible transaction keeps the invariant, and what was published of unchanged dates. -/
theorem Intact.step {calendar₀ : Calendar} {s : TrackedSeries F R} (hs : Intact calendar₀ s)
    (a : SeriesAction F R) (ha : preservingStep calendar₀ s a) :
    Intact calendar₀ (s.step a) ∧ Preserves s.published s.series (s.series.step a) := by
  obtain ⟨hcalc, ha⟩ := ha
  cases a with
  | upsert records revision =>
    simp only [TrackedSeries.step, Series.step]
    split
    · exact ⟨hs, .of_timeline_eq rfl⟩
    · exact ⟨⟨hs.fresh.withFacts (s.series.facts.applyUpsert_factsChange records revision),
        hs.records⟩, .of_timeline_eq rfl⟩
  | reconcile records coverageStart coverageEnd revision =>
    simp only [TrackedSeries.step, Series.step]
    split
    · next h =>
      exact ⟨⟨hs.fresh.withFacts (s.series.facts.applyReconcile_factsChange h revision),
        hs.records⟩, .of_timeline_eq rfl⟩
    · exact ⟨hs, .of_timeline_eq rfl⟩
  | configure demanded => exact ⟨⟨hs.fresh.configure demanded, hs.records⟩, .of_timeline_eq rfl⟩
  | materialize calendar withDemand cutoff forceHistory =>
    simp only [TrackedSeries.step, Series.step]
    split
    · next error herror =>
      simp only [herror]
      exact ⟨hs, .of_timeline_eq rfl⟩
    next result store hok =>
    simp only [hok]
    have hfresh := hs.fresh.materialize hcalc hok
    obtain ⟨first, latest, hfirst, hlatest, hstale, hplan⟩ := Series.materialize_eq_ok hok
    have hwindow := Table.window_eq_upTo hlatest
    obtain ⟨hplan, rfl⟩ | ⟨start, indicators, states, hplan, hrebuild⟩ := hplan
    · obtain ⟨-, hpub, hclean⟩ := planMaterialize_upToDate hplan
      have hbars := hwindow.trans (hs.fresh.upTo_eq hclean hpub hstale)
      refine ⟨⟨hfresh, ?_⟩, .of_timeline_eq rfl⟩
      have hrecords := hs.records
      simp only [TrackedSeries.history, ← hbars] at hrecords
      exact hrecords
    · obtain ⟨hpub, hgeneration, hkey⟩ := rebuildSeries_stream hrebuild
      obtain ⟨effective, _, hp⟩ := hfresh.published (hpub ▸ hs.fresh.revision)
      have hrecompute := hp.demanded hgeneration ▸ hp.recomputed
      obtain ⟨hcalendar, hresumes⟩ := ha first latest hfirst hlatest hstale
      have hmem := (Table.mem_keys_window.mp (Table.mem_keys_of_maxKey? hlatest)).1
      obtain ⟨hrecords, hcurrent⟩ := hs.rebuild hmem hstale hcalendar hplan hrebuild
        (hwindow ▸ hrecompute)
        fun day hday => hresumes day (hday ▸ hplan) store.snapshots hrecompute
      rw [← hwindow] at hrecords
      have hkept : s.series.store.stream.demandKey =
          some (demandKey (mergeIndicatorRequests s.series.demanded)) →
          ∀ event ∈ s.series.store.timeline.events, event.valid →
            UnchangedThrough s.published s.series event.tradeDate →
              event.event ∈ validOf store.timeline.events event.target := by
        intro hdemand event hevent hvalid hunchanged
        have hdate := (hs.records.observed hevent hvalid).1
        have hpublished : 0 ≤ s.series.store.stream.publishedRevision := by
          by_contra hneg
          rw [(hs.fresh.unpublished (not_le.mp hneg)).2] at hdate
          cases hdate
        refine hs.records.mem_validOf hrecords hevent hvalid <|
          hs.fresh.agreeUpTo hfresh hpublished (hpub ▸ hs.fresh.revision) (hdemand.trans hkey.symm)
            (fun d hd => ?_) calendar₀
        have hle : d ≤ latest := hd.trans (hs.fresh.le_latest hstale _ hdate)
        rw [hwindow, Table.get?_upTo, if_pos hle, hunchanged d hd]
      refine ⟨⟨hfresh, hrecords⟩, fun hdemand event hevent hvalid hunchanged => ?_,
        fun hdemand event hevent hvalid hunchanged => hcurrent _ <|
          List.ne_nil_of_mem (hkept hdemand event hevent hvalid hunchanged)⟩
      obtain ⟨event', hevent', heq⟩ :=
        List.mem_map.mp (hkept hdemand event hevent hvalid hunchanged)
      obtain ⟨hmem', hmatch⟩ := List.mem_filter.mp hevent'
      obtain ⟨hvalid', htarget⟩ : event'.valid = true ∧ event'.target = event.target := by
        simpa using hmatch
      exact ⟨event', hmem', hvalid', htarget, heq⟩

/-- In a run whose materializations resume what was published, no transaction loses a valid event of
an unchanged date, or the current row of its target. -/
theorem published_preserved (calendar₀ : Calendar) (demanded : List (IndicatorRequest F))
    (actions : List (SeriesAction F R)) (action : SeriesAction F R)
    (h : Always TrackedSeries.step (preservingStep calendar₀) (.initial demanded)
      (actions ++ [action])) :
    let s := run TrackedSeries.step (.initial demanded) actions
    Preserves s.published s.series (s.series.step action) := by
  obtain ⟨hrun, haction, -⟩ := always_append.mp h
  have hstep (s : TrackedSeries F R) (a : SeriesAction F R) (hs : Intact calendar₀ s)
      (ha : preservingStep calendar₀ s a) : Intact calendar₀ (s.step a) := (hs.step a ha).1
  exact ((run_invariant hstep (Intact.initial calendar₀ demanded) hrun).step action haction).2

/-! ## A cutoff before the changes

Two days are published, then a third is appended. A materialization of the first two days starts at
the third: it recomputes nothing, and invalidates both days. -/

omit [DecidableEq F] in
/-- A rebuild of the latest bar alone resumes any timeline. -/
theorem ResumesAt.latest (events : List (StateEvent F)) (h : History F) (latest : Date) :
    ResumesAt events h latest latest where
  reached := .inl le_rfl
  kept day previousDate hlost := by
    obtain ⟨first, hfirst, hlt⟩ := hlost.later
    have hge := (History.mem_datesFrom.mp hfirst).2.1
    have hle := (History.mem_datesFrom.mp hlost.mem).2.2
    order
  known first hfirst _ seedDate hseed event _ _ hge hle := by
    have hlt := Calendar.previousOpenDate_lt hseed
    have hfirst := (History.mem_datesFrom.mp hfirst).2.2
    order

omit [DecidableEq R] [DecidableEq F] in
/-- A materialization that recomputes the whole history, or its latest bar alone, resumes what was
published. -/
theorem preservingStep_latest {calendar₀ : Calendar} {s : TrackedSeries F R} {withDemand : Bool}
    {cutoff : Option Date} {forceHistory : Bool}
    (hcalc : calculableStep s.series (.materialize calendar₀ withDemand cutoff forceHistory))
    (hplan : ∀ first ∈ (s.series.store.bars.window none cutoff).minKey?,
      ∀ latest ∈ (s.series.store.bars.window none cutoff).maxKey?,
        planMaterialize s.series.store (demandKey (mergeIndicatorRequests s.series.demanded))
          forceHistory first latest ∈ [.upToDate, .rebuild none, .rebuild (some latest)]) :
    preservingStep calendar₀ s (.materialize calendar₀ withDemand cutoff forceHistory) := by
  refine ⟨hcalc, fun first latest hfirst hlatest _ => ⟨fun _ _ => rfl, fun start hstart _ _ => ?_⟩⟩
  have hmem := hplan first hfirst latest hlatest
  rw [hstart] at hmem
  obtain rfl : start = latest := by simpa using hmem
  exact .latest ..

def openCalendar : Calendar := Table.ofList [(1, .opened), (2, .opened), (3, .opened)]

def thirdDayRun : List (SeriesAction Ranged Unit) :=
  [.upsert (Table.ofList [(1, flatBar 10), (2, flatBar 12)]) none,
   .materialize openCalendar false none false,
   .upsert (Table.ofList [(3, flatBar 11)]) none]

theorem published_preserved_thirdDay :
    let s := run TrackedSeries.step (.initial [bollRequest 2]) thirdDayRun
    Preserves s.published s.series
      (s.series.step (.materialize openCalendar false none false)) :=
  published_preserved openCalendar [bollRequest 2] thirdDayRun _
    ⟨⟨trivial, trivial⟩, preservingStep_latest (by decide +kernel) (by decide +kernel),
      ⟨trivial, trivial⟩, preservingStep_latest (by decide +kernel) (by decide +kernel), trivial⟩

theorem not_preserves_secondDay :
    let s := run TrackedSeries.step (.initial [bollRequest 2]) thirdDayRun
    ¬Preserves s.published s.series
      (s.series.step (.materialize openCalendar false (some 2) false)) := by
  intro s h
  have hdemand : s.series.store.stream.demandKey =
      some (demandKey (mergeIndicatorRequests s.series.demanded)) := by decide +kernel
  have hpublished : s.published = s.series.store.bars.upTo 2 := by decide +kernel
  have hevents : s.series.store.timeline.events.any fun event =>
      event.valid && event.tradeDate = 2 := by decide +kernel
  have hwiped : (s.series.step (.materialize openCalendar false (some 2) false)).store.timeline.events.all
      fun event => !event.valid := by decide +kernel
  obtain ⟨event, hevent, hmatch⟩ := List.any_eq_true.mp hevents
  obtain ⟨hvalid, hdate⟩ : event.valid = true ∧ event.tradeDate = 2 := by simpa using hmatch
  have hunchanged : UnchangedThrough s.published s.series event.tradeDate := fun d hd => by
    rw [hpublished, Table.get?_upTo, if_pos (hdate ▸ hd)]
  obtain ⟨event', hevent', hvalid', -⟩ := h.events hdemand event hevent hvalid hunchanged
  simpa [hvalid'] using List.all_eq_true.mp hwiped event' hevent'

end Apanel
