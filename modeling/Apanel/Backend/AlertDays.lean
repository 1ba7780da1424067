import Apanel.Backend.AlertCatchUp
import Apanel.Backend.EventPages
import Apanel.Backend.Restatement

/-!
# Evaluations on days of publication

A series that publishes one day after another, nothing before a day being dirty when the next one is
published, extends its tables (`PublishesDay.extends`). On such days a rule may be evaluated daily
or now and then: it sends for the same dates (`catchUp_eq_daily`).
-/

namespace Apanel

section Days

variable {F R : Type} [Arith F] [DecidableEq F] [LinearOrder (IndicatorRequest F)]
  [LinearOrder (Target F)] [DecidableEq R]

/-! ## The publication of a rebuild -/

omit [Arith F] in
theorem publish_published {store : AnalysisStore F} (call : PublishCall F)
    {stream : AnalysisStream (DemandKey F)} {timeline : Timeline F}
    (hrevision : call.sourceRevision = store.stream.sourceRevision)
    (h : publish store.stream store.timeline call.observations call.start call.through =
      .ok (stream, timeline)) :
    store.published.publish call =
      .ok ⟨timeline, stream.eventSequence, stream.stateGeneration⟩ := by
  simp only [publish] at h
  split at h
  · cases h
  · next hstale =>
    obtain ⟨rfl, rfl⟩ := Prod.mk.inj (Except.ok.inj h)
    simp only [PublishedStream.publish, publish, AnalysisStore.published, PublishedStream.row,
      if_neg hstale, hrevision]
    rfl

/-- The states of a rebuild are one call of `publish`. -/
theorem publishStates_published {calendar : Calendar} {store store' : AnalysisStore F}
    {hasIndicators : Bool} {start : Option Date} {latest : Date} {states : ℕ}
    (h : publishStates calendar store hasIndicators start latest = .ok (states, store')) :
    ∃ rows persistFrom,
      Publishes calendar store hasIndicators start latest rows persistFrom ∧
      store.published.publish ⟨store.stream.sourceRevision, rows, persistFrom, latest⟩ =
        .ok store'.published := by
  cases hasIndicators with
  | false =>
    simp only [publishStates, Bool.false_eq_true, ↓reduceIte] at h
    split at h
    · cases h
    next stream timeline hpublish =>
    obtain ⟨-, rfl⟩ := Prod.mk.inj (Except.ok.inj h)
    exact ⟨[], none, ⟨fun _ => ⟨rfl, rfl⟩, fun h => Bool.noConfusion h, fun h => Bool.noConfusion h⟩,
      publish_published _ rfl hpublish⟩
  | true =>
    simp only [publishStates, ↓reduceIte, rebuildStates] at h
    split at h
    · cases h
    next rows hrows =>
    split at h
    · cases h
    next stream timeline hpublish =>
    obtain ⟨-, rfl⟩ := Prod.mk.inj (Except.ok.inj h)
    have hpublished := publish_published ⟨store.stream.sourceRevision, rows,
      if store.stream.stateThrough.isNone then none else start, latest⟩ rfl hpublish
    exact ⟨rows, _, ⟨fun h => Bool.noConfusion h, fun _ => rfl, fun _ => hrows⟩, hpublished⟩

theorem rebuildSeries_published {calendar : Calendar} {store store' : AnalysisStore F}
    {effective : List (IndicatorRequest F)} {start : Option Date} {latest : Date}
    {indicators states : ℕ}
    (h : rebuildSeries calendar store effective start latest = .ok (indicators, states, store')) :
    ∃ payloads source rows persistFrom,
      rebuildIndicators store.snapshots store.bars effective start (some latest) source =
        .ok (payloads, store'.snapshots) ∧
      Publishes calendar { store with snapshots := store'.snapshots } (!payloads.rows.isEmpty) start
        latest rows persistFrom ∧
      store.published.publish ⟨store.stream.sourceRevision, rows, persistFrom, latest⟩ =
        .ok store'.published := by
  simp only [rebuildSeries] at h
  split at h
  · cases h
  next payloads snapshots hindicators =>
  split at h
  · cases h
  next states' store'' hstates =>
  obtain ⟨-, h⟩ := Prod.mk.inj (Except.ok.inj h)
  obtain ⟨-, rfl⟩ := Prod.mk.inj h
  obtain ⟨rows, persistFrom, hrows, hpublish⟩ := publishStates_published hstates
  obtain ⟨_, _, _, _, -, -, -, hstore⟩ := publishStates_eq_ok hstates
  have hsnapshots : store''.snapshots = snapshots := by rw [hstore]
  rw [← hsnapshots] at hindicators hrows
  exact ⟨payloads, _, rows, persistFrom, hindicators, hrows, hpublish⟩

omit [Arith F] [LinearOrder (IndicatorRequest F)] in
/-- A call that starts after the valid events appends to the timeline. -/
theorem PublishedStream.publish_appends {s s' : PublishedStream F} {call : PublishCall F}
    {start : Date} (h : s.publish call = .ok s') (hstart : call.start = some start)
    (hold : ∀ event ∈ s.timeline.events, event.valid → event.tradeDate < start)
    (hrows : ∀ row ∈ call.observations, start ≤ row.tradeDate) :
    s.eventSequence ≤ s'.eventSequence ∧
      ∃ new, s'.timeline.events = s.timeline.events ++ new ∧
        ∀ event ∈ new, start ≤ event.tradeDate ∧ s.eventSequence < event.streamSeq := by
  obtain ⟨-, rfl⟩ := publish_eq_ok.mp h
  dsimp only
  split
  · exact ⟨le_rfl, [], (List.append_nil _).symm, fun _ hevent => absurd hevent List.not_mem_nil⟩
  · refine ⟨Int.le_add_of_nonneg_right (Int.natCast_nonneg _), insertedEvents s.eventSequence
      s.timeline.previousThrough (s.folded call).events, ?_, fun event hevent => ?_⟩
    · rw [replaceEvents_eq]
      congr 1
      refine (List.map_congr_left fun event hevent => ?_).trans (List.map_id _)
      rw [replaces, hstart, Option.all_some, if_neg, id_eq]
      simp only [Bool.and_eq_true, decide_eq_true_eq, not_and, not_le]
      exact fun hvalid => hold event hevent hvalid.1
    · refine ⟨?_, (of_mem_insertedEvents hevent).2.1⟩
      have hslots := insertedEvents_map s.eventSequence s.timeline.previousThrough
        (s.folded call).events fun signature => (signature.tradeDate, signature.target)
      have hsublist : ((insertedEvents s.eventSequence s.timeline.previousThrough
          (s.folded call).events).map fun event => (event.tradeDate, event.target)).Sublist
            ((orderedObservations call.observations).map fun row => (row.tradeDate, row.target)) :=
        hslots.symm ▸ recorded_slots ..
      obtain ⟨row, hrow, heq⟩ := List.mem_map.mp (hsublist.subset (List.mem_map_of_mem hevent))
      rw [← (Prod.mk.inj heq).1]
      exact hrows row (mem_orderedObservations.mp hrow)

omit [DecidableEq F] [LinearOrder (Target F)] in
/-- A rebuild that starts after the snapshots appends to them. -/
theorem rebuildIndicators_appends {snapshots snapshots' : Snapshots F} {bars : Bars}
    {requests : List (IndicatorRequest F)} {start latest day : Date}
    {source : Option SourceMarker} {payloads : Table Date (Variants F)}
    (h : rebuildIndicators snapshots bars requests (some start) (some latest) source =
      .ok (payloads, snapshots')) (hold : ∀ row ∈ snapshots.rows, row.1 ≤ day) (hlt : day < start) :
    ∃ new, snapshots'.rows = snapshots.rows ++ new ∧ ∀ row ∈ new, day < row.1 := by
  obtain ⟨_, -, -, hget⟩ := rebuildIndicators_eq_ok h
  have hupTo : snapshots'.upTo day = snapshots := by
    refine Table.ext_get? fun d => ?_
    rw [Table.get?_upTo, hget, Option.all_some]
    by_cases hd : d ≤ day
    · rw [if_pos hd, if_neg fun hrange => (of_decide_eq_true hrange.2).not_gt (hd.trans_lt hlt)]
    · rw [if_neg hd, Eq.comm, Option.eq_none_iff_forall_ne_some]
      exact fun row hrow => hd (hold _ (Table.get?_eq_some.mp hrow))
  refine ⟨_, hupTo ▸ snapshots'.rows_eq_upTo_append day, fun row hrow => ?_⟩
  simpa using (List.mem_filter.mp hrow).2

/-- A rebuild that starts after a day, and writes a snapshot, extends the tables from there. -/
theorem rebuildSeries_extends {calendar : Calendar} {store store' : AnalysisStore F}
    {effective : List (IndicatorRequest F)} {start latest day : Date} {indicators states : ℕ}
    (h : rebuildSeries calendar store effective (some start) latest =
      .ok (indicators, states, store')) (hthrough : store.stream.stateThrough.isSome)
    (hevents : ∀ event ∈ store.timeline.events, event.valid → event.tradeDate ≤ day)
    (hsnapshots : ∀ row ∈ store.snapshots.rows, row.1 ≤ day) (hlt : day < start)
    (hlater : day < latest) (hcomputed : (store'.snapshots.get? latest).isSome) :
    store.Extends store' day := by
  obtain ⟨payloads, source, rows, persistFrom, hindicators, hpublishes, hpublish⟩ :=
    rebuildSeries_published h
  obtain ⟨variants, -, rfl, hget⟩ := rebuildIndicators_eq_ok hindicators
  -- the snapshot of the latest day is one that the rebuild writes
  have hnonempty : (!(variants.window (some start) none).rows.isEmpty) = true := by
    obtain ⟨row, hrow⟩ := Option.isSome_iff_exists.mp hcomputed
    rw [hget] at hrow
    split at hrow
    · next hrange =>
      obtain ⟨row, hrow, -⟩ := Option.map_eq_some_iff.mp hrow
      have hmem : (variants.window (some start) none).get? latest = some row := by
        rw [Table.get?_window, if_pos ⟨hrange.2, rfl⟩]
        exact hrow
      have hne := List.ne_nil_of_mem (Table.get?_eq_some.mp hmem)
      simpa using hne
    · exact absurd (hsnapshots _ (Table.get?_eq_some.mp hrow)) hlater.not_ge
  have hpersistFrom : persistFrom = some start := by
    have hsome : ¬ store.stream.stateThrough.isNone := by
      rw [Option.isNone_iff_eq_none]
      exact Option.isSome_iff_ne_none.mp hthrough
    exact (hpublishes.persistFrom_eq hnonempty).trans (if_neg hsome)
  have hstart : ∀ row ∈ rows, start ≤ row.tradeDate := by
    intro row hrow
    have hle := (hpublishes.produced 0).start_le row hrow
    dsimp only at hle
    rw [hpersistFrom, Option.all_some] at hle
    exact of_decide_eq_true hle
  have hbefore : ∀ event ∈ store.timeline.events, event.valid → event.tradeDate < start :=
    fun event hevent hvalid => (hevents event hevent hvalid).trans_lt hlt
  obtain ⟨hsequence, new, hnew, hafter⟩ :=
    PublishedStream.publish_appends hpublish hpersistFrom hbefore hstart
  exact ⟨⟨new, hnew, fun event hevent => ⟨hlt.trans_le (hafter event hevent).1,
    (hafter event hevent).2⟩⟩, hsequence, rebuildIndicators_appends hindicators hsnapshots hlt⟩

/-- A fact commit, which is neither a configuration nor a materialization. -/
def SeriesAction.IsCommit : SeriesAction F R → Prop
  | .upsert .. | .reconcile .. => True
  | .configure _ | .materialize .. => False

namespace Series

/-! ## Marks -/

/-- What the watermarks of a series say of its tables, in every run. -/
structure Marked (s : Series F R) : Prop where
  dated : s.store.Dated
  snapshots : ∀ row ∈ s.store.snapshots.rows, s.store.stream.stateThrough.any (row.1 ≤ ·)
  generation : s.store.stream.publishedDemandGeneration ≤ s.store.stream.demandGeneration
  published : s.store.stream.stateThrough.isSome → 0 ≤ s.store.stream.publishedRevision
  demanded : s.store.stream.stateThrough.isSome →
    s.store.stream.publishedDemandGeneration = s.store.stream.demandGeneration →
      s.store.stream.demandKey = some (demandKey (mergeIndicatorRequests s.demanded))
  revision : 0 ≤ s.store.stream.sourceRevision

omit [DecidableEq F] [DecidableEq R] in
theorem marked_initial (demanded : List (IndicatorRequest F)) :
    (Series.initial demanded : Series F R).Marked where
  dated := ⟨fun _ => .nil, fun _ hevent => absurd hevent List.not_mem_nil⟩
  snapshots _ hrow := absurd hrow List.not_mem_nil
  generation := show (-1 : ℤ) ≤ 0 by decide
  published h := absurd h Bool.false_ne_true
  demanded h := absurd h Bool.false_ne_true
  revision := le_rfl

omit [DecidableEq R] [DecidableEq F] in
theorem Marked.withFacts {s : Series F R} (h : s.Marked) {facts : SeriesFacts (DemandKey F) R}
    (hfacts : FactsChange s.facts facts) : (s.withFacts facts).Marked := by
  have hrevision := hfacts.revision
  obtain ⟨sourceRevision, dirtyFrom, latestBarDate, hstream⟩ := hfacts.stream
  have hstream : (s.withFacts facts).store.stream =
      { s.store.stream with sourceRevision, dirtyFrom, latestBarDate } := hstream
  constructor
  · exact h.dated.withFacts hfacts
  · rw [hstream]
    exact h.snapshots
  · rw [hstream]
    exact h.generation
  · rw [hstream]
    exact h.published
  · rw [hstream]
    exact h.demanded
  · exact h.revision.trans hrevision

omit [DecidableEq F] [DecidableEq R] in
/-- A rebuild leaves no snapshot after the day it publishes. -/
theorem Marked.snapshots_rebuild {s : Series F R} (h : s.Marked) {start : Option Date}
    {latest : Date} {bars : Bars} {effective : List (IndicatorRequest F)}
    {source : Option SourceMarker} {payloads : Table Date (Variants F)} {snapshots : Snapshots F}
    (hstale : s.store.stream.stateThrough.all (· ≤ latest))
    (hrebuild : rebuildIndicators s.store.snapshots bars effective start (some latest) source =
      .ok (payloads, snapshots)) :
    ∀ row ∈ snapshots.rows, row.1 ≤ latest := by
  obtain ⟨_, -, -, hget⟩ := rebuildIndicators_eq_ok hrebuild
  intro row hrow
  have hrow := Table.get?_eq_some.mpr hrow
  rw [hget] at hrow
  split at hrow
  · next hrange => exact hrange.1
  · have hold := h.snapshots row (Table.get?_eq_some.mp hrow)
    cases hthrough : s.store.stream.stateThrough with
    | none =>
      rw [hthrough] at hold
      cases hold
    | some through =>
      rw [hthrough, Option.any_some, decide_eq_true_eq] at hold
      rw [hthrough, Option.all_some, decide_eq_true_eq] at hstale
      exact hold.trans hstale

theorem Marked.materialize {s : Series F R} (h : s.Marked) {calendar : Calendar}
    {withDemand : Bool} {cutoff : Option Date} {forceHistory : Bool} {result : AnalysisResult}
    {store : AnalysisStore F}
    (hok : s.materialize calendar withDemand cutoff forceHistory = .ok (result, store)) :
    ({ s with store } : Series F R).Marked := by
  have hdated := dated_step h.dated (.materialize calendar withDemand cutoff forceHistory)
  rw [Series.step, hok] at hdated
  obtain ⟨first, latest, -, -, hstale, hplan⟩ := Series.materialize_eq_ok hok
  obtain ⟨hplan, rfl⟩ | ⟨start, indicators, states, -, hrebuild⟩ := hplan
  · obtain ⟨hkey, -, -⟩ := planMaterialize_upToDate hplan
    exact ⟨hdated, h.snapshots, le_rfl, h.published, fun _ _ => hkey, h.revision⟩
  · obtain ⟨payloads, source, rows, persistFrom, stream, stream', hindicators, -, -, hsame, hstream,
      -⟩ := rebuildSeries_eq_ok hrebuild
    obtain ⟨stateGeneration, eventSequence, stateThrough, rfl⟩ := hsame
    have hsnapshots := h.snapshots_rebuild hstale hindicators
    constructor
    · exact hdated
    · dsimp only
      rw [hstream]
      exact fun row hrow => decide_eq_true (hsnapshots row hrow)
    · dsimp only
      rw [hstream]
      exact le_rfl
    · dsimp only
      rw [hstream]
      exact fun _ => h.revision
    · dsimp only
      rw [hstream]
      exact fun _ _ => rfl
    · dsimp only
      rw [hstream]
      exact h.revision

theorem Marked.step {s : Series F R} (h : s.Marked) (action : SeriesAction F R) :
    (s.step action).Marked := by
  cases action with
  | upsert records revision =>
    rw [Series.step]
    split
    · exact h
    · exact h.withFacts (SeriesFacts.applyUpsert_factsChange _ _ _)
  | reconcile records coverageStart coverageEnd revision =>
    rw [Series.step]
    split
    · next hcovers => exact h.withFacts (SeriesFacts.applyReconcile_factsChange _ hcovers _)
    · exact h
  | configure demanded =>
    refine ⟨⟨h.dated.timeline, h.dated.through⟩, h.snapshots, ?_, h.published, ?_, h.revision⟩
    · exact h.generation.trans (Int.le_add_one le_rfl)
    · intro _ hgeneration
      have hle := h.generation
      simp only [Series.step, AnalysisStream.markDemandChanged] at hgeneration
      omega
  | materialize calendar withDemand cutoff forceHistory =>
    rw [Series.step]
    cases hok : s.materialize calendar withDemand cutoff forceHistory with
    | error => exact h
    | ok result => exact h.materialize hok

theorem marked_run (demanded : List (IndicatorRequest F)) (actions : List (SeriesAction F R)) :
    (run Series.step (Series.initial demanded) actions).Marked :=
  run_preserves Marked (fun _ action hs => hs.step action) (marked_initial demanded) actions

omit [DecidableEq F] [DecidableEq R] in
/-- A current publication publishes the demand and the revision of its series. -/
theorem Marked.current {s : Series F R} (h : s.Marked) {day : Date}
    (hcurrent : s.store.stream.publicationIsCurrent)
    (hthrough : s.store.stream.stateThrough = some day) :
    s.store.PublishedThrough day ∧ 0 ≤ s.store.stream.publishedRevision ∧
      s.store.stream.dirtyFrom = none ∧
      s.store.stream.demandKey = some (demandKey (mergeIndicatorRequests s.demanded)) := by
  have hsome : s.store.stream.stateThrough.isSome := by rw [hthrough]; rfl
  have hpublished := h.published hsome
  have hcurrent' := hcurrent
  rw [AnalysisStream.publicationIsCurrent, if_neg fun hnever => hnever.2.not_ge hpublished]
    at hcurrent'
  simp only [Bool.and_eq_true, decide_eq_true_eq, Option.isNone_iff_eq_none] at hcurrent'
  obtain ⟨⟨hclean, -⟩, hgeneration⟩ := hcurrent'
  refine ⟨⟨h.dated.timeline, fun event hevent hvalid => ?_, fun row hrow => ?_, hcurrent, hthrough⟩,
    hpublished, hclean, h.demanded hsome hgeneration⟩
  · have hle := h.dated.through event hevent hvalid
    rw [hthrough] at hle
    exact of_decide_eq_true hle
  · have hle := h.snapshots row hrow
    rw [hthrough] at hle
    exact of_decide_eq_true hle

/-! ## Days -/

/-- Fact commits leave what a publication wrote. -/
structure SameButFacts (s s' : Series F R) : Prop where
  demanded : s'.demanded = s.demanded
  snapshots : s'.store.snapshots = s.store.snapshots
  timeline : s'.store.timeline = s.store.timeline
  stream : ∃ sourceRevision dirtyFrom latestBarDate, s'.store.stream =
    { s.store.stream with sourceRevision, dirtyFrom, latestBarDate }

omit [Arith F] [DecidableEq F] [DecidableEq R] in
theorem SameButFacts.refl (s : Series F R) : s.SameButFacts s := ⟨rfl, rfl, rfl, _, _, _, rfl⟩

omit [Arith F] [DecidableEq F] [DecidableEq R] in
theorem SameButFacts.trans {s s' s'' : Series F R} (h : s.SameButFacts s')
    (h' : s'.SameButFacts s'') : s.SameButFacts s'' := by
  obtain ⟨_, _, _, hstream⟩ := h.stream
  obtain ⟨sourceRevision, dirtyFrom, latestBarDate, hstream'⟩ := h'.stream
  refine ⟨h'.demanded.trans h.demanded, h'.snapshots.trans h.snapshots,
    h'.timeline.trans h.timeline, sourceRevision, dirtyFrom, latestBarDate, ?_⟩
  rw [hstream', hstream]

omit [Arith F] [DecidableEq F] [DecidableEq R] in
theorem SameButFacts.withFacts {s : Series F R} {facts : SeriesFacts (DemandKey F) R}
    (h : FactsChange s.facts facts) : s.SameButFacts (s.withFacts facts) :=
  ⟨rfl, rfl, rfl, h.stream⟩

theorem SameButFacts.step (s : Series F R) {action : SeriesAction F R} (h : action.IsCommit) :
    s.SameButFacts (s.step action) := by
  cases action with
  | upsert records revision =>
    rw [Series.step]
    split
    · exact .refl s
    · exact .withFacts (SeriesFacts.applyUpsert_factsChange _ _ _)
  | reconcile records coverageStart coverageEnd revision =>
    rw [Series.step]
    split
    · next hcovers => exact .withFacts (SeriesFacts.applyReconcile_factsChange _ hcovers _)
    · exact .refl s
  | configure | materialize => exact h.elim

theorem SameButFacts.run (s : Series F R) {commits : List (SeriesAction F R)}
    (h : ∀ action ∈ commits, action.IsCommit) : s.SameButFacts (run Series.step s commits) := by
  induction commits generalizing s with
  | nil => exact .refl s
  | cons action commits ih =>
    obtain ⟨haction, hcommits⟩ := List.forall_mem_cons.mp h
    exact (SameButFacts.step s haction).trans (ih _ hcommits)

omit [DecidableEq F] [DecidableEq R] [Arith F] in
theorem SameButFacts.extends {s s' : Series F R} (h : s.SameButFacts s') {day : Date} :
    s.store.Extends s'.store day := by
  obtain ⟨_, _, _, hstream⟩ := h.stream
  have hrefl := AnalysisStore.Extends.refl s.store day
  refine ⟨?_, ?_, ?_⟩
  · rw [h.timeline]
    exact hrefl.events
  · rw [hstream]
  · rw [h.snapshots]
    exact hrefl.snapshots

/-- A later day is published after commits that leave the days already published alone. -/
structure PublishesDay (s : Series F R) (day : Date) (s' : Series F R) (day' : Date) : Prop where
  published : ∃ commits calendar withDemand cutoff, (∀ action ∈ commits, action.IsCommit) ∧
    (run Series.step s commits).store.stream.dirtyFrom.any (day < ·) ∧
    s' = (run Series.step s commits).step (.materialize calendar withDemand cutoff false)
  current : s'.store.stream.publicationIsCurrent
  through : s'.store.stream.stateThrough = some day'
  later : day < day'
  computed : (s'.store.snapshots.get? day').isSome

theorem PublishesDay.marked {s s' : Series F R} {day day' : Date} (h : s.PublishesDay day s' day')
    (hs : s.Marked) : s'.Marked := by
  obtain ⟨commits, calendar, withDemand, cutoff, -, -, rfl⟩ := h.published
  exact (run_preserves Marked (fun _ action hs => hs.step action) hs commits).step _

/-- The days before the next one keep their rows. -/
theorem PublishesDay.extends {s s' : Series F R} {day day' : Date} (h : s.PublishesDay day s' day')
    (hs : s.Marked) (hcurrent : s.store.stream.publicationIsCurrent)
    (hthrough : s.store.stream.stateThrough = some day) : s.store.Extends s'.store day := by
  have hclean := ((h.marked hs).current h.current h.through).2.2.1
  obtain ⟨hday, hpublished, -, hkey⟩ := hs.current hcurrent hthrough
  obtain ⟨commits, calendar, withDemand, cutoff, hcommits, hdirty, hs'⟩ := h.published
  have hsame := SameButFacts.run s hcommits
  generalize run Series.step s commits = m at hdirty hs' hsame
  obtain ⟨sourceRevision, dirtyFrom, latestBarDate, hstream⟩ := hsame.stream
  have hdirtyFrom : m.store.stream.dirtyFrom = dirtyFrom := by rw [hstream]
  rw [hdirtyFrom] at hdirty
  obtain ⟨start, rfl, hlt⟩ := Option.any_eq_true _ _ |>.mp hdirty
  rw [Series.step] at hs'
  cases hok : m.materialize calendar withDemand cutoff false with
  | error error =>
    rw [hok] at hs'
    rw [hs', hdirtyFrom] at hclean
    cases hclean
  | ok result =>
    obtain ⟨result, store⟩ := result
    rw [hok] at hs'
    have hstore : s'.store = store := by rw [hs']
    obtain ⟨first, latest, -, -, -, hplan⟩ := Series.materialize_eq_ok hok
    have hstart : planMaterialize m.store (demandKey (mergeIndicatorRequests m.demanded)) false
        first latest = .rebuild (some start) := by
      have hpublished' : ¬ m.store.stream.publishedRevision < 0 := by
        rw [hstream]
        exact not_lt.mpr hpublished
      have hkey' : m.store.stream.demandKey =
          some (demandKey (mergeIndicatorRequests m.demanded)) := by
        rw [hstream, hsame.demanded]
        exact hkey
      simp [planMaterialize, hkey', hpublished', hdirtyFrom]
    rw [hstart] at hplan
    obtain ⟨hplan, -⟩ | ⟨_, indicators, states, hplan, hrebuild⟩ := hplan
    · cases hplan
    · cases hplan
      obtain ⟨_, _, _, _, stream, _, -, -, -, -, hwatermarks, -⟩ := rebuildSeries_eq_ok hrebuild
      have hlatest : some latest = some day' := by
        rw [← h.through, hstore, hwatermarks]
        rfl
      cases hlatest
      have hsome : m.store.stream.stateThrough.isSome := by
        rw [hstream]
        exact Option.isSome_of_eq_some hthrough
      rw [hstore]
      refine hsame.extends.trans (rebuildSeries_extends hrebuild hsome ?_ ?_ (of_decide_eq_true hlt)
        h.later ?_) le_rfl
      · rw [hsame.timeline]
        exact hday.events
      · rw [hsame.snapshots]
        exact hday.snapshots
      · rw [← hstore]
        exact h.computed

end Series

/-! ## Evaluations -/

/-- A day with the series published through it. -/
def Published (day : Date × Series F R) : Prop :=
  day.2.Marked ∧ day.2.store.stream.publicationIsCurrent ∧
    day.2.store.stream.stateThrough = some day.1

theorem published_of_isChain {first : Date × Series F R} {days : List (Date × Series F R)}
    (hfirst : Published first)
    (h : (first :: days).IsChain fun a b => a.2.PublishesDay a.1 b.2 b.1) :
    ∀ day ∈ first :: days, Published day := by
  induction days generalizing first with
  | nil => exact List.forall_mem_singleton.mpr hfirst
  | cons day days ih =>
    obtain ⟨hday, hrest⟩ := List.isChain_cons_cons.mp h
    exact List.forall_mem_cons.mpr
      ⟨hfirst, ih ⟨hday.marked hfirst.1, hday.current, hday.through⟩ hrest⟩

/-- A rule that is evaluated at the end of days of publication sends for the same dates as if it
were evaluated on each of them. -/
theorem catchUp_eq_daily (demanded : List (IndicatorRequest F)) (actions : List (SeriesAction F R))
    {first last : Date × Series F R} {days evaluated : List (Date × Series F R)}
    {t : AlertTables F} {found : AlertInstance} {sources : Date → AlertSources F}
    (hrun : first.2 = run Series.step (Series.initial demanded) actions)
    (hcurrent : first.2.store.stream.publicationIsCurrent)
    (hthrough : first.2.store.stream.stateThrough = some first.1)
    (hdays : (first :: days).IsChain fun a b => a.2.PublishesDay a.1 b.2 b.1)
    (hsources : ∀ day ∈ first :: days, (sources day.1).storeOf t.rule = day.2.store)
    (h : t.CaughtUp found first.2.store first.1)
    (hevaluated : evaluated.Sublist days) (hlast : days.getLast? = some last)
    (hlast' : evaluated.getLast? = some last)
    (hmissed : t.rule.condition.missed last.2.store first.1 ≤ maxCatchupRows) :
    ∃ daily skipping,
      t.evaluateDays (days.map fun day => (day.1, sources day.1)) = .ok daily ∧
      t.evaluateDays (evaluated.map fun day => (day.1, sources day.1)) = .ok skipping ∧
      skipping.dates = daily.dates ∧
      daily.dates = t.dates ++ t.rule.condition.due found.status last.2.store first.1 := by
  have hmarked : first.2.Marked := hrun ▸ Series.marked_run demanded actions
  have hpublished := published_of_isChain ⟨hmarked, hcurrent, hthrough⟩ hdays
  set read : Date × Series F R → Date × AlertSources F := fun day => (day.1, sources day.1)
  have hfollows : ((first :: days).map read).IsChain
      (AlertTables.Follows t.rule.securityId t.rule.adjustType) := by
    refine (List.isChain_map read).mpr (hdays.imp_of_mem_imp fun a b ha hb hday => ?_)
    obtain ⟨hmarked, hcurrent, hthrough⟩ := hpublished a ha
    refine ⟨hday.later, ?_⟩
    change ((sources a.1).storeOf t.rule).Extends ((sources b.1).storeOf t.rule) a.1
    rw [hsources a ha, hsources b hb]
    exact hday.extends hmarked hcurrent hthrough
  have hthroughs : ∀ day ∈ (first :: days).map read,
      (day.2.storeOf t.rule).PublishedThrough day.1 := by
    refine List.forall_mem_map.mpr fun day hday => ?_
    obtain ⟨hmarked, hcurrent, hthrough⟩ := hpublished day hday
    change ((sources day.1).storeOf t.rule).PublishedThrough day.1
    rw [hsources day hday]
    exact (hmarked.current hcurrent hthrough).1
  have hfirst : (read first).2.storeOf t.rule = first.2.store := hsources first List.mem_cons_self
  have hstore : (read last).2.storeOf t.rule = last.2.store :=
    hsources last (List.mem_cons_of_mem _ (List.mem_of_getLast? hlast))
  have hcaughtUp : t.CaughtUp found ((read first).2.storeOf t.rule) (read first).1 := by
    rwa [hfirst]
  have hread : (days.map read).getLast? = some (read last) := by
    rw [List.getLast?_map, hlast, Option.map_some]
  have hread' : (evaluated.map read).getLast? = some (read last) := by
    rw [List.getLast?_map, hlast', Option.map_some]
  have heq := hcaughtUp.evaluateDays_sublist hfollows hthroughs (hevaluated.map read) hread hread'
    (by rwa [hstore])
  rwa [hstore] at heq

end Days

/-! ## A day is skipped

The middle band rises above 11 on the third day, on which the rule is not evaluated. -/

def publishedDay (s : Series Ranged Unit) (day : Date) (price : ℚ) : Series Ranged Unit :=
  (s.step (.upsert (Table.ofList [(day, flatBar price)]) none)).step
    (.materialize ∅ false none false)

def twoDays : List (SeriesAction Ranged Unit) :=
  [.upsert (Table.ofList [(1, flatBar 10), (2, flatBar 10)]) none, .materialize ∅ false none false]

def secondDay : Series Ranged Unit := run Series.step (Series.initial [bollRequest 2]) twoDays

def thirdDay : Series Ranged Unit := publishedDay secondDay 3 14

def fourthDay : Series Ranged Unit := publishedDay thirdDay 4 14

def middleRule : AlertTables Ranged where
  rule :=
    { securityId := 1
      adjustType := .none
      condition := .value (bollRequest 2) .middle (.operator .greaterThan) (Arith.ofRat 11)
      enabled := true
      ruleVersion := 1
      triggerSequence := 0 }
  instances := Table.ofList [(1, ⟨.reset, 0, 1, 0, some 2⟩)]
  notifications := []

theorem thirdDay_published : secondDay.PublishesDay 2 thirdDay 3 where
  published := ⟨[.upsert (Table.ofList [(3, flatBar 14)]) none], ∅, false, none,
    List.forall_mem_singleton.mpr trivial, by decide +kernel, rfl⟩
  current := by decide +kernel
  through := by decide +kernel
  later := by decide
  computed := by decide +kernel

theorem fourthDay_published : thirdDay.PublishesDay 3 fourthDay 4 where
  published := ⟨[.upsert (Table.ofList [(4, flatBar 14)]) none], ∅, false, none,
    List.forall_mem_singleton.mpr trivial, by decide +kernel, rfl⟩
  current := by decide +kernel
  through := by decide +kernel
  later := by decide
  computed := by decide +kernel

def daySources (day : Date) : AlertSources Ranged where
  store _ _ :=
    if day = 2 then secondDay.store else if day = 3 then thirdDay.store else fourthDay.store
  dividendYield _ := none

theorem middleRule_catchUp_eq_daily :
    ∃ daily skipping,
      middleRule.evaluateDays [(3, daySources 3), (4, daySources 4)] = .ok daily ∧
      middleRule.evaluateDays [(4, daySources 4)] = .ok skipping ∧
      skipping.dates = daily.dates ∧ daily.dates = [3] := by
  have hchain : ([(2, secondDay), (3, thirdDay), (4, fourthDay)] :
      List (Date × Series Ranged Unit)).IsChain fun a b => a.2.PublishesDay a.1 b.2 b.1 := by
    rw [List.isChain_cons_cons, List.isChain_cons_cons]
    dsimp only
    refine ⟨?_, ?_, .singleton _⟩
    · exact thirdDay_published
    · exact fourthDay_published
  have hsources : ∀ day ∈ ([(2, secondDay), (3, thirdDay), (4, fourthDay)] :
      List (Date × Series Ranged Unit)),
      (daySources day.1).storeOf middleRule.rule = day.2.store := by
    simp [AlertSources.storeOf, daySources]
  have hdays := @catchUp_eq_daily Ranged Unit _ _ _ _ _ [bollRequest 2] twoDays (2, secondDay)
    (4, fourthDay) [(3, thirdDay), (4, fourthDay)] [(4, fourthDay)] middleRule
    ⟨.reset, 0, 1, 0, some 2⟩ daySources (by rw [secondDay]) (by decide +kernel) (by decide +kernel)
    hchain hsources ⟨rfl, rfl, rfl, rfl, rfl, fun _ h => nomatch h⟩
    ((List.Sublist.refl _).cons _) rfl rfl (by decide +kernel)
  have hdue : middleRule.dates ++ middleRule.rule.condition.due .reset fourthDay.store 2 = [3] := by
    decide +kernel
  rw [hdue] at hdays
  exact hdays

end Apanel
