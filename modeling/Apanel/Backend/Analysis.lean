import Apanel.Backend.StateService
import Apanel.Hub.Repository
import Apanel.Library.Transition

/-!
# Analysis publication

`AnalysisService.materialize` (`app/services/analysis_service.py`): one transaction, under the lock
of the stream row, publishes indicator snapshots, state events and the stream's watermarks. An error
rolls the transaction back.
-/

namespace Apanel

abbrev DemandKey (F : Type) := List (IndicatorRequest F)

/-- The tables of one price series. -/
structure AnalysisStore (F : Type) [LinearOrder (IndicatorRequest F)] [LinearOrder (Target F)] where
  bars : Bars
  stream : AnalysisStream (DemandKey F)
  snapshots : Snapshots F
  timeline : Timeline F

structure AnalysisResult where
  indicators : ℕ
  states : ℕ
  through : Date
  sourceRevision : ℤ
  rebuilt : Bool
  deriving DecidableEq

section Materialize

variable {F : Type} [Arith F] [DecidableEq F] [LinearOrder (IndicatorRequest F)]
  [LinearOrder (Target F)]

def AnalysisStore.stateInput (store : AnalysisStore F) (calendar : Calendar) : StateInput F :=
  { snapshots := store.snapshots, bars := store.bars, calendar
    stateThrough := store.stream.stateThrough, events := store.timeline.events }

/-- The number of snapshot rows, one for each date and indicator type. -/
def countSnapshots (payloads : Table Date (Variants F)) : ℕ :=
  (payloads.rows.map fun row => (row.2.keys.map (·.indicatorType)).dedup.length).sum

/-- `StateService.rebuild_history`: the first publication establishes an entire timeline, even if
the caller requested a later start. -/
def rebuildStates (calendar : Calendar) (store : AnalysisStore F) (start : Option Date)
    (last : Date) : Except ApiError (ℕ × AnalysisStore F) :=
  let persistFrom := if store.stream.stateThrough.isNone then none else start
  match (store.stateInput calendar).observations {} persistFrom (some last) none with
  | .error error => .error error
  | .ok rows =>
    match publish store.stream store.timeline rows persistFrom last with
    | .error error => .error error
    | .ok (stream, timeline) =>
      let stateThrough := max (stream.stateThrough.getD last) last
      .ok (rows.length, { store with stream := { stream with stateThrough }, timeline })

/-- What `materialize` does after the lock: nothing, or a rebuild of the series from a date. -/
inductive Plan
  | upToDate
  | rebuild (start : Option Date)
  deriving DecidableEq

/-- The choice of the incremental start. -/
def planMaterialize (store : AnalysisStore F) (key : DemandKey F) (forceHistory : Bool)
    (first latest : Date) : Plan :=
  let stream := store.stream
  let changedDemand : Bool := stream.demandKey ≠ some key
  if forceHistory || changedDemand || stream.publishedRevision < 0 then .rebuild none
  else match stream.dirtyFrom with
    | some dirtyFrom => .rebuild (some dirtyFrom)
    | none =>
      let through := min (stream.indicatorThrough.getD first) (stream.stateThrough.getD first)
      if latest ≤ through ∧ stream.publishedRevision = stream.sourceRevision then .upToDate
      else
        let next := ((store.bars.upTo latest).filter (through < ·)).minKey?
        .rebuild (some (next.getD first))

/-- The watermarks written with a publication through `latest`. -/
def publishWatermarks (stream : AnalysisStream (DemandKey F)) (key : DemandKey F) (latest : Date) :
    AnalysisStream (DemandKey F) :=
  let latestBarDate := max (stream.latestBarDate.getD latest) latest
  { stream with
    demandKey := some key
    publishedRevision := stream.sourceRevision
    publishedDemandGeneration := stream.demandGeneration
    indicatorThrough := some latest
    stateThrough := some latest
    latestBarDate := some latestBarDate
    dirtyFrom := if latestBarDate ≤ latest then none else stream.dirtyFrom }

/-- The state half of a rebuild: without indicators there is nothing to recognize, and the timeline
is replaced by nothing. -/
def publishStates (calendar : Calendar) (store : AnalysisStore F) (hasIndicators : Bool)
    (start : Option Date) (latest : Date) : Except ApiError (ℕ × AnalysisStore F) :=
  if hasIndicators then rebuildStates calendar store start latest
  else match publish store.stream store.timeline [] none latest with
    | .error error => .error error
    | .ok (stream, timeline) => .ok (0, { store with stream, timeline })

/-- The part of `materialize` that rebuilds the series from `start` through `latest`. -/
def rebuildSeries (calendar : Calendar) (store : AnalysisStore F)
    (effective : List (IndicatorRequest F)) (start : Option Date) (latest : Date) :
    Except ApiError (ℕ × ℕ × AnalysisStore F) :=
  let source : SourceMarker :=
    { revision := store.stream.sourceRevision
      restatedThrough := some (store.stream.indicatorThrough.getD latest) }
  match rebuildIndicators store.snapshots store.bars effective start (some latest) (some source) with
  | .error error => .error error
  | .ok (indicators, snapshots) =>
    match publishStates calendar { store with snapshots } (!indicators.rows.isEmpty) start latest with
    | .error error => .error error
    | .ok (states, store) =>
      let stream := publishWatermarks store.stream (demandKey effective) latest
      .ok (countSnapshots indicators, states, { store with stream })

/-- `AnalysisService.materialize` of a known security: `demanded` is what the committed
configuration demands, `requests` the parameter of that name, `cutoff` the parameter `end`. -/
def materialize (calendar : Calendar) (demanded : List (IndicatorRequest F))
    (store : AnalysisStore F) (requests : List (IndicatorRequest F)) (cutoff : Option Date)
    (forceHistory : Bool) : Except ApiError (AnalysisResult × AnalysisStore F) :=
  let stream := store.stream
  let effective := mergeIndicatorRequests (requests ++ demanded)
  let key := demandKey effective
  let bars := store.bars.window none cutoff
  match bars.minKey?, bars.maxKey? with
  | some first, some latest =>
    if stream.stateThrough.any (latest < ·) then .error .staleAnalysisTarget
    else
      match planMaterialize store key forceHistory first latest with
      | .upToDate =>
        let stream := { stream with publishedDemandGeneration := stream.demandGeneration }
        .ok (⟨0, 0, latest, stream.sourceRevision, false⟩, { store with stream })
      | .rebuild start =>
        match rebuildSeries calendar store effective start latest with
        | .error error => .error error
        | .ok (indicators, states, store) =>
          let rebuilt :=
            forceHistory || stream.demandKey ≠ some key || stream.publishedRevision < 0
          .ok (⟨indicators, states, latest, stream.sourceRevision, rebuilt⟩, store)
  | _, _ => .error .indicatorDataNotFound

/-! ### What a materialization leaves -/

/-- The stream columns a publication of states may write before the watermarks. -/
def SameButSequences (stream stream' : AnalysisStream (DemandKey F)) : Prop :=
  ∃ stateGeneration eventSequence stateThrough,
    stream' = { stream with stateGeneration, eventSequence, stateThrough }

/-- The observations a rebuild publishes, and the date it publishes them from. -/
structure Publishes (calendar : Calendar) (store : AnalysisStore F) (hasIndicators : Bool)
    (start : Option Date) (latest : Date) (rows : List (StateRow F)) (persistFrom : Option Date) :
    Prop where
  without : hasIndicators = false → rows = [] ∧ persistFrom = none
  persistFrom_eq : hasIndicators = true →
    persistFrom = if store.stream.stateThrough.isNone then none else start
  observations : hasIndicators = true →
    (store.stateInput calendar).observations {} persistFrom (some latest) none = .ok rows

theorem publishStates_eq_ok {calendar : Calendar} {store store' : AnalysisStore F}
    {hasIndicators : Bool} {start : Option Date} {latest : Date} {states : ℕ}
    (h : publishStates calendar store hasIndicators start latest = .ok (states, store')) :
    ∃ rows persistFrom stream timeline,
      Publishes calendar store hasIndicators start latest rows persistFrom ∧
      publish store.stream store.timeline rows persistFrom latest = .ok (stream, timeline) ∧
      SameButSequences store.stream store'.stream ∧
      store' = { store with stream := store'.stream, timeline } := by
  cases hasIndicators with
  | false =>
    simp only [publishStates, Bool.false_eq_true, ↓reduceIte] at h
    split at h
    · cases h
    next stream timeline hpublish =>
    obtain ⟨-, rfl⟩ := Prod.mk.inj (Except.ok.inj h)
    obtain ⟨-, ⟨_, _, rfl⟩, -⟩ := publish_eq_ok hpublish
    exact ⟨[], none, _, timeline, ⟨fun _ => ⟨rfl, rfl⟩, nofun, nofun⟩, hpublish, ⟨_, _, _, rfl⟩, rfl⟩
  | true =>
    simp only [publishStates, ↓reduceIte, rebuildStates] at h
    split at h
    · cases h
    next rows hrows =>
    split at h
    · cases h
    next stream timeline hpublish =>
    obtain ⟨-, rfl⟩ := Prod.mk.inj (Except.ok.inj h)
    obtain ⟨-, ⟨_, _, rfl⟩, -⟩ := publish_eq_ok hpublish
    exact ⟨rows, _, _, timeline, ⟨nofun, fun _ => rfl, fun _ => hrows⟩, hpublish,
      ⟨_, _, _, rfl⟩, rfl⟩

theorem rebuildSeries_eq_ok {calendar : Calendar} {store store' : AnalysisStore F}
    {effective : List (IndicatorRequest F)} {start : Option Date} {latest : Date}
    {indicators states : ℕ}
    (h : rebuildSeries calendar store effective start latest = .ok (indicators, states, store')) :
    ∃ payloads source rows persistFrom stream stream',
      rebuildIndicators store.snapshots store.bars effective start (some latest) (some source) =
        .ok (payloads, store'.snapshots) ∧
      Publishes calendar { store with snapshots := store'.snapshots } (!payloads.rows.isEmpty) start
        latest rows persistFrom ∧
      publish store.stream store.timeline rows persistFrom latest = .ok (stream', store'.timeline) ∧
      SameButSequences store.stream stream ∧
      store'.stream = publishWatermarks stream (demandKey effective) latest ∧
      store'.bars = store.bars := by
  simp only [rebuildSeries] at h
  split at h
  · cases h
  next payloads snapshots hindicators =>
  split at h
  · cases h
  next states' store'' hstates =>
  obtain ⟨-, h⟩ := Prod.mk.inj (Except.ok.inj h)
  obtain ⟨-, rfl⟩ := Prod.mk.inj h
  obtain ⟨rows, persistFrom, stream', timeline, hrows, hpublish, hsame, hstore⟩ :=
    publishStates_eq_ok hstates
  rw [hstore]
  exact ⟨payloads, _, rows, persistFrom, _, stream', hindicators, hrows, hpublish, hsame, rfl, rfl⟩

/-- A materialization that succeeds finds the publication up to date, or rebuilds it from the
planned start. -/
theorem materialize_eq_ok {calendar : Calendar} {demanded requests : List (IndicatorRequest F)}
    {store store' : AnalysisStore F} {cutoff : Option Date} {forceHistory : Bool}
    {result : AnalysisResult}
    (h : materialize calendar demanded store requests cutoff forceHistory = .ok (result, store')) :
    let effective := mergeIndicatorRequests (requests ++ demanded)
    ∃ first latest, (store.bars.window none cutoff).minKey? = some first ∧
      (store.bars.window none cutoff).maxKey? = some latest ∧
      store.stream.stateThrough.all (· ≤ latest) ∧
      (planMaterialize store (demandKey effective) forceHistory first latest = .upToDate ∧
          store' = { store with
            stream := { store.stream with
              publishedDemandGeneration := store.stream.demandGeneration } } ∨
        ∃ start indicators states,
          planMaterialize store (demandKey effective) forceHistory first latest = .rebuild start ∧
          rebuildSeries calendar store effective start latest =
            .ok (indicators, states, store')) := by
  simp only [materialize] at h
  split at h
  swap
  · cases h
  next first latest hfirst hlatest =>
  split at h
  · cases h
  next hstale =>
  refine ⟨first, latest, hfirst, hlatest, ?_, ?_⟩
  · cases hs : store.stream.stateThrough <;> simp_all
  split at h
  · next hplan =>
    obtain ⟨-, rfl⟩ := Prod.mk.inj (Except.ok.inj h)
    exact .inl ⟨hplan, rfl⟩
  · next start hplan =>
    split at h
    · cases h
    next indicators states store'' hrebuild =>
    obtain ⟨-, rfl⟩ := Prod.mk.inj (Except.ok.inj h)
    exact .inr ⟨start, indicators, states, hplan, hrebuild⟩

end Materialize

/-! ## Reading the history -/

/-- `DEFAULT_HISTORY_WINDOW_DAYS`, `MAX_HISTORY_WINDOW_DAYS` and `MAX_STATE_HISTORY_ROWS`. -/
def defaultHistoryWindowDays : ℤ := 90

def maxHistoryWindowDays : ℤ := 366

def maxStateHistoryRows : ℕ := 20000

/-- `resolve_history_window`: an inclusive bounded history range anchored to persisted data. -/
def resolveHistoryWindow (start last : Option Date) (latestDate : Date) :
    Except ApiError (Date × Date) :=
  let (resolvedStart, resolvedEnd) := match start, last with
    | none, none => (latestDate - (defaultHistoryWindowDays - 1), latestDate)
    | none, some last => (last - (defaultHistoryWindowDays - 1), last)
    | some start, none => (start, min latestDate (start + (defaultHistoryWindowDays - 1)))
    | some start, some last => (start, last)
  if resolvedStart > resolvedEnd then .error .invalidDateRange
  else if resolvedEnd - resolvedStart + 1 > maxHistoryWindowDays then .error .historyRangeTooLarge
  else .ok (resolvedStart, resolvedEnd)

section History

variable {F : Type} [Arith F] [LinearOrder (IndicatorRequest F)] [LinearOrder (Target F)]

/-- The window of a history request, anchored to the latest current row its filters select. -/
def historyWindow (store : AnalysisStore F) (start last : Option Date) (filter : StateFilter F) :
    Except ApiError (Date × Date) :=
  let rows := store.timeline.current.rows.filter fun row => filter.accepts row.1
  match (rows.map (·.2.tradeDate)).max? with
  | none => .error .stateDataNotFound
  | some latestDate => resolveHistoryWindow start last latestDate

/-- `StateService.history`. -/
def stateHistory (calendar : Calendar) (store : AnalysisStore F) (start last : Option Date)
    (filter : StateFilter F) : Except ApiError (List (StateRow F)) :=
  if store.stream.stateThrough.isNone then .error .stateEventsNotReady
  else if 0 ≤ store.stream.publishedRevision ∧ store.stream.dirtyFrom.isSome then
    .error .analysisRebuildPending
  else match historyWindow store start last filter with
    | .error error => .error error
    | .ok (resolvedStart, resolvedEnd) =>
      match (store.stateInput calendar).observations filter (some resolvedStart) (some resolvedEnd)
        (some maxStateHistoryRows) with
      | .error error => .error error
      | .ok observed =>
        let persisted := observed.filter fun row => filter.accepts row.target
        if persisted.isEmpty then .error .stateDataNotFound
        else if maxStateHistoryRows < persisted.length then .error .historyResultTooLarge
        else .ok persisted

theorem stateHistory_eq_ok {calendar : Calendar} {store : AnalysisStore F}
    {start last : Option Date} {filter : StateFilter F} {rows : List (StateRow F)}
    (h : stateHistory calendar store start last filter = .ok rows) :
    store.stream.stateThrough.isSome ∧
      ∃ resolvedStart resolvedEnd observed,
        historyWindow store start last filter = .ok (resolvedStart, resolvedEnd) ∧
        (store.stateInput calendar).observations filter (some resolvedStart) (some resolvedEnd)
          (some maxStateHistoryRows) = .ok observed ∧
        rows = observed.filter fun row => filter.accepts row.target := by
  simp only [stateHistory] at h
  split at h
  · cases h
  next hthrough =>
  split at h
  · cases h
  split at h
  · cases h
  next resolvedStart resolvedEnd hwindow =>
  split at h
  · cases h
  next observed hobserved =>
  split at h
  · cases h
  split at h
  · cases h
  refine ⟨?_, resolvedStart, resolvedEnd, observed, hwindow, hobserved, (Except.ok.inj h).symm⟩
  simpa [Option.isSome_iff_ne_none] using hthrough

end History

/-! ## Runs

The three kinds of transactions on one price series, in any order: fact commits of the Hub,
configuration commits, and materializations. Each holds the lock of the stream row, so they are
atomic; one that raises leaves every table as it was. -/

section Runs

variable {F R : Type} [Arith F] [DecidableEq F] [LinearOrder (IndicatorRequest F)]
  [LinearOrder (Target F)] [DecidableEq R]

/-- A price series with the committed configuration. -/
structure Series (F R : Type) [LinearOrder (IndicatorRequest F)] [LinearOrder (Target F)] where
  store : AnalysisStore F
  descriptor : Option (AdjustmentDescriptor R)
  demanded : List (IndicatorRequest F)

inductive SeriesAction (F R : Type)
  | upsert (records : Bars) (revision : Option R)
  | reconcile (records : Bars) (coverageStart coverageEnd : Date) (revision : Option R)
  | configure (demanded : List (IndicatorRequest F))
  | materialize (calendar : Calendar) (withDemand : Bool) (cutoff : Option Date)
      (forceHistory : Bool)

namespace Series

def facts (s : Series F R) : SeriesFacts (DemandKey F) R :=
  { bars := s.store.bars, stream := s.store.stream, descriptor := s.descriptor }

def withFacts (s : Series F R) (facts : SeriesFacts (DemandKey F) R) : Series F R :=
  { s with
    store := { s.store with bars := facts.bars, stream := facts.stream }
    descriptor := facts.descriptor }

/-- A materialization gets no requests, or the committed demand. -/
def materialize (s : Series F R) (calendar : Calendar) (withDemand : Bool) (cutoff : Option Date)
    (forceHistory : Bool) : Except ApiError (AnalysisResult × AnalysisStore F) :=
  let requests := if withDemand then s.demanded else []
  Apanel.materialize calendar s.demanded s.store requests cutoff forceHistory

/-- The transaction of one action. -/
def step (s : Series F R) : SeriesAction F R → Series F R
  | .upsert records revision =>
    if records.rows.isEmpty then s else s.withFacts (s.facts.applyUpsert records revision)
  | .reconcile records coverageStart coverageEnd revision =>
    if SeriesFacts.reconcileCovers records coverageStart coverageEnd then
      s.withFacts (s.facts.applyReconcile records coverageStart coverageEnd revision)
    else s
  | .configure demanded =>
    { s with
      store := { s.store with stream := s.store.stream.markDemandChanged }
      demanded }
  | .materialize calendar withDemand cutoff forceHistory =>
    match s.materialize calendar withDemand cutoff forceHistory with
    | .error _ => s
    | .ok (_, store) => { s with store }

/-- A series nothing has been stored for. -/
def initial (demanded : List (IndicatorRequest F)) : Series F R :=
  { store := { bars := ∅, stream := {}, snapshots := ∅, timeline := { events := [], current := ∅ } }
    descriptor := none
    demanded }

omit [DecidableEq R] in
/-- A materialization that succeeds publishes the committed demand. -/
theorem materialize_eq_ok {s : Series F R} {calendar : Calendar} {withDemand : Bool}
    {cutoff : Option Date} {forceHistory : Bool} {result : AnalysisResult} {store : AnalysisStore F}
    (h : s.materialize calendar withDemand cutoff forceHistory = .ok (result, store)) :
    let effective := mergeIndicatorRequests s.demanded
    ∃ first latest, (s.store.bars.window none cutoff).minKey? = some first ∧
      (s.store.bars.window none cutoff).maxKey? = some latest ∧
      s.store.stream.stateThrough.all (· ≤ latest) ∧
      (planMaterialize s.store (demandKey effective) forceHistory first latest = .upToDate ∧
          store = { s.store with
            stream := { s.store.stream with
              publishedDemandGeneration := s.store.stream.demandGeneration } } ∨
        ∃ start indicators states,
          planMaterialize s.store (demandKey effective) forceHistory first latest = .rebuild start ∧
          rebuildSeries calendar s.store effective start latest = .ok (indicators, states, store)) := by
  have heffective : mergeIndicatorRequests ((if withDemand then s.demanded else []) ++ s.demanded) =
      mergeIndicatorRequests s.demanded :=
    mergeIndicatorRequests_congr fun r => by
      cases withDemand <;> simp [mem_mergeIndicatorRequests]
  have hok := Apanel.materialize_eq_ok h
  rwa [heffective] at hok

end Series

end Runs

end Apanel
