import Apanel.Backend.Publication
import Apanel.Library.Keyset

/-!
# Pages of state events

The state events of a stream are read in pages by sequence number. Every page is read in a
transaction of its own, under a shared lock of the stream row, and publications run between the
pages. The reader passes the generation of its first page back, which changes with the valid events,
so that what it collects is the events of one publication (`stateEvents_snapshot`).
-/

namespace Apanel

section EventPages

variable {F : Type} [LinearOrder (IndicatorRequest F)] [LinearOrder (Target F)]

inductive StateEventsError
  | api (error : ApiError)
  | stateEventGenerationChanged
  deriving DecidableEq

/-- What a reader asks for: an explicit window, of a length that is served, and the targets the
filters on `state_code` and `parameter_key` select. -/
structure EventQuery (F : Type) where
  start : Date
  last : Date
  selects : Target F → Bool
  start_le : start ≤ last
  length_le : last - start + 1 ≤ maxHistoryWindowDays

structure StateEventsData (F : Type) where
  items : List (StateEvent F)
  generation : ℤ
  sourceRevision : ℤ
  nextCursor : Option ℤ

/-- The rows that `events` selects, before `after_seq`. -/
def selectedEvents (events : List (StateEvent F)) (start last : Date) (selects : Target F → Bool) :
    List (StateEvent F) :=
  events.filter fun event =>
    event.valid && (start ≤ event.tradeDate && (event.tradeDate ≤ last && selects event.target))

/-- `StateEventRepository.events`. -/
def queryEvents (events : List (StateEvent F)) (start last : Date) (selects : Target F → Bool)
    (afterSeq : ℤ) (limit : ℕ) : List (StateEvent F) :=
  (((selectedEvents events start last selects).filter (afterSeq < ·.streamSeq)).insertionSort
    (·.streamSeq ≤ ·.streamSeq)).take limit

/-- `get_state_events` with an explicit window. -/
def getStateEvents (store : AnalysisStore F) (query : EventQuery F) (limit : ℕ) (afterSeq : ℤ)
    (generation : Option ℤ) : Except StateEventsError (StateEventsData F) :=
  match store.stream.stateThrough with
  | none => .error (.api .stateEventsNotReady)
  | some stateThrough =>
    if !store.stream.publicationIsCurrent then .error (.api .analysisRebuildPending)
    else if generation.any (· ≠ store.stream.stateGeneration) then
      .error .stateEventGenerationChanged
    else
      let latest := ((store.timeline.current.rows.map (·.2.tradeDate)).max?).getD stateThrough
      match resolveHistoryWindow (some query.start) (some query.last) latest with
      | .error error => .error (.api error)
      | .ok (first, last) =>
        let rows := queryEvents store.timeline.events first last query.selects afterSeq (limit + 1)
        let items := rows.take limit
        .ok
          { items
            generation := store.stream.stateGeneration
            sourceRevision := store.stream.publishedRevision
            nextCursor := if limit < rows.length then items.getLast?.map (·.streamSeq) else none }

/-- A reader that passes `next_cursor` and `generation` back until there is no cursor. Each request
finds the store of its own time. -/
def readStateEvents (query : EventQuery F) (limit : ℕ) :
    ℤ → Option ℤ → List (AnalysisStore F) → Except StateEventsError (List (StateEvent F) × Bool)
  | _, _, [] => .ok ([], false)
  | afterSeq, generation, store :: stores => do
    let data ← getStateEvents store query limit afterSeq generation
    match data.nextCursor with
    | none => .ok (data.items, true)
    | some next => do
      let (items, finished) ← readStateEvents query limit next (some data.generation) stores
      .ok (data.items ++ items, finished)

/-- The part of a store that `publish` writes. -/
def AnalysisStore.published (store : AnalysisStore F) : PublishedStream F :=
  ⟨store.timeline, store.stream.eventSequence, store.stream.stateGeneration⟩

/-- The events a query selects. -/
def EventQuery.events (query : EventQuery F) (store : AnalysisStore F) : List (StateEvent F) :=
  selectedEvents store.timeline.events query.start query.last query.selects

/-! ## One page -/

omit [LinearOrder (IndicatorRequest F)] [LinearOrder (Target F)] in
theorem resolveHistoryWindow_explicit (query : EventQuery F) (latest : Date) :
    resolveHistoryWindow (some query.start) (some query.last) latest =
      .ok (query.start, query.last) := by
  simp [resolveHistoryWindow, query.start_le.not_gt, query.length_le.not_gt]

/-- A request is refused as long as nothing is published or a publication is pending, and after the
generation changed. -/
def RefusedBy (stores : List (AnalysisStore F)) (error : StateEventsError) : Prop :=
  error = .stateEventGenerationChanged ∨ error = .api .stateEventsNotReady ∨
    error = .api .analysisRebuildPending ∧
      ∃ store ∈ stores, store.stream.publicationIsCurrent = false

theorem RefusedBy.mono {stores stores' : List (AnalysisStore F)} {error : StateEventsError}
    (h : RefusedBy stores error) (hsubset : ∀ store ∈ stores, store ∈ stores') :
    RefusedBy stores' error := by
  refine h.imp_right (.imp_right ?_)
  rintro ⟨heq, store, hstore, hpending⟩
  exact ⟨heq, store, hsubset store hstore, hpending⟩

/-- A request that is not refused is served a page of the events of the store. -/
theorem getStateEvents_cases (store : AnalysisStore F) (query : EventQuery F) (limit : ℕ)
    (afterSeq : ℤ) (generation : Option ℤ) :
    (∃ error, getStateEvents store query limit afterSeq generation = .error error ∧
      RefusedBy [store] error) ∨
    generation.all (· = store.stream.stateGeneration) ∧
      getStateEvents store query limit afterSeq generation =
        .ok ⟨(Keyset.page StateEvent.streamSeq limit (query.events store) (some afterSeq)).items,
          store.stream.stateGeneration, store.stream.publishedRevision,
          (Keyset.page StateEvent.streamSeq limit (query.events store)
            (some afterSeq)).nextCursor⟩ := by
  rw [getStateEvents]
  split
  · exact .inl ⟨_, rfl, .inr (.inl rfl)⟩
  · split
    · next hpending =>
      refine .inl ⟨_, rfl, .inr (.inr ⟨rfl, store, List.mem_singleton_self store, ?_⟩)⟩
      simpa using hpending
    · split
      · exact .inl ⟨_, rfl, .inl rfl⟩
      · next hgeneration =>
        refine .inr ⟨?_, ?_⟩
        · cases generation with
          | none => rfl
          | some generation => simpa using hgeneration
        · dsimp only
          rw [resolveHistoryWindow_explicit]
          rfl

/-! ## Generations -/

variable [DecidableEq F]

namespace PublishedStream

omit [LinearOrder (IndicatorRequest F)] in
/-- A publication that alters the events changes the generation. -/
theorem step_stateGeneration (s : PublishedStream F) (call : PublishCall F) :
    s.stateGeneration ≤ (s.step call).stateGeneration ∧
      ((s.step call).stateGeneration = s.stateGeneration →
        (s.step call).timeline.events = s.timeline.events) := by
  obtain ⟨-, hstep⟩ | ⟨-, hpublish⟩ := s.step_cases call
  · rw [hstep]
    exact ⟨le_rfl, fun _ => rfl⟩
  · obtain ⟨-, hs⟩ := publish_eq_ok.mp hpublish
    rw [hs]
    constructor
    · dsimp only
      split
      · exact Int.le_add_one le_rfl
      · exact le_rfl
    · dsimp only
      intro hgeneration
      by_cases hunchanged : s.unchanged call
      · rw [if_pos hunchanged]
      · rw [if_pos (by simp [hunchanged])] at hgeneration
        exact absurd hgeneration (Int.lt_succ _).ne'

omit [LinearOrder (IndicatorRequest F)] in
/-- While the generation stands, so do the events. -/
theorem run_stateGeneration (s : PublishedStream F) (calls : List (PublishCall F)) :
    s.stateGeneration ≤ (run PublishedStream.step s calls).stateGeneration ∧
      ((run PublishedStream.step s calls).stateGeneration = s.stateGeneration →
        (run PublishedStream.step s calls).timeline.events = s.timeline.events) := by
  induction calls generalizing s with
  | nil => exact ⟨le_rfl, fun _ => rfl⟩
  | cons call calls ih =>
    obtain ⟨hle, hevents⟩ := s.step_stateGeneration call
    obtain ⟨hle', hevents'⟩ := ih (s.step call)
    rw [run_cons]
    refine ⟨hle.trans hle', fun hgeneration => ?_⟩
    have hfirst : (s.step call).stateGeneration = s.stateGeneration :=
      le_antisymm (hgeneration ▸ hle') hle
    rw [hevents' (hgeneration.trans hfirst.symm), hevents hfirst]

end PublishedStream

/-- The stores that successive requests find, with any publications between them. Whatever else the
stores hold is arbitrary. -/
def Interleaved : PublishedStream F → List (AnalysisStore F) → Prop
  | _, [] => True
  | s, store :: stores =>
    (∃ calls, store.published = run PublishedStream.step s calls) ∧
      Interleaved store.published stores

omit [DecidableEq F] in
/-- A request of a reader is refused, or the reader goes on from the page it is served. -/
theorem readStateEvents_cons (query : EventQuery F) (limit : ℕ) (afterSeq : ℤ)
    (generation : Option ℤ) (store : AnalysisStore F) (stores : List (AnalysisStore F)) :
    (∃ error, readStateEvents query limit afterSeq generation (store :: stores) = .error error ∧
      RefusedBy [store] error) ∨
    generation.all (· = store.stream.stateGeneration) ∧
      readStateEvents query limit afterSeq generation (store :: stores) =
        let page := Keyset.page StateEvent.streamSeq limit (query.events store) (some afterSeq)
        match page.nextCursor with
        | none => .ok (page.items, true)
        | some next =>
          (readStateEvents query limit next (some store.stream.stateGeneration) stores).map
            fun (items, finished) => (page.items ++ items, finished) := by
  rw [readStateEvents]
  obtain ⟨error, herror, hrefused⟩ | ⟨hgeneration, hpage⟩ :=
    getStateEvents_cases store query limit afterSeq generation
  · exact .inl ⟨error, by rw [herror]; rfl, hrefused⟩
  · refine .inr ⟨hgeneration, ?_⟩
    rw [hpage]
    simp only [bind, Except.bind]
    split
    · rfl
    · cases readStateEvents query limit _ (some store.stream.stateGeneration) stores <;> rfl

/-- The requests after the first page read the events of that page, as long as they are served. -/
theorem readStateEvents_generation {query : EventQuery F} {limit : ℕ} {s : PublishedStream F}
    {stores : List (AnalysisStore F)} (h : Interleaved s stores) (afterSeq : ℤ) :
    (∃ error, readStateEvents query limit afterSeq (some s.stateGeneration) stores = .error error ∧
      RefusedBy stores error) ∨
    readStateEvents query limit afterSeq (some s.stateGeneration) stores =
      .ok (Keyset.follow StateEvent.streamSeq limit (some afterSeq) (stores.map fun _ =>
        selectedEvents s.timeline.events query.start query.last query.selects)) := by
  induction stores generalizing s afterSeq with
  | nil => exact .inr rfl
  | cons store stores ih =>
    obtain ⟨⟨calls, hcalls⟩, hrest⟩ := h
    obtain ⟨error, herror, hrefused⟩ | ⟨hgeneration, hread⟩ :=
      readStateEvents_cons query limit afterSeq (some s.stateGeneration) store stores
    · refine .inl ⟨error, herror, hrefused.mono fun found hfound => ?_⟩
      exact List.mem_singleton.mp hfound ▸ List.mem_cons_self
    · have hsame : store.published.stateGeneration = s.stateGeneration := by
        simpa [AnalysisStore.published, eq_comm] using hgeneration
      have hevents : store.timeline.events = s.timeline.events := by
        have hstands := (s.run_stateGeneration calls).2
        rw [← hcalls] at hstands
        exact hstands hsame
      have hquery : query.events store =
          selectedEvents s.timeline.events query.start query.last query.selects := by
        rw [EventQuery.events, hevents]
      rw [hread, hquery, List.map_cons, Keyset.follow]
      dsimp only
      cases hnext : (Keyset.page StateEvent.streamSeq limit (selectedEvents s.timeline.events
          query.start query.last query.selects) (some afterSeq)).nextCursor with
      | none => exact .inr rfl
      | some next =>
        dsimp only
        rcases ih hrest next with ⟨error, herror, hrefused⟩ | hrest
        · refine .inl ⟨error, ?_, hrefused.mono fun _ => List.mem_cons_of_mem store⟩
          rw [AnalysisStore.published] at herror
          rw [herror]
          rfl
        · refine .inr ?_
          rw [AnalysisStore.published, hevents] at hrest
          rw [hrest]
          rfl

omit [LinearOrder (IndicatorRequest F)] in
theorem PublishedStream.sequenced_run (calls : List (PublishCall F)) :
    (run PublishedStream.step PublishedStream.initial calls).Sequenced := by
  have hstep (s : PublishedStream F) (call : PublishCall F) (hs : s.Sequenced) (_ : True) :
      (s.step call).Sequenced := hs.step call
  exact run_invariant hstep .initial (always_of_forall (fun _ _ => trivial) _)

omit [LinearOrder (IndicatorRequest F)] [DecidableEq F] in
/-- The selected events are numbered in the order they stand in, from 1 on. -/
theorem PublishedStream.Sequenced.selectedEvents {s : PublishedStream F} (h : s.Sequenced)
    (query : EventQuery F) :
    ((selectedEvents s.timeline.events query.start query.last query.selects).Pairwise
      (·.streamSeq < ·.streamSeq)) ∧
    Keyset.after StateEvent.streamSeq
      (selectedEvents s.timeline.events query.start query.last query.selects) (some 0) =
        selectedEvents s.timeline.events query.start query.last query.selects := by
  have hincreasing : (Apanel.selectedEvents s.timeline.events query.start query.last
      query.selects).Pairwise (·.streamSeq < ·.streamSeq) := h.increasing.filter _
  have hkeys := List.pairwise_map.mpr (hincreasing.imp fun hlt => hlt.ne)
  refine ⟨hincreasing, Keyset.eq_of_perm_of_strict ?_ (Keyset.after_strict hkeys _) hincreasing⟩
  refine (Keyset.after_perm _ _).trans (.of_eq (List.filter_eq_self.mpr fun event hevent => ?_))
  simpa using h.positive event (List.mem_filter.mp hevent).1

omit [DecidableEq F] in
/-- A first request is one that passes the generation it finds. -/
theorem readStateEvents_none (query : EventQuery F) (limit : ℕ) (afterSeq : ℤ)
    (store : AnalysisStore F) (stores : List (AnalysisStore F)) :
    readStateEvents query limit afterSeq none (store :: stores) =
      readStateEvents query limit afterSeq (some store.stream.stateGeneration) (store :: stores) := by
  have hpage : getStateEvents store query limit afterSeq none =
      getStateEvents store query limit afterSeq (some store.stream.stateGeneration) := by
    simp [getStateEvents]
  rw [readStateEvents, readStateEvents, hpage]

/-- A reader is refused, or else it collects the events that its query selects in one publication,
each once and in sequence, and as many requests as these take fill reach their end. -/
theorem stateEvents_snapshot (query : EventQuery F) {limit : ℕ} (hlimit : 0 < limit)
    {stores : List (AnalysisStore F)} (h : Interleaved PublishedStream.initial stores) :
    (∃ error, readStateEvents query limit 0 none stores = .error error ∧
      RefusedBy stores error) ∨
    ∃ items finished, readStateEvents query limit 0 none stores = .ok (items, finished) ∧
      (finished → ∃ store ∈ stores, items = query.events store ∧
        items.Pairwise (·.streamSeq < ·.streamSeq)) ∧
      ∀ store ∈ stores.head?, (query.events store).length ≤ limit * stores.length → finished := by
  cases stores with
  | nil =>
    refine .inr ⟨[], false, rfl, fun hfinished => absurd hfinished Bool.false_ne_true, ?_⟩
    exact fun store hstore => absurd hstore (Option.not_mem_none store)
  | cons store stores =>
    obtain ⟨⟨calls, hcalls⟩, hrest⟩ := h
    have hs : store.published.Sequenced := by
      rw [hcalls]
      exact PublishedStream.sequenced_run calls
    obtain ⟨hincreasing, hafter⟩ := hs.selectedEvents query
    have hkeys := List.pairwise_map.mpr (hincreasing.imp fun hlt => hlt.ne)
    have hnow : Interleaved store.published (store :: stores) := ⟨⟨[], rfl⟩, hrest⟩
    rw [readStateEvents_none]
    rcases readStateEvents_generation hnow 0 with hrefused | hread
    · exact .inl hrefused
    · have hstable : Keyset.Stable StateEvent.streamSeq (query.events store) (some 0)
          ((store :: stores).map fun _ => query.events store) := by
        constructor
        · intro rows hrows
          cases hrows
          exact .refl _
        · intro rows hrows next _
          obtain ⟨_, _, rfl⟩ := List.mem_map.mp (List.mem_of_mem_tail hrows)
          exact .refl _
      refine .inr ⟨_, _, hread, fun hfinished => ?_, fun first hfirst hlength => ?_⟩
      · have hitems := Keyset.follow_eq hlimit hkeys hstable hfinished
        have hstrict := Keyset.after_strict hkeys (some 0)
        rw [← hitems] at hstrict
        exact ⟨store, List.mem_cons_self, hitems.trans hafter, hstrict⟩
      · cases hfirst
        refine Keyset.follow_finished hkeys hstable (List.cons_ne_nil _ _) ?_
        rw [List.length_map]
        exact (congrArg List.length hafter).trans_le hlength

end EventPages

/-! ## Two requests for the events of two days -/

def twoDayStore : AnalysisStore Ranged :=
  let s := run PublishedStream.step PublishedStream.initial twoDayCalls
  { bars := ∅
    snapshots := ∅
    timeline := s.timeline
    stream :=
      { sourceRevision := 2, publishedRevision := 2, publishedDemandGeneration := 0
        stateThrough := some 2, eventSequence := s.eventSequence
        stateGeneration := s.stateGeneration } }

def twoDayQuery : EventQuery Ranged := ⟨1, 2, fun _ => true, by decide, by decide⟩

theorem stateEvents_snapshot_twoDays :
    (∃ error, readStateEvents twoDayQuery 1 0 none [twoDayStore, twoDayStore] = .error error ∧
      RefusedBy [twoDayStore, twoDayStore] error) ∨
    ∃ items finished,
      readStateEvents twoDayQuery 1 0 none [twoDayStore, twoDayStore] = .ok (items, finished) ∧
      (finished → ∃ store ∈ [twoDayStore, twoDayStore], items = twoDayQuery.events store ∧
        items.Pairwise (·.streamSeq < ·.streamSeq)) ∧
      ∀ store ∈ [twoDayStore, twoDayStore].head?,
        (twoDayQuery.events store).length ≤ 1 * [twoDayStore, twoDayStore].length → finished :=
  stateEvents_snapshot twoDayQuery (by decide) ⟨⟨twoDayCalls, rfl⟩, ⟨[], rfl⟩, trivial⟩

end Apanel
