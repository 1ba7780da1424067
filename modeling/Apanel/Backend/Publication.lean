import Apanel.Backend.Freshness
import Apanel.Backend.Timeline
import Apanel.Library.Transition
import Mathlib.Data.List.Chain

/-!
# Runs of publications

The state tables of a stream over any number of `publish` calls. `Mirrors` is what the current rows
say of the valid events. A partial publication invalidates the events of every target in its range
but writes the current rows of the targets it observes only, so that `Mirrors` survives exactly
where the targets it leaves out have no event in the range (`Mirrors.publish_iff`).
-/

namespace Apanel

section Runs

variable {F : Type} [LinearOrder (Target F)]

/-- The state tables of a stream, and the watermarks `publish` writes. -/
structure PublishedStream (F : Type) [LinearOrder (Target F)] where
  timeline : Timeline F
  eventSequence : ℤ
  stateGeneration : ℤ

/-- One call of `publish`, with the source revision its stream row has then. -/
structure PublishCall (F : Type) where
  sourceRevision : ℤ
  observations : List (StateRow F)
  start : Option Date
  through : Date

namespace PublishedStream

/-- Before the first publication. -/
def initial : PublishedStream F := ⟨⟨[], ∅⟩, 0, 0⟩

/-- The stream row a call locks. -/
def row (s : PublishedStream F) (call : PublishCall F) : AnalysisStream Unit :=
  { sourceRevision := call.sourceRevision, eventSequence := s.eventSequence
    stateGeneration := s.stateGeneration }

variable [DecidableEq F]

def publish (s : PublishedStream F) (call : PublishCall F) : Except ApiError (PublishedStream F) :=
  match Apanel.publish (s.row call) s.timeline call.observations call.start call.through with
  | .error error => .error error
  | .ok (stream, timeline) => .ok ⟨timeline, stream.eventSequence, stream.stateGeneration⟩

/-- A call that raises is rolled back. -/
def step (s : PublishedStream F) (call : PublishCall F) : PublishedStream F :=
  match s.publish call with
  | .error _ => s
  | .ok s' => s'

/-- The dictionaries and events of the loop of a call. -/
def folded (s : PublishedStream F) (call : PublishCall F) : PublishState F :=
  foldObservations call.sourceRevision s.timeline.events call.observations call.start

/-- A call is refused if it would regress the current snapshot. -/
def Refuses (s : PublishedStream F) (call : PublishCall F) : Prop :=
  s.timeline.previousThrough.any (call.through < ·)

omit [DecidableEq F] in
theorem not_refuses_iff {s : PublishedStream F} {call : PublishCall F} :
    ¬s.Refuses call ↔ s.timeline.previousThrough.all (· ≤ call.through) := by
  rw [Refuses]
  cases s.timeline.previousThrough <;> simp

def unchanged (s : PublishedStream F) (call : PublishCall F) : Bool :=
  isUnchanged s.timeline.events call.start call.through (s.folded call).events

/-- What an accepted call leaves. -/
theorem publish_eq_ok {s s' : PublishedStream F} {call : PublishCall F} :
    s.publish call = .ok s' ↔ ¬s.Refuses call ∧ s' =
      { timeline :=
          { events := if s.unchanged call then s.timeline.events else
              replaceEvents s.eventSequence s.timeline.previousThrough s.timeline.events call.start
                call.through (s.folded call).events
            current := (if call.start.isNone then ∅ else s.timeline.current).insertMany
              (s.folded call).last.rows }
        eventSequence := if s.unchanged call then s.eventSequence else
          s.eventSequence + (s.folded call).events.length
        stateGeneration :=
          if !s.unchanged call || s.timeline.previousThrough ≠ some call.through then
            s.stateGeneration + 1
          else s.stateGeneration } := by
  by_cases hrefuses : s.Refuses call
  · have hstale : s.timeline.previousThrough.any (call.through < ·) = true := hrefuses
    simp [publish, Apanel.publish, hstale, hrefuses]
  · have hstale : ¬s.timeline.previousThrough.any (call.through < ·) = true := hrefuses
    simp only [publish, Apanel.publish, if_neg hstale, Except.ok.injEq, hrefuses, not_false_eq_true,
      true_and]
    exact eq_comm

theorem exists_publish {s s' : PublishedStream F} {call : PublishCall F}
    (h : s.publish call = .ok s') :
    ∃ stream', Apanel.publish (s.row call) s.timeline call.observations call.start call.through =
      .ok (stream', s'.timeline) := by
  rw [publish] at h
  split at h
  · cases h
  · next stream timeline hpublish =>
    cases h
    exact ⟨stream, hpublish⟩

/-- What an accepted call leaves, or the state a refused call leaves alone. -/
theorem step_cases (s : PublishedStream F) (call : PublishCall F) :
    s.Refuses call ∧ s.step call = s ∨ ¬s.Refuses call ∧ s.publish call = .ok (s.step call) := by
  unfold step
  split
  · next hpublish =>
    by_cases hrefuses : s.Refuses call
    · exact .inl ⟨hrefuses, rfl⟩
    · rw [publish_eq_ok.mpr ⟨hrefuses, rfl⟩] at hpublish
      cases hpublish
  · next s' hpublish => exact .inr ⟨(publish_eq_ok.mp hpublish).1, hpublish⟩

/-! ## Sequence numbers -/

/-- The events are numbered in insertion order, up to the `event_sequence` of the stream. -/
structure Sequenced (s : PublishedStream F) : Prop where
  increasing : s.timeline.events.Pairwise fun a b => a.streamSeq < b.streamSeq
  positive : ∀ event ∈ s.timeline.events, 0 < event.streamSeq
  largest : (s.timeline.events.getLast?.map (·.streamSeq)).getD 0 = s.eventSequence

omit [LinearOrder (Target F)] [DecidableEq F] in
theorem replaceEvents_streamSeq (eventSequence : ℤ) (previousThrough : Option Date)
    (events : List (StateEvent F)) (start : Option Date) (through : Date)
    (new : List (PublishedState F × EventKind)) :
    (replaceEvents eventSequence previousThrough events start through new).map (·.streamSeq) =
      events.map (·.streamSeq) ++ (List.range new.length).map fun i : ℕ => eventSequence + 1 + i := by
  rw [replaceEvents, List.map_append, List.map_map, List.map_map]
  congr 1
  · refine List.map_congr_left fun event _ => ?_
    rw [Function.comp_apply]
    split <;> rfl
  · rw [List.range_eq_range', ← List.zipIdx_map_snd 0 new, List.map_map]
    rfl

omit [DecidableEq F] in
theorem Sequenced.le {s : PublishedStream F} (h : s.Sequenced) {event : StateEvent F}
    (hevent : event ∈ s.timeline.events) : event.streamSeq ≤ s.eventSequence := by
  rw [← h.largest]
  cases hlast : s.timeline.events.getLast? with
  | none => exact absurd (List.getLast?_eq_none_iff.mp hlast) (List.ne_nil_of_mem hevent)
  | some last => exact le_of_getLast? h.increasing hlast hevent

omit [DecidableEq F] in
theorem Sequenced.initial : (initial : PublishedStream F).Sequenced where
  increasing := .nil
  positive _ hevent := absurd hevent List.not_mem_nil
  largest := rfl

omit [DecidableEq F] in
/-- What the sequence numbers of a list of events say of those appended to it. -/
theorem Sequenced.replaceEvents {s : PublishedStream F} (h : s.Sequenced)
    {events : List (StateEvent F)} {n : ℕ}
    (hseq : events.map (·.streamSeq) = s.timeline.events.map (·.streamSeq) ++
      (List.range n).map fun i : ℕ => s.eventSequence + 1 + i) {current stateGeneration} :
    Sequenced ⟨⟨events, current⟩, s.eventSequence + n, stateGeneration⟩ where
  increasing := by
    rw [← List.pairwise_map (f := StateEvent.streamSeq), hseq]
    refine List.pairwise_append.mpr ⟨List.pairwise_map.mpr h.increasing, ?_, ?_⟩
    · refine List.pairwise_map.mpr (List.pairwise_lt_range.imp fun hlt => ?_)
      lia
    · intro a ha b hb
      obtain ⟨event, hevent, rfl⟩ := List.mem_map.mp ha
      obtain ⟨i, -, rfl⟩ := List.mem_map.mp hb
      have := h.le hevent
      lia
  positive := by
    have hnonneg : 0 ≤ s.eventSequence := by
      rw [← h.largest]
      cases hlast : s.timeline.events.getLast? with
      | none => exact le_rfl
      | some last => exact (h.positive last (List.mem_of_getLast? hlast)).le
    intro event hevent
    have hmem := List.mem_map_of_mem (f := StateEvent.streamSeq) hevent
    rw [hseq, List.mem_append] at hmem
    rcases hmem with hmem | hmem
    · obtain ⟨old, hold, heq⟩ := List.mem_map.mp hmem
      exact heq ▸ h.positive old hold
    · obtain ⟨i, -, heq⟩ := List.mem_map.mp hmem
      lia
  largest := by
    rw [← List.getLast?_map, hseq]
    cases n with
    | zero => simpa using h.largest
    | succ n => simp [List.range_succ, ← add_assoc, add_right_comm]

/-- A call keeps the numbering. -/
theorem Sequenced.step {s : PublishedStream F} (h : s.Sequenced) (call : PublishCall F) :
    (s.step call).Sequenced := by
  obtain ⟨-, hstep⟩ | ⟨-, hpublish⟩ := s.step_cases call
  · rw [hstep]
    exact h
  · obtain ⟨-, hs⟩ := publish_eq_ok.mp hpublish
    rw [hs]
    split
    · exact ⟨h.increasing, h.positive, h.largest⟩
    · exact h.replaceEvents (replaceEvents_streamSeq ..)

end PublishedStream

/-! ## Current rows -/

/-- The entry an event leads to, from its kind, status and date. -/
def EventKind.entry (kind : EventKind) (status : StateStatus) (date : Date) : StateEntry :=
  let exact : Bool := kind = .enter ∨ kind = .exit
  { status
    sinceDate := if exact then some date else none
    observedFrom := date
    sinceIsExact := exact }

theorem log_implied {prior : Option StateEntry} {os : List Observation} {event : TimelineEvent}
    (h : event ∈ timelineRecorder.log prior os) :
    event.entry = event.kind.entry event.entry.status event.date := by
  obtain ⟨done, o, rest, -, hstep⟩ := timelineRecorder.mem_log.mp h
  rw [timelineRecorder_step] at hstep
  obtain ⟨kind, hkind, rfl⟩ := Option.map_eq_some_iff.mp hstep
  simp only [observationEntry, hkind]
  split
  · next h => cases h
  · cases kind <;> rfl

/-- Consecutive events have different statuses, the first one and what it follows included. -/
theorem log_alternates (prior : Option StateEntry) (os : List Observation) :
    (timelineRecorder.log prior os).IsChain (fun a b => a.entry.status ≠ b.entry.status) ∧
      ∀ entry ∈ prior, ∀ event ∈ (timelineRecorder.log prior os).head?,
        entry.status ≠ event.entry.status := by
  induction os generalizing prior with
  | nil => simp
  | cons o os ih =>
    obtain ⟨hchain, hhead⟩ := ih (some (observationEntry prior o))
    rw [Recorder.log, timelineRecorder_step]
    cases hkind : observationKind prior o with
    | none =>
      refine ⟨hchain, fun entry hentry event hevent => ?_⟩
      obtain rfl := Option.some.inj (hentry.symm.trans (observationEntry_of_kind hkind))
      exact hhead _ rfl event hevent
    | some kind =>
      simp only [Option.map_some, Option.toList_some, List.singleton_append, List.head?_cons]
      refine ⟨List.isChain_cons.mpr ⟨fun event hevent => hhead _ rfl event hevent, hchain⟩, ?_⟩
      · intro entry hentry event hevent
        obtain rfl := Option.some.inj hevent
        obtain rfl : prior = some entry := hentry
        simp only [observationEntry_status]
        intro hstatus
        simp [observationKind, hstatus] at hkind

theorem log_baseline (os : List Observation) :
    ∀ event ∈ (timelineRecorder.log none os).head?, event.kind = .baseline := by
  cases os with
  | nil => simp
  | cons o os =>
    intro event hevent
    obtain rfl := Option.some.inj hevent
    rfl

/-- Observations as a `StateService` pass produces them: one for each target and date, in the
rewritten range. -/
structure PublishCall.Produced (call : PublishCall F) : Prop where
  inDateOrder : InDateOrder call.observations
  le_through : ∀ row ∈ call.observations, row.tradeDate ≤ call.through
  start_le : ∀ row ∈ call.observations, call.start.all (· ≤ row.tradeDate)

namespace PublishedStream

/-- The current rows mirror the timeline, which is well formed. -/
structure Mirrors (s : PublishedStream F) : Prop where
  current_isSome (target : Target F) :
    (s.timeline.current.get? target).isSome ↔ validOf s.timeline.events target ≠ []
  current_entry {target : Target F} {values : PublishedState F} {event : TimelineEvent} :
    s.timeline.current.get? target = some values →
      (validOf s.timeline.events target).getLast? = some event →
        values.toStateEntry = event.entry ∧ event.date ≤ values.tradeDate
  implied {target : Target F} {event : TimelineEvent} :
    event ∈ validOf s.timeline.events target →
      event.entry = event.kind.entry event.entry.status event.date
  alternates (target : Target F) :
    (validOf s.timeline.events target).IsChain fun a b => a.entry.status ≠ b.entry.status
  baseline (target : Target F) :
    ∀ event ∈ (validOf s.timeline.events target).head?, event.kind = .baseline
  sorted (target : Target F) :
    (validOf s.timeline.events target).Pairwise fun a b => a.date < b.date

/-- A call leaves out no target that has a valid event in the rewritten range. -/
def Covers (s : PublishedStream F) (call : PublishCall F) : Prop :=
  ∀ start ∈ call.start, ∀ event ∈ s.timeline.events, event.valid → start ≤ event.tradeDate →
    ∃ row ∈ call.observations, row.target = event.target

theorem Mirrors.initial : (initial : PublishedStream F).Mirrors where
  current_isSome target := by simp [PublishedStream.initial, validOf, validEvents]
  current_entry h := by simp [PublishedStream.initial] at h
  implied h := by simp [PublishedStream.initial, validOf, validEvents] at h
  alternates target := by simp [PublishedStream.initial, validOf, validEvents]
  baseline target := by simp [PublishedStream.initial, validOf, validEvents]
  sorted target := by simp [PublishedStream.initial, validOf, validEvents]

variable {s s' : PublishedStream F} {call : PublishCall F}

theorem event_mem_validOf {events : List (StateEvent F)} {event : StateEvent F}
    (hevent : event ∈ events) (hvalid : event.valid) :
    event.event ∈ validOf events event.target :=
  List.mem_map_of_mem (List.mem_filter.mpr ⟨hevent, by simp [hvalid]⟩)

/-- The valid events are dated at or before the current rows, so that an accepted call is. -/
theorem Mirrors.le_through (h : s.Mirrors) (hrefuses : ¬s.Refuses call) {event : StateEvent F}
    (hevent : event ∈ s.timeline.events) (hvalid : event.valid) :
    event.tradeDate ≤ call.through := by
  have hmem := event_mem_validOf hevent hvalid
  obtain ⟨values, hvalues⟩ := Option.isSome_iff_exists.mp
    ((h.current_isSome event.target).mpr (List.ne_nil_of_mem hmem))
  cases hlast : (validOf s.timeline.events event.target).getLast? with
  | none => exact absurd (List.getLast?_eq_none_iff.mp hlast) (List.ne_nil_of_mem hmem)
  | some last =>
    calc event.tradeDate
      _ ≤ last.date := le_of_getLast? (h.sorted event.target) hlast hmem
      _ ≤ values.tradeDate := (h.current_entry hvalues hlast).2
      _ ≤ call.through := Timeline.le_of_previousThrough (not_refuses_iff.mp hrefuses) hvalues

variable [DecidableEq F]

/-- The valid events of a target after an accepted call. -/
theorem Mirrors.publish_validOf (h : s.Mirrors) (hcall : call.Produced)
    (hpublish : s.publish call = .ok s') (target : Target F) :
    validOf s'.timeline.events target = keptOf s.timeline.events call.start target ++
      timelineRecorder.log ((keptOf s.timeline.events call.start target).getLast?.map (·.entry))
        (observationsOf call.observations target) := by
  obtain ⟨stream', hpublish'⟩ := exists_publish hpublish
  exact Apanel.publish_validOf hpublish' hcall.inDateOrder
    (fun event hevent hvalid => h.le_through (publish_eq_ok.mp hpublish).1 hevent hvalid) target
    (h.sorted target)

/-- The current row of a target after an accepted call. -/
theorem Mirrors.publish_current (h : s.Mirrors) (hcall : call.Produced)
    (hpublish : s.publish call = .ok s') (target : Target F) :
    s'.timeline.current.get? target =
      ((call.observations.filter (·.target = target)).getLast?.bind fun row =>
        (timelineRecorder.final ((keptOf s.timeline.events call.start target).getLast?.map (·.entry))
          (observationsOf call.observations target)).map (row.published call.sourceRevision)).or
        (if call.start.isNone then none else s.timeline.current.get? target) := by
  obtain ⟨stream', hpublish'⟩ := exists_publish hpublish
  exact Apanel.publish_current hpublish' hcall.inDateOrder target (h.sorted target)

omit [DecidableEq F] in
/-- The kept events are an initial part of the valid ones. -/
theorem Mirrors.validOf_eq (h : s.Mirrors) (start : Option Date) (target : Target F) :
    validOf s.timeline.events target = keptOf s.timeline.events start target ++
      (validOf s.timeline.events target).filter fun event => start.all (· ≤ event.date) := by
  have hsplit := filter_append_filter_not (p := fun day : Date => !start.all (· ≤ day))
    (before_downward start) (h.sorted target)
  simpa [keptOf] using hsplit.symm

/-- The timeline of a target stays well formed under any call. -/
theorem Mirrors.publish_wellFormed (h : s.Mirrors) (hcall : call.Produced)
    (hpublish : s.publish call = .ok s') (target : Target F) :
    (∀ event ∈ validOf s'.timeline.events target,
        event.entry = event.kind.entry event.entry.status event.date) ∧
      ((validOf s'.timeline.events target).IsChain fun a b => a.entry.status ≠ b.entry.status) ∧
      (∀ event ∈ (validOf s'.timeline.events target).head?, event.kind = .baseline) ∧
      (validOf s'.timeline.events target).Pairwise fun a b => a.date < b.date := by
  have hvalid := h.validOf_eq call.start target
  have hnew := h.publish_validOf hcall hpublish target
  have hbefore : ∀ event ∈ keptOf s.timeline.events call.start target,
      (!call.start.all (· ≤ event.date)) = true := fun event hevent => (List.mem_filter.mp hevent).2
  generalize keptOf s.timeline.events call.start target = kept at hvalid hnew hbefore
  have himplied : ∀ event ∈ kept, event.entry = event.kind.entry event.entry.status event.date :=
    fun event hevent => h.implied (hvalid ▸ List.mem_append_left _ hevent)
  have hchain := h.alternates target
  have hbaseline := h.baseline target
  have hsorted := h.sorted target
  rw [hvalid] at hchain hbaseline hsorted
  rw [hnew]
  obtain ⟨halternates, hhead⟩ := log_alternates (kept.getLast?.map (·.entry))
    (observationsOf call.observations target)
  refine ⟨fun event hevent => ?_, ?_, ?_, ?_⟩
  · rcases List.mem_append.mp hevent with hevent | hevent
    · exact himplied event hevent
    · exact log_implied hevent
  · refine List.isChain_append.mpr ⟨hchain.left_of_append, halternates, ?_⟩
    intro last hlast event hevent
    exact hhead last.entry (Option.map_eq_some_iff.mpr ⟨last, hlast, rfl⟩) event hevent
  · intro event hevent
    cases kept with
    | nil => exact log_baseline _ event hevent
    | cons first rest => exact hbaseline event hevent
  · refine List.pairwise_append.mpr ⟨(List.pairwise_append.mp hsorted).1, ?_, ?_⟩
    · exact timelineRecorder.log_sorted (hcall.inDateOrder.observationsOf_sorted target) _
    · intro a ha b hb
      obtain ⟨o, ho, hdate⟩ := timelineRecorder.exists_of_mem_log hb
      obtain ⟨row, hrow, -, rfl⟩ := mem_observationsOf.mp ho
      have hstart := hcall.start_le row hrow
      have hbefore := hbefore a ha
      change b.date = row.tradeDate at hdate
      cases hcallStart : call.start with
      | none => simp [hcallStart] at hbefore
      | some start =>
        simp only [hcallStart, Option.all_some, decide_eq_true_eq, Bool.not_eq_true',
          decide_eq_false_iff_not, not_le] at hstart hbefore
        order

/-- The current row of an observed target is that of its last valid event. -/
theorem Mirrors.publish_observed (h : s.Mirrors) (hcall : call.Produced)
    (hpublish : s.publish call = .ok s') {row : StateRow F} (hrow : row ∈ call.observations) :
    ∃ values event, s'.timeline.current.get? row.target = some values ∧
      (validOf s'.timeline.events row.target).getLast? = some event ∧
        values.toStateEntry = event.entry ∧ event.date ≤ values.tradeDate := by
  have hmem : row ∈ call.observations.filter (·.target = row.target) :=
    List.mem_filter.mpr ⟨hrow, by simp⟩
  have hnew := h.publish_validOf hcall hpublish row.target
  have hcurrent := h.publish_current hcall hpublish row.target
  cases hlast : (call.observations.filter (·.target = row.target)).getLast? with
  | none => exact absurd (List.getLast?_eq_none_iff.mp hlast) (List.ne_nil_of_mem hmem)
  | some last =>
    set kept := keptOf s.timeline.events call.start row.target with hkept
    have hobserved : observationsOf call.observations row.target ≠ [] :=
      fun hnil => List.ne_nil_of_mem hmem (List.map_eq_nil_iff.mp hnil)
    obtain ⟨entry, hfinal⟩ :=
      timelineRecorder.exists_final_of_ne_nil (kept.getLast?.map (·.entry)) hobserved
    have hmap : (validOf s'.timeline.events row.target).getLast?.map (·.entry) = some entry := by
      rw [hnew, List.getLast?_append, ← hfinal, timelineRecorder.final_eq, Option.map_or]
      rfl
    obtain ⟨event, hevent, rfl⟩ := Option.map_eq_some_iff.mp hmap
    rw [hlast, Option.bind_some, hfinal, Option.map_some, Option.some_or] at hcurrent
    refine ⟨_, event, hcurrent, hevent, rfl, ?_⟩
    -- the last event is a kept one, or that of an observation not after the last
    have hlastRow := List.mem_filter.mp (List.mem_of_getLast? hlast)
    rw [hnew] at hevent
    rcases List.mem_append.mp (List.mem_of_getLast? hevent) with hbefore | hlogged
    · have hstart := hcall.start_le last hlastRow.1
      have hbefore := (List.mem_filter.mp hbefore).2
      cases hcallStart : call.start with
      | none => simp [hcallStart] at hbefore
      | some start =>
        simp only [hcallStart, Option.all_some, decide_eq_true_eq, Bool.not_eq_true',
          decide_eq_false_iff_not, not_le] at hstart hbefore
        exact (hbefore.trans_le hstart).le
    · obtain ⟨o, ho, hdate⟩ := timelineRecorder.exists_of_mem_log hlogged
      obtain ⟨observed, hobserved, htarget, rfl⟩ := mem_observationsOf.mp ho
      change event.date = observed.tradeDate at hdate
      rw [hdate]
      have hmem : observed ∈ call.observations.filter (·.target = row.target) :=
        List.mem_filter.mpr ⟨hobserved, by simp [htarget]⟩
      exact le_of_getLast? (hcall.inDateOrder row.target) hlast hmem

/-- A target that is not observed keeps its current row, but only its events before the start. -/
theorem Mirrors.publish_unobserved (h : s.Mirrors) (hcall : call.Produced)
    (hpublish : s.publish call = .ok s') {target : Target F}
    (hunobserved : ∀ row ∈ call.observations, row.target ≠ target) :
    validOf s'.timeline.events target = keptOf s.timeline.events call.start target ∧
      s'.timeline.current.get? target =
        if call.start.isNone then none else s.timeline.current.get? target := by
  have hnone : call.observations.filter (·.target = target) = [] :=
    List.filter_eq_nil_iff.mpr fun row hrow => by simp [hunobserved row hrow]
  rw [h.publish_validOf hcall hpublish, h.publish_current hcall hpublish, observationsOf, hnone]
  exact ⟨List.append_nil _, rfl⟩

/-- Current rows that still mirror the timeline after a call: it observes every target whose events
it replaces. -/
theorem Mirrors.covers (h : s.Mirrors) (hcall : call.Produced) (hpublish : s.publish call = .ok s')
    (h' : s'.Mirrors) : s.Covers call := by
  intro start hstart event hevent hvalid hdate
  by_contra hunobserved
  have hunobserved : ∀ row ∈ call.observations, row.target ≠ event.target :=
    fun row hrow htarget => hunobserved ⟨row, hrow, htarget⟩
  have hstart : call.start = some start := hstart
  obtain ⟨hkept, hcurrent⟩ := h.publish_unobserved hcall hpublish hunobserved
  rw [hstart] at hkept hcurrent
  have hmem := event_mem_validOf hevent hvalid
  obtain ⟨values, hvalues⟩ := Option.isSome_iff_exists.mp
    ((h.current_isSome event.target).mpr (List.ne_nil_of_mem hmem))
  have hvalues' : s'.timeline.current.get? event.target = some values := hcurrent.trans hvalues
  -- the row is that of the last valid event, before and after: both are observed from its date
  cases hlast : (validOf s.timeline.events event.target).getLast? with
  | none => exact absurd (List.getLast?_eq_none_iff.mp hlast) (List.ne_nil_of_mem hmem)
  | some last =>
  cases hlast' : (validOf s'.timeline.events event.target).getLast? with
  | none =>
    have hne := (h'.current_isSome event.target).mp (by rw [hvalues']; rfl)
    exact absurd (List.getLast?_eq_none_iff.mp hlast') hne
  | some last' =>
    have hdates : last.date = last'.date := by
      have himplied := congrArg StateEntry.observedFrom (h.implied (List.mem_of_getLast? hlast))
      have himplied' := congrArg StateEntry.observedFrom (h'.implied (List.mem_of_getLast? hlast'))
      rw [← (h.current_entry hvalues hlast).1] at himplied
      rw [← (h'.current_entry hvalues' hlast').1] at himplied'
      exact himplied.symm.trans himplied'
    have hbefore : last'.date < start := by
      have hmem' := List.mem_of_getLast? hlast'
      rw [hkept] at hmem'
      simpa using (List.mem_filter.mp hmem').2
    have hafter : event.event.date ≤ last.date := le_of_getLast? (h.sorted event.target) hlast hmem
    change event.tradeDate ≤ last.date at hafter
    order

/-- A target is observed, or dropped by a full rebuild, or left alone. -/
theorem Mirrors.publish_cases (h : s.Mirrors) (hcall : call.Produced)
    (hpublish : s.publish call = .ok s') (hcovers : s.Covers call) (target : Target F) :
    (∃ row ∈ call.observations, row.target = target) ∨
      s'.timeline.current.get? target = none ∧ validOf s'.timeline.events target = [] ∨
      s'.timeline.current.get? target = s.timeline.current.get? target ∧
        validOf s'.timeline.events target = validOf s.timeline.events target := by
  by_cases hobserved : ∃ row ∈ call.observations, row.target = target
  · exact .inl hobserved
  · obtain ⟨hkept, hcurrent⟩ := h.publish_unobserved hcall hpublish fun row hrow htarget =>
      hobserved ⟨row, hrow, htarget⟩
    cases hstart : call.start with
    | none =>
      rw [hstart] at hkept hcurrent
      exact .inr (.inl ⟨hcurrent, hkept.trans (by simp [keptOf])⟩)
    | some start =>
      rw [hstart] at hkept hcurrent
      refine .inr (.inr ⟨hcurrent, hkept.trans (List.filter_eq_self.mpr fun event hevent => ?_)⟩)
      obtain ⟨stored, hstored, rfl⟩ := List.mem_map.mp hevent
      obtain ⟨hmem, hselected⟩ := List.mem_filter.mp hstored
      simp only [Bool.and_eq_true, decide_eq_true_eq] at hselected
      refine (Bool.not_eq_true' _).mpr (decide_eq_false fun hdate => ?_)
      obtain ⟨row, hrow, htarget⟩ := hcovers start hstart stored hmem hselected.1 hdate
      exact hobserved ⟨row, hrow, htarget.trans hselected.2⟩

theorem Mirrors.publish (h : s.Mirrors) (hcall : call.Produced) (hpublish : s.publish call = .ok s')
    (hcovers : s.Covers call) : s'.Mirrors := by
  have hcases := h.publish_cases hcall hpublish hcovers
  have hwf := h.publish_wellFormed hcall hpublish
  refine ⟨fun target => ?_, fun {target values event} hvalues hevent => ?_,
    fun {target event} hevent => (hwf target).1 event hevent, fun target => (hwf target).2.1,
    fun target => (hwf target).2.2.1, fun target => (hwf target).2.2.2⟩
  · obtain ⟨row, hrow, rfl⟩ | ⟨hcurrent, hevents⟩ | ⟨hcurrent, hevents⟩ := hcases target
    · obtain ⟨values, event, hvalues, hevent, -⟩ := h.publish_observed hcall hpublish hrow
      simp only [hvalues, Option.isSome_some, true_iff]
      exact List.ne_nil_of_mem (List.mem_of_getLast? hevent)
    · simp [hcurrent, hevents]
    · rw [hcurrent, hevents]
      exact h.current_isSome target
  · obtain ⟨row, hrow, rfl⟩ | ⟨hcurrent, hevents⟩ | ⟨hcurrent, hevents⟩ := hcases target
    · obtain ⟨values', event', hvalues', hevent', hentry⟩ := h.publish_observed hcall hpublish hrow
      obtain rfl := Option.some.inj (hvalues.symm.trans hvalues')
      obtain rfl := Option.some.inj (hevent.symm.trans hevent')
      exact hentry
    · simp [hcurrent] at hvalues
    · rw [hcurrent] at hvalues
      rw [hevents] at hevent
      exact h.current_entry hvalues hevent

/-- An accepted call keeps the current rows a mirror of the timeline exactly if it observes every
target whose events it replaces. -/
theorem Mirrors.publish_iff (h : s.Mirrors) (hcall : call.Produced)
    (hpublish : s.publish call = .ok s') : s'.Mirrors ↔ s.Covers call :=
  ⟨h.covers hcall hpublish, h.publish hcall hpublish⟩

/-- In every run of publications, each of which observes the targets whose events it replaces, the
current rows mirror the timeline and the events are numbered in insertion order. -/
theorem mirrors_of_covers {calls : List (PublishCall F)}
    (h : Always step (fun s call => call.Produced ∧ (¬s.Refuses call → s.Covers call))
      PublishedStream.initial calls) :
    (run step PublishedStream.initial calls).Mirrors ∧
      (run step PublishedStream.initial calls).Sequenced := by
  have hstep (s : PublishedStream F) (call : PublishCall F) (hs : s.Mirrors ∧ s.Sequenced)
      (hcall : call.Produced ∧ (¬s.Refuses call → s.Covers call)) :
      (s.step call).Mirrors ∧ (s.step call).Sequenced := by
    refine ⟨?_, hs.2.step call⟩
    obtain ⟨-, hstep⟩ | ⟨haccepted, hpublish⟩ := s.step_cases call
    · rw [hstep]
      exact hs.1
    · exact hs.1.publish hcall.1 hpublish (hcall.2 haccepted)
  exact run_invariant hstep ⟨.initial, .initial⟩ h

end PublishedStream

instance (s : PublishedStream F) (call : PublishCall F) : Decidable (s.Refuses call) :=
  inferInstanceAs (Decidable (_ = true))

instance (s : PublishedStream F) (call : PublishCall F) : Decidable (s.Covers call) :=
  inferInstanceAs (Decidable (∀ start ∈ call.start, _))

/-! ## What a pass observes -/

/-- Observations of one target have increasing dates. -/
theorem inDateOrder_iff {rows : List (StateRow F)} :
    InDateOrder rows ↔ rows.Pairwise fun a b => a.target = b.target → a.tradeDate < b.tradeDate := by
  constructor
  · intro h
    induction rows with
    | nil => exact .nil
    | cons row rows ih =>
      refine List.pairwise_cons.mpr ⟨fun later hlater htarget => ?_, ih fun target => ?_⟩
      · have hfirst := h row.target
        rw [List.filter_cons_of_pos (by simp), List.pairwise_cons] at hfirst
        exact hfirst.1 later (List.mem_filter.mpr ⟨hlater, by simp [htarget]⟩)
      · exact (h target).sublist ((List.sublist_cons_self ..).filter _)
  · intro h target
    refine (h.filter _).imp_of_mem fun ha hb hlt => hlt ?_
    have ha := of_decide_eq_true (List.mem_filter.mp ha).2
    exact ha.trans (of_decide_eq_true (List.mem_filter.mp hb).2).symm

instance (call : PublishCall F) : Decidable call.Produced :=
  decidable_of_iff
    ((call.observations.Pairwise fun a b => a.target = b.target → a.tradeDate < b.tradeDate) ∧
      (∀ row ∈ call.observations, row.tradeDate ≤ call.through) ∧
      ∀ row ∈ call.observations, call.start.all (· ≤ row.tradeDate))
    ⟨fun h => ⟨inDateOrder_iff.mpr h.1, h.2.1, h.2.2⟩,
      fun h => ⟨inDateOrder_iff.mp h.1, h.2, h.3⟩⟩

end Runs

section Passes

variable {F : Type} [Arith F] [LinearOrder (IndicatorRequest F)] [LinearOrder (Target F)]

/-- The rows of one date of a pass have distinct targets. -/
theorem Pass.step_rows (pass : Pass F) (s : PassState F) (day : Date) (row : SnapshotRow F) :
    ∃ new, (pass.step s day row).rows = s.rows ++ new ∧ (new.map (·.target)).Nodup ∧
      ∀ r ∈ new, r.tradeDate = day := by
  have htarget (item : WorkItem F) : (observeItem day (pass.calendar.previousOpenDate day) pass.close
      (pass.priorStatus s (pass.calendar.previousOpenDate day) item.target)
      (s.memory.get? item.target) item).1.target = item.target := (observeItem_target ..).1
  have hitems : ((pass.items day row).map (·.target)).Nodup := by
    rw [Pass.items, workItems_filter]
    exact (workItems_nodup row _).sublist ((List.filter_sublist ..).map _)
  refine ⟨_, List.append_assoc .., ?_, fun r hr => ?_⟩
  · simp only [List.map_append, List.map_map, Function.comp_def, htarget, missingRow, List.map_id']
    refine List.nodup_append'.mpr ⟨hitems, (s.known.keys_sorted.imp ne_of_lt).filter _, ?_⟩
    intro target hpresent hmissing
    have habsent := of_decide_eq_true (List.mem_filter.mp hmissing).2
    exact habsent hpresent
  · simp only [List.mem_append, List.mem_map] at hr
    obtain ⟨-, ⟨item, -, rfl⟩, rfl⟩ | ⟨target, -, rfl⟩ := hr
    · exact (observeItem_target ..).2
    · rfl

/-- The rows of a pass are those of its dates, in date order. -/
theorem Pass.run_rows {pass : Pass F} {maxRows : Option ℕ} {s s' : PassState F}
    {days : List (Date × SnapshotRow F)} (hdays : (days.map (·.1)).Pairwise (· < ·))
    (h : pass.run maxRows s days = .ok s') :
    ∃ new, s'.rows = s.rows ++ new ∧
      (new.Pairwise fun a b => a.target = b.target → a.tradeDate < b.tradeDate) ∧
      ∀ row ∈ new, row.tradeDate ∈ days.map (·.1) := by
  induction days generalizing s with
  | nil =>
    cases h
    exact ⟨[], by simp⟩
  | cons day days ih =>
    obtain ⟨hfirst, hrest⟩ := List.pairwise_cons.mp hdays
    rw [Pass.run] at h
    split at h
    · cases h
    · obtain ⟨later, hlater, hpairwise, hdates⟩ := ih hrest h
      obtain ⟨today, htoday, hnodup, hdate⟩ := pass.step_rows s day.1 day.2
      refine ⟨today ++ later, by rw [hlater, htoday, List.append_assoc], ?_, fun row hrow => ?_⟩
      · refine List.pairwise_append.mpr ⟨?_, hpairwise, fun a ha b hb _ => ?_⟩
        · exact (List.pairwise_map.mp hnodup).imp fun hne htarget => absurd htarget hne
        · rw [hdate a ha]
          exact hfirst _ (hdates b hb)
      · rcases List.mem_append.mp hrow with hrow | hrow
        · exact hdate row hrow ▸ List.mem_cons_self
        · exact List.mem_cons_of_mem _ (hdates row hrow)

/-- The observations of a pass, published from its start through its last date. -/
theorem StateInput.observations_produced {input : StateInput F} {filter : StateFilter F}
    {persistFrom : Option Date} {through : Date} {maxRows : Option ℕ} {rows : List (StateRow F)}
    (h : input.observations filter persistFrom (some through) maxRows = .ok rows)
    (sourceRevision : ℤ) :
    PublishCall.Produced ⟨sourceRevision, rows, persistFrom, through⟩ := by
  unfold StateInput.observations at h
  dsimp only at h
  split at h
  · cases h
  obtain ⟨s', hrun, rfl⟩ := Except.map_eq_ok.mp h
  obtain ⟨new, hnew, hpairwise, hdates⟩ := Pass.run_rows (Table.keys_sorted _) hrun
  rw [List.nil_append] at hnew
  have hwindow (row : StateRow F) (hrow : row ∈ s'.rows) :
      persistFrom.all (· ≤ row.tradeDate) ∧ row.tradeDate ≤ through := by
    have hkey := Table.mem_keys_window.mp (hdates row (hnew ▸ hrow))
    have hread := Table.mem_keys_window.mp hkey.1
    exact ⟨hkey.2.1, by simpa using hread.2.2⟩
  exact ⟨inDateOrder_iff.mpr (hnew ▸ hpairwise), fun row hrow => (hwindow row hrow).2,
    fun row hrow => (hwindow row hrow).1⟩

end Passes

/-! ## A target that vanishes

The moving averages of two and three days have their first snapshot on day 2. Without the bar of
day 1, the rebuild from day 1 has none of them: it invalidates their events and leaves their current
rows behind. -/

def vanishingInput (bars : Bars) (stateThrough : Option Date) (events : List (StateEvent Ranged)) :
    StateInput Ranged :=
  let requests : List (IndicatorRequest Ranged) :=
    [.ma ⟨[Period.of 1], by decide, by decide, by decide⟩,
      .ma ⟨[Period.of 2, Period.of 3], by decide, by decide, by decide⟩]
  { snapshots := match rebuildIndicators ∅ bars requests none none none with
      | .ok (_, snapshots) => snapshots
      | .error _ => ∅
    bars, calendar := Table.ofList [(1, .opened), (2, .opened)], stateThrough, events }

def vanishingTarget : Target Ranged := ⟨.maCrossUp, .maPair 2 3⟩

/-- A first publication, and one from its day that revises it. -/
def twoDayCalls : List (PublishCall Ranged) :=
  let row (day : Date) (status : StateStatus) : StateRow Ranged :=
    ⟨day, vanishingTarget, status, ⟨status = .active, false, none, [], [], none⟩⟩
  [⟨1, [row 1 .inactive], none, 1⟩, ⟨2, [row 1 .active, row 2 .inactive], some 1, 2⟩]

theorem mirrors_of_covers_twoDays :
    (run PublishedStream.step PublishedStream.initial twoDayCalls).Mirrors ∧
      (run PublishedStream.step PublishedStream.initial twoDayCalls).Sequenced :=
  PublishedStream.mirrors_of_covers (by decide +kernel)

/-- The calls publish what a pass over the timeline they find observes. -/
def FromPasses {F : Type} [Arith F] [DecidableEq F] [LinearOrder (IndicatorRequest F)]
    [LinearOrder (Target F)] (calls : List (PublishCall F)) : Prop :=
  ∀ before call after, calls = before ++ call :: after → ∃ input : StateInput F,
    input.events = (run PublishedStream.step PublishedStream.initial before).timeline.events ∧
      input.observations {} call.start (some call.through) none = .ok call.observations

/-- The call of a pass over `input`. -/
def vanishingCall (input : StateInput Ranged) (revision : ℤ) (start : Option Date) :
    PublishCall Ranged :=
  ⟨revision, (input.observations {} start (some 2) none).toOption.getD [], start, 2⟩

theorem vanishingCall_observations {input : StateInput Ranged} {revision : ℤ} {start : Option Date}
    (h : (input.observations {} start (some 2) none).toOption.isSome) :
    input.observations {} (vanishingCall input revision start).start
      (some (vanishingCall input revision start).through) none =
        .ok (vanishingCall input revision start).observations := by
  simp only [vanishingCall]
  cases hobservations : input.observations {} start (some 2) none with
  | error error =>
    rw [hobservations] at h
    cases h
  | ok rows => rfl

def bothBars : StateInput Ranged :=
  vanishingInput (Table.ofList [(1, flatBar 10), (2, flatBar 10)]) none []

def secondBar : StateInput Ranged :=
  vanishingInput (Table.ofList [(2, flatBar 10)]) (some 2)
    (PublishedStream.initial.step (vanishingCall bothBars 1 none)).timeline.events

theorem not_mirrors_vanishing : ∃ calls : List (PublishCall Ranged), FromPasses calls ∧
    ¬(run PublishedStream.step PublishedStream.initial calls).Mirrors := by
  have hfirst : (bothBars.observations {} none (some 2) none).toOption.isSome := by decide +kernel
  have hsecond : (secondBar.observations {} (some 1) (some 2) none).toOption.isSome := by
    decide +kernel
  refine ⟨[vanishingCall bothBars 1 none, vanishingCall secondBar 2 (some 1)], ?_, fun h => ?_⟩
  · intro before call after hsplit
    match before with
    | [] =>
      obtain ⟨hcall, -⟩ := List.cons.inj hsplit
      rw [← hcall]
      exact ⟨bothBars, by simp only [run_nil, bothBars, vanishingInput, PublishedStream.initial],
        vanishingCall_observations hfirst⟩
    | [first] =>
      obtain ⟨hcall₁, hrest⟩ := List.cons.inj hsplit
      obtain ⟨hcall₂, -⟩ := List.cons.inj hrest
      rw [← hcall₁, ← hcall₂]
      refine ⟨secondBar, by simp only [run_cons, run_nil, secondBar, vanishingInput], ?_⟩
      exact vanishingCall_observations hsecond
    | _ :: _ :: before => simp at hsplit
  · have hevents := (h.current_isSome vanishingTarget).mp (by decide +kernel)
    exact hevents (by decide +kernel)

end Apanel
