import Apanel.Backend.Publication

/-!
# Restatements

Events are never removed, and a call appends the events of its loop, in the order of publication.
An event counts as live only after the cutoff of the current rows, so that the whole history of
insertions has one live event for a target and date (`restatement_once`).
-/

namespace Apanel

variable {F : Type} [LinearOrder (Target F)]

/-- One observation for each target and date. -/
def PublishCall.OnePerDay (call : PublishCall F) : Prop :=
  (call.observations.map fun row => (row.tradeDate, row.target)).Nodup

/-- The last observation is dated the day the call succeeds through. -/
def PublishCall.EndsThrough (call : PublishCall F) : Prop :=
  (call.observations.map (·.tradeDate)).max? = some call.through

omit [LinearOrder (Target F)] in
theorem PublishCall.EndsThrough.le {call : PublishCall F} (h : call.EndsThrough) :
    ∀ row ∈ call.observations, row.tradeDate ≤ call.through := fun _ hrow =>
  (List.max?_eq_some_iff.mp h).2 _ (List.mem_map_of_mem hrow)

theorem orderedObservations_perm (rows : List (StateRow F)) :
    (orderedObservations rows).Perm rows :=
  List.perm_insertionSort _ rows

theorem mem_orderedObservations {rows : List (StateRow F)} {row : StateRow F} :
    row ∈ orderedObservations rows ↔ row ∈ rows :=
  (orderedObservations_perm rows).mem_iff

theorem precedes_trans {a b c : Date} {x y z : Target F} (h : precedes a b x y)
    (h' : precedes b c y z) : precedes a c x z := by
  rcases h with h | ⟨hd, ht⟩ <;> rcases h' with h' | ⟨hd', ht'⟩
  · exact .inl (h.trans h')
  · exact .inl (h.trans_eq hd')
  · exact .inl (hd.trans_lt h')
  · exact .inr ⟨hd.trans hd', ht.trans ht'⟩

theorem precedes_total (date date' : Date) (target target' : Target F) :
    precedes date date' target target' ∨ precedes date' date target' target := by
  rcases lt_trichotomy date date' with h | rfl | h
  · exact .inl (.inl h)
  · exact (le_total target target').imp (fun h => .inr ⟨rfl, h⟩) fun h => .inr ⟨rfl, h⟩
  · exact .inr (.inl h)

/-- The order of publication, by date and then by target. -/
theorem orderedObservations_sorted (rows : List (StateRow F)) :
    (orderedObservations rows).Pairwise fun a b =>
      precedes a.tradeDate b.tradeDate a.target b.target := by
  have : IsTrans (StateRow F) fun a b => precedes a.tradeDate b.tradeDate a.target b.target :=
    ⟨fun _ _ _ => precedes_trans⟩
  have : Std.Total fun a b : StateRow F => precedes a.tradeDate b.tradeDate a.target b.target :=
    ⟨fun a b => precedes_total ..⟩
  exact List.pairwise_insertionSort _ rows

/-! ## The events of a call -/

/-- The events the loop of `publish` makes of observations, from the entries of the targets. -/
def recorded (revision : ℤ) (current : Table (Target F) StateEntry) (rows : List (StateRow F)) :
    List (PublishedState F × EventKind) :=
  (rows.foldl (publishRow revision) { current, last := ∅, events := [] }).events

theorem foldl_publishRow_events (revision : ℤ) (s : PublishState F) (rows : List (StateRow F)) :
    (rows.foldl (publishRow revision) s).events =
      s.events ++ recorded revision s.current rows := by
  induction rows generalizing s with
  | nil => exact (List.append_nil _).symm
  | cons row rows ih =>
    rw [recorded, List.foldl_cons, List.foldl_cons, ih, ih (publishRow _ _ row), ← List.append_assoc]
    rfl

theorem recorded_cons (revision : ℤ) (current : Table (Target F) StateEntry) (row : StateRow F)
    (rows : List (StateRow F)) :
    recorded revision current (row :: rows) =
      ((eventKind (current.get? row.target) row).map
        (publishedState revision (current.get? row.target) row, ·)).toList ++
      recorded revision (publishRow revision ⟨current, ∅, []⟩ row).current rows := by
  rw [recorded, List.foldl_cons, foldl_publishRow_events]
  rfl

/-- The events a call makes are on its observations, in the order of publication. -/
theorem recorded_slots (revision : ℤ) (current : Table (Target F) StateEntry)
    (rows : List (StateRow F)) :
    ((recorded revision current rows).map fun event => (event.1.tradeDate, event.1.target)).Sublist
      (rows.map fun row => (row.tradeDate, row.target)) := by
  induction rows generalizing current with
  | nil => exact .slnil
  | cons row rows ih =>
    rw [recorded_cons, List.map_append, List.map_cons]
    cases eventKind (current.get? row.target) row with
    | none => exact (ih _).cons _
    | some kind => exact (ih _).cons_cons _

theorem folded_events (s : PublishedStream F) (call : PublishCall F) :
    (s.folded call).events = recorded call.sourceRevision (anchors s.timeline.events call.start)
      (orderedObservations call.observations) := rfl

/-! ## The cutoff of the current rows -/

theorem Timeline.previousThrough_eq_some {timeline : Timeline F} {day : Date} :
    timeline.previousThrough = some day ↔
      (∃ target state, timeline.current.get? target = some state ∧ state.tradeDate = day) ∧
        ∀ target state, timeline.current.get? target = some state → state.tradeDate ≤ day := by
  rw [Timeline.previousThrough, List.max?_eq_some_iff]
  constructor
  · rintro ⟨hmem, hle⟩
    obtain ⟨⟨target, state⟩, hrow, rfl⟩ := List.mem_map.mp hmem
    exact ⟨⟨target, state, Table.get?_eq_some.mpr hrow, rfl⟩, fun target' state' hstate' =>
      hle _ (List.mem_map.mpr ⟨(target', state'), Table.get?_eq_some.mp hstate', rfl⟩)⟩
  · rintro ⟨⟨target, state, hstate, rfl⟩, hle⟩
    refine ⟨List.mem_map.mpr ⟨(target, state), Table.get?_eq_some.mp hstate, rfl⟩, ?_⟩
    intro day hday
    obtain ⟨⟨target', state'⟩, hrow, rfl⟩ := List.mem_map.mp hday
    exact hle target' state' (Table.get?_eq_some.mpr hrow)

namespace PublishedStream

variable [DecidableEq F] {s s' : PublishedStream F} {call : PublishCall F}

/-- The date of the current row of a target after an accepted call: that of its last observation, or
else the one it had. -/
theorem publish_current_date (h : s.publish call = .ok s') (target : Target F) :
    (s'.timeline.current.get? target).map (·.tradeDate) =
      (((orderedObservations call.observations).filter (·.target = target)).getLast?.map
        (·.tradeDate)).or
          (if call.start.isNone then none
            else (s.timeline.current.get? target).map (·.tradeDate)) := by
  obtain ⟨-, rfl⟩ := publish_eq_ok.mp h
  rw [Table.get?_insertMany_table, Option.map_or, folded, foldObservations, foldl_publishRow_last]
  congr 1
  · cases hlast : ((orderedObservations call.observations).filter (·.target = target)).getLast? with
    | none => rfl
    | some row =>
      have hne : observationsOf (orderedObservations call.observations) target ≠ [] := by
        intro hnil
        rw [List.map_eq_nil_iff.mp hnil] at hlast
        cases hlast
      obtain ⟨entry, hentry⟩ := timelineRecorder.exists_final_of_ne_nil
        ((anchors s.timeline.events call.start).get? target) hne
      rw [hentry]
      rfl
  · split <;> simp

/-- A target is observed, and its current row dated its last observation, or it keeps its row. -/
theorem publish_current_cases (h : s.publish call = .ok s') {target : Target F}
    {state : PublishedState F} (hstate : s'.timeline.current.get? target = some state) :
    (∃ row ∈ call.observations, row.target = target ∧ row.tradeDate = state.tradeDate) ∧
        (∀ row ∈ call.observations, row.target = target → row.tradeDate ≤ state.tradeDate) ∨
      (∀ row ∈ call.observations, row.target ≠ target) ∧ call.start.isSome ∧
        (s.timeline.current.get? target).map (·.tradeDate) = some state.tradeDate := by
  have hdate := publish_current_date h target
  rw [hstate, Option.map_some] at hdate
  cases hlast : ((orderedObservations call.observations).filter (·.target = target)).getLast? with
  | none =>
    rw [hlast, Option.map_none, Option.none_or] at hdate
    refine .inr ⟨fun row hrow htarget => ?_, ?_⟩
    · have hnil := List.filter_eq_nil_iff.mp (List.getLast?_eq_none_iff.mp hlast) row
        (mem_orderedObservations.mpr hrow)
      exact hnil (by simpa using htarget)
    · cases hstart : call.start <;> simp_all
  | some last =>
    rw [hlast, Option.map_some, Option.some_or, Option.some.injEq] at hdate
    obtain ⟨hmem, htarget⟩ := List.mem_filter.mp (List.mem_of_getLast? hlast)
    refine .inl ⟨⟨last, mem_orderedObservations.mp hmem, by simpa using htarget, hdate.symm⟩,
      fun row hrow hrowTarget => ?_⟩
    have hsorted : ((orderedObservations call.observations).filter (·.target = target)).Pairwise
        fun a b => a.tradeDate ≤ b.tradeDate := by
      refine ((orderedObservations_sorted call.observations).filter _).imp ?_
      rintro a b (hlt | ⟨heq, -⟩)
      · exact hlt.le
      · exact heq.le
    obtain ⟨init, hinit⟩ := List.getLast?_eq_some_iff.mp hlast
    rw [hinit] at hsorted
    have hrowMem : row ∈ init ++ [last] := by
      rw [← hinit]
      exact List.mem_filter.mpr ⟨mem_orderedObservations.mpr hrow, by simpa using hrowTarget⟩
    rw [hdate]
    rcases List.mem_append.mp hrowMem with hrowInit | hrowLast
    · exact (List.pairwise_append.mp hsorted).2.2 row hrowInit last (List.mem_singleton_self _)
    · rw [List.mem_singleton.mp hrowLast]

omit [DecidableEq F] in
theorem le_of_accepted (h : ¬s.Refuses call) {target : Target F} {day : Date}
    (hday : (s.timeline.current.get? target).map (·.tradeDate) = some day) : day ≤ call.through := by
  obtain ⟨state, hstate, rfl⟩ := Option.map_eq_some_iff.mp hday
  exact Timeline.le_of_previousThrough (not_refuses_iff.mp h) hstate

/-- The current row of an observed target. -/
theorem exists_current (h : s.publish call = .ok s') {row : StateRow F}
    (hrow : row ∈ call.observations) :
    ∃ state, s'.timeline.current.get? row.target = some state ∧ row.tradeDate ≤ state.tradeDate := by
  have hdate := publish_current_date h row.target
  have hmem : row ∈ (orderedObservations call.observations).filter (·.target = row.target) :=
    List.mem_filter.mpr ⟨mem_orderedObservations.mpr hrow, by simp⟩
  cases hlast : ((orderedObservations call.observations).filter
      (·.target = row.target)).getLast? with
  | none => exact absurd (List.getLast?_eq_none_iff.mp hlast) (List.ne_nil_of_mem hmem)
  | some last =>
    rw [hlast, Option.map_some, Option.some_or] at hdate
    obtain ⟨state, hstate, -⟩ := Option.map_eq_some_iff.mp hdate
    refine ⟨state, hstate, ?_⟩
    obtain ⟨-, hle⟩ | ⟨hnone, -⟩ := publish_current_cases h hstate
    · exact hle row hrow rfl
    · exact absurd rfl (hnone row hrow)

/-- A call is accepted again if none of its observations is after its cutoff. -/
theorem not_refuses_publish (h : s.publish call = .ok s') :
    ¬s'.Refuses call ↔ ∀ row ∈ call.observations, row.tradeDate ≤ call.through := by
  constructor
  · intro haccepted row hrow
    obtain ⟨state, hstate, hle⟩ := exists_current h hrow
    exact hle.trans (Timeline.le_of_previousThrough (not_refuses_iff.mp haccepted) hstate)
  · intro hle
    rw [not_refuses_iff]
    cases hprevious : s'.timeline.previousThrough with
    | none => rfl
    | some day =>
      obtain ⟨⟨target, state, hstate, rfl⟩, -⟩ := Timeline.previousThrough_eq_some.mp hprevious
      rw [Option.all_some, decide_eq_true_eq]
      obtain ⟨⟨row, hrow, -, hdate⟩, -⟩ | ⟨-, -, hdate⟩ := publish_current_cases h hstate
      · exact hdate ▸ hle row hrow
      · exact le_of_accepted (publish_eq_ok.mp h).1 hdate

/-- A current row is dated the cutoff after the call: an observation is, or the row of a target that
is not observed. -/
def ReachesCutoff (s : PublishedStream F) (call : PublishCall F) : Prop :=
  (∃ row ∈ call.observations, row.tradeDate = call.through) ∨
    call.start.isSome ∧ ∃ target,
      (s.timeline.current.get? target).map (·.tradeDate) = some call.through ∧
        ∀ row ∈ call.observations, row.target ≠ target

theorem publish_previousThrough (h : s.publish call = .ok s')
    (hle : ∀ row ∈ call.observations, row.tradeDate ≤ call.through) :
    s'.timeline.previousThrough = some call.through ↔ s.ReachesCutoff call := by
  constructor
  · intro hprevious
    obtain ⟨⟨target, state, hstate, hdate⟩, -⟩ := Timeline.previousThrough_eq_some.mp hprevious
    obtain ⟨⟨row, hrow, -, hrowDate⟩, -⟩ | ⟨hnone, hstart, hkept⟩ := publish_current_cases h hstate
    · exact .inl ⟨row, hrow, hrowDate.trans hdate⟩
    · exact .inr ⟨hstart, target, hdate ▸ hkept, hnone⟩
  · intro hreaches
    have hall := not_refuses_iff.mp ((not_refuses_publish h).mpr hle)
    refine Timeline.previousThrough_eq_some.mpr ⟨?_, fun target state hstate =>
      Timeline.le_of_previousThrough hall hstate⟩
    rcases hreaches with ⟨row, hrow, hdate⟩ | ⟨hstart, target, hkept, hnone⟩
    · obtain ⟨state, hstate, hge⟩ := exists_current h hrow
      refine ⟨row.target, state, hstate, le_antisymm ?_ (hdate ▸ hge)⟩
      exact Timeline.le_of_previousThrough hall hstate
    · have hdate := publish_current_date h target
      have hnil : (orderedObservations call.observations).filter (·.target = target) = [] := by
        refine List.filter_eq_nil_iff.mpr fun row hrow => ?_
        simpa using hnone row (mem_orderedObservations.mp hrow)
      rw [hnil, List.getLast?_nil, Option.map_none, Option.none_or,
        if_neg (by simpa using Option.ne_none_iff_isSome.mpr hstart), hkept] at hdate
      obtain ⟨state, hstate, hday⟩ := Option.map_eq_some_iff.mp hdate
      exact ⟨target, state, hstate, hday⟩

end PublishedStream

/-! ## Restatements -/

/-- What is fixed when an event is inserted. -/
def StateEvent.inserted (event : StateEvent F) : StateEvent F := { event with valid := true }

/-- The events that are not restatements, the invalidated ones included. -/
def PublishedStream.live (s : PublishedStream F) : List (StateEvent F) :=
  s.timeline.events.filter fun event => !event.isRestatement

/-- The events inserted since an earlier state of the stream. -/
def PublishedStream.insertedSince (s earlier : PublishedStream F) : List (StateEvent F) :=
  s.timeline.events.drop earlier.timeline.events.length

/-- The events a replacement appends. -/
def insertedEvents (eventSequence : ℤ) (previousThrough : Option Date)
    (new : List (PublishedState F × EventKind)) : List (StateEvent F) :=
  new.zipIdx.map fun ((values, kind), index) =>
    { values with
      kind
      streamSeq := eventSequence + 1 + index
      valid := true
      isRestatement := previousThrough.all (values.tradeDate ≤ ·) }

omit [LinearOrder (Target F)] in
theorem replaceEvents_eq (eventSequence : ℤ) (previousThrough : Option Date)
    (events : List (StateEvent F)) (start : Option Date) (through : Date)
    (new : List (PublishedState F × EventKind)) :
    replaceEvents eventSequence previousThrough events start through new =
      (events.map fun event =>
        if replaces start through event then { event with valid := false } else event) ++
      insertedEvents eventSequence previousThrough new := rfl

section Inserted

variable (eventSequence : ℤ) (previousThrough : Option Date)
  (new : List (PublishedState F × EventKind))

omit [LinearOrder (Target F)] in
theorem insertedEvents_signature :
    (insertedEvents eventSequence previousThrough new).map (·.signature) = new.map .of := by
  rw [insertedEvents, List.map_map]
  conv_rhs => rw [← List.zipIdx_map_fst 0 new, List.map_map]
  rfl

omit [LinearOrder (Target F)] in
/-- What the signature of an event determines, for the events a replacement appends. -/
theorem insertedEvents_map {α : Type} (f : EventSignature F → α) :
    (insertedEvents eventSequence previousThrough new).map (fun event => f event.signature) =
      new.map fun event => f (.of event) := by
  have h := congrArg (List.map f) (insertedEvents_signature eventSequence previousThrough new)
  rwa [List.map_map, List.map_map] at h

variable {eventSequence previousThrough new}

omit [LinearOrder (Target F)] in
theorem of_mem_insertedEvents {event : StateEvent F}
    (h : event ∈ insertedEvents eventSequence previousThrough new) :
    event.valid ∧ eventSequence < event.streamSeq ∧
      event.isRestatement = previousThrough.all (event.tradeDate ≤ ·) := by
  obtain ⟨⟨⟨values, kind⟩, index⟩, -, rfl⟩ := List.mem_map.mp h
  refine ⟨rfl, ?_, rfl⟩
  change eventSequence < eventSequence + 1 + (index : ℤ)
  lia

end Inserted

namespace PublishedStream

variable [DecidableEq F] {s s' : PublishedStream F} {call : PublishCall F}

/-- A call keeps the events as they were inserted and appends events on its observations. -/
theorem step_events (s : PublishedStream F) (call : PublishCall F) :
    ∃ old inserted, (s.step call).timeline.events = old ++ inserted ∧
      old.map (·.inserted) = s.timeline.events.map (·.inserted) ∧
      (inserted.map fun event => (event.tradeDate, event.target)).Sublist
        ((orderedObservations call.observations).map fun row => (row.tradeDate, row.target)) ∧
      ∀ event ∈ inserted,
        event.isRestatement = s.timeline.previousThrough.all (event.tradeDate ≤ ·) := by
  have hsame : ∃ old inserted : List (StateEvent F), s.timeline.events = old ++ inserted ∧
      old.map (·.inserted) = s.timeline.events.map (·.inserted) ∧
      (inserted.map fun event => (event.tradeDate, event.target)).Sublist
        ((orderedObservations call.observations).map fun row => (row.tradeDate, row.target)) ∧
      ∀ event ∈ inserted,
        event.isRestatement = s.timeline.previousThrough.all (event.tradeDate ≤ ·) :=
    ⟨s.timeline.events, [], by rw [List.append_nil], rfl, List.nil_sublist _,
      fun event hevent => absurd hevent List.not_mem_nil⟩
  obtain ⟨-, hstep⟩ | ⟨-, hpublish⟩ := s.step_cases call
  · rw [hstep]
    exact hsame
  · obtain ⟨-, hs⟩ := publish_eq_ok.mp hpublish
    rw [hs]
    simp only
    split
    · exact hsame
    · refine ⟨_, _, rfl, ?_, ?_, fun event hevent => (of_mem_insertedEvents hevent).2.2⟩
      · rw [List.map_map]
        refine List.map_congr_left fun event _ => ?_
        rw [Function.comp_apply]
        split <;> rfl
      · have hslots := insertedEvents_map s.eventSequence s.timeline.previousThrough
          (s.folded call).events fun signature => (signature.tradeDate, signature.target)
        exact hslots.symm ▸ recorded_slots ..

omit [LinearOrder (Target F)] [DecidableEq F] in
theorem live_slots_append {events old inserted : List (StateEvent F)}
    (hold : old.map (·.inserted) = events.map (·.inserted)) :
    ((old ++ inserted).filter fun event => !event.isRestatement).map
        (fun event => (event.tradeDate, event.target)) =
      (events.filter fun event => !event.isRestatement).map
          (fun event => (event.tradeDate, event.target)) ++
        (inserted.filter fun event => !event.isRestatement).map
          fun event => (event.tradeDate, event.target) := by
  have hslots (events : List (StateEvent F)) :
      (events.filter fun event => !event.isRestatement).map
          (fun event => (event.tradeDate, event.target)) =
        ((events.map (·.inserted)).filter fun event => !event.isRestatement).map
          fun event => (event.tradeDate, event.target) := by
    rw [List.filter_map, List.map_map]
    rfl
  rw [List.filter_append, List.map_append, hslots old, hold, ← hslots]

theorem step_previousThrough (hcall : call.EndsThrough) (haccepted : ¬s.Refuses call) :
    (s.step call).timeline.previousThrough = some call.through := by
  obtain ⟨hrefuses, -⟩ | ⟨-, hpublish⟩ := s.step_cases call
  · exact absurd hrefuses haccepted
  · have hmem := List.max?_mem hcall
    obtain ⟨row, hrow, hdate⟩ := List.mem_map.mp hmem
    exact (publish_previousThrough hpublish hcall.le).mpr (.inl ⟨row, hrow, hdate⟩)

/-- The cutoff of the current rows does not regress. -/
theorem step_reached (hcall : call.EndsThrough) {day : Date}
    (h : s.timeline.previousThrough.any (day ≤ ·)) :
    (s.step call).timeline.previousThrough.any (day ≤ ·) := by
  obtain ⟨-, hstep⟩ | ⟨haccepted, -⟩ := s.step_cases call
  · rwa [hstep]
  · rw [step_previousThrough hcall haccepted]
    have hle := not_refuses_iff.mp haccepted
    cases hprevious : s.timeline.previousThrough with
    | none => simp [hprevious] at h
    | some previous =>
      simp only [hprevious, Option.any_some, Option.all_some, decide_eq_true_eq] at h hle ⊢
      exact h.trans hle

/-- Live events are one for each target and date, up to the cutoff of the current rows. -/
structure Live (s : PublishedStream F) : Prop where
  slots : (s.live.map fun event => (event.tradeDate, event.target)).Nodup
  reached : ∀ event ∈ s.live, s.timeline.previousThrough.any (event.tradeDate ≤ ·)

omit [DecidableEq F] in
theorem Live.initial : (initial : PublishedStream F).Live where
  slots := .nil
  reached _ hevent := absurd hevent List.not_mem_nil

/-- Live events a call inserts are after the previous cutoff, and up to its own. -/
theorem Live.step (h : s.Live) (hcall : call.OnePerDay ∧ call.EndsThrough) : (s.step call).Live := by
  obtain ⟨-, hstep⟩ | ⟨haccepted, -⟩ := s.step_cases call
  · rwa [hstep]
  obtain ⟨old, inserted, hevents, hold, hslots, hrestated⟩ := s.step_events call
  have hafter : ∀ event ∈ inserted.filter fun event => !event.isRestatement,
      s.timeline.previousThrough.any (· < event.tradeDate) := by
    intro event hevent
    obtain ⟨hmem, hlive⟩ := List.mem_filter.mp hevent
    rw [hrestated event hmem] at hlive
    cases hprevious : s.timeline.previousThrough <;> simp_all
  constructor
  · rw [live, hevents, live_slots_append hold]
    have hrows : ((orderedObservations call.observations).map fun row =>
        (row.tradeDate, row.target)).Nodup :=
      ((orderedObservations_perm call.observations).map _).nodup_iff.mpr hcall.1
    refine List.Nodup.append h.slots ((hrows.sublist hslots).sublist
      (List.filter_sublist.map _)) fun slot hslot hslot' => ?_
    obtain ⟨event, hevent, rfl⟩ := List.mem_map.mp hslot
    obtain ⟨event', hevent', heq⟩ := List.mem_map.mp hslot'
    have hreached := h.reached event hevent
    have hlt := hafter event' hevent'
    rw [(Prod.mk.inj heq).1] at hlt
    cases hprevious : s.timeline.previousThrough with
    | none => simp [hprevious] at hlt
    | some previous =>
      simp only [hprevious, Option.any_some, decide_eq_true_eq] at hlt hreached
      exact absurd hreached hlt.not_ge
  · have hall : ∀ slot ∈ (s.step call).live.map fun event => (event.tradeDate, event.target),
        (s.step call).timeline.previousThrough.any (slot.1 ≤ ·) := by
      intro slot hslot
      rw [live, hevents, live_slots_append hold, List.mem_append] at hslot
      rcases hslot with hslot | hslot
      · obtain ⟨event, hevent, rfl⟩ := List.mem_map.mp hslot
        exact step_reached hcall.2 (h.reached event hevent)
      · obtain ⟨row, hrow, rfl⟩ := List.mem_map.mp
          (hslots.subset ((List.filter_sublist.map _).subset hslot))
        rw [step_previousThrough hcall.2 haccepted, Option.any_some, decide_eq_true_eq]
        exact hcall.2.le row (mem_orderedObservations.mp hrow)
    exact fun event hevent => hall _ (List.mem_map_of_mem hevent)

/-- The events inserted after a cutoff of the current rows are live after it only. -/
theorem run_insertedSince {earlier : PublishedStream F} {day : Date}
    (h : earlier.timeline.previousThrough.any (day ≤ ·)) {calls : List (PublishCall F)}
    (hcalls : ∀ call ∈ calls, call.OnePerDay ∧ call.EndsThrough) :
    ∀ event ∈ (run step earlier calls).insertedSince earlier, event.isRestatement = false →
      day < event.tradeDate := by
  have hstep (s : PublishedStream F) (call : PublishCall F)
      (hs : earlier.timeline.events.length ≤ s.timeline.events.length ∧
        s.timeline.previousThrough.any (day ≤ ·) ∧
        ∀ event ∈ s.insertedSince earlier, event.isRestatement = false → day < event.tradeDate)
      (hcall : call.OnePerDay ∧ call.EndsThrough) :
      earlier.timeline.events.length ≤ (s.step call).timeline.events.length ∧
        (s.step call).timeline.previousThrough.any (day ≤ ·) ∧
        ∀ event ∈ (s.step call).insertedSince earlier, event.isRestatement = false →
          day < event.tradeDate := by
    obtain ⟨hlength, hreached, hinserted⟩ := hs
    obtain ⟨old, inserted, hevents, hold, -, hrestated⟩ := s.step_events call
    have holdLength : old.length = s.timeline.events.length := by
      simpa using congrArg List.length hold
    refine ⟨?_, step_reached hcall.2 hreached, fun event hevent hlive => ?_⟩
    · rw [hevents, List.length_append]
      lia
    · rw [insertedSince, hevents, List.drop_append_of_le_length (by lia), List.mem_append] at hevent
      rcases hevent with hevent | hevent
      · have hmem : event.inserted ∈ (s.insertedSince earlier).map (·.inserted) := by
          rw [insertedSince, List.map_drop, ← hold, ← List.map_drop]
          exact List.mem_map_of_mem hevent
        obtain ⟨event', hevent', heq⟩ := List.mem_map.mp hmem
        have hday := hinserted event' hevent' ((congrArg StateEvent.isRestatement heq).trans hlive)
        have hdate := congrArg (fun event : StateEvent F => event.tradeDate) heq
        exact hdate ▸ hday
      · rw [hrestated event hevent] at hlive
        cases hprevious : s.timeline.previousThrough with
        | none => simp [hprevious] at hlive
        | some previous =>
          simp only [hprevious, Option.any_some, Option.all_some, decide_eq_true_eq,
            decide_eq_false_iff_not, not_le] at hreached hlive
          exact hreached.trans_lt hlive
  have hinitial : ∀ event ∈ earlier.insertedSince earlier, event.isRestatement = false →
      day < event.tradeDate := by
    simp [insertedSince]
  exact (run_invariant hstep ⟨le_rfl, h, hinitial⟩ (always_of_forall hcalls earlier)).2.2

/-- In every run of publications that observe a target once on a date and end on their cutoff, one
event that is no restatement at most is ever inserted for a target and date, and none for a date up
to the cutoff of an earlier publication. -/
theorem restatement_once {calls : List (PublishCall F)}
    (h : ∀ call ∈ calls, call.OnePerDay ∧ call.EndsThrough) :
    ((run step initial calls).live.map fun event => (event.tradeDate, event.target)).Nodup ∧
      ∀ before call after, calls = before ++ call :: after →
        ¬(run step initial before).Refuses call →
        ∀ event ∈ (run step initial calls).insertedSince (run step initial (before ++ [call])),
          event.isRestatement = false → call.through < event.tradeDate := by
  constructor
  · have hstep (s : PublishedStream F) (call : PublishCall F) (hs : s.Live)
        (hcall : call.OnePerDay ∧ call.EndsThrough) : (s.step call).Live := hs.step hcall
    have hlive := run_invariant hstep Live.initial (always_of_forall h initial)
    exact hlive.slots
  · rintro before call after rfl haccepted
    have hcall := h call (List.mem_append_right _ List.mem_cons_self)
    have hsplit : before ++ call :: after = (before ++ [call]) ++ after := by simp
    rw [hsplit, run_append step initial (before ++ [call]) after]
    refine run_insertedSince ?_ fun later hlater =>
      h later (List.mem_append_right _ (List.mem_cons_of_mem call hlater))
    rw [run_append, run_cons, run_nil, step_previousThrough hcall.2 haccepted, Option.any_some,
      decide_eq_true_eq]

end PublishedStream

instance (call : PublishCall F) : Decidable call.OnePerDay :=
  inferInstanceAs (Decidable (List.Nodup _))

instance (call : PublishCall F) : Decidable call.EndsThrough :=
  inferInstanceAs (Decidable (_ = _))

theorem restatement_once_twoDays :
    ((run PublishedStream.step PublishedStream.initial twoDayCalls).live.map fun event =>
      (event.tradeDate, event.target)).Nodup ∧
      ∀ before call after, twoDayCalls = before ++ call :: after →
        ¬(run PublishedStream.step PublishedStream.initial before).Refuses call →
        ∀ event ∈ (run PublishedStream.step PublishedStream.initial twoDayCalls).insertedSince
            (run PublishedStream.step PublishedStream.initial (before ++ [call])),
          event.isRestatement = false → call.through < event.tradeDate :=
  PublishedStream.restatement_once (by decide +kernel)

end Apanel
