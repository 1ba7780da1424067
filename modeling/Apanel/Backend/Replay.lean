import Apanel.Backend.Restatement

/-!
# Replays

When a publication that is repeated at once changes nothing (`publish_twice_iff`): the second one has
to find its own first events in the range it replaces, and its own cutoff in the current rows. A call
may observe days before its start. The events it makes there are outside the range it replaces, and
move the anchors the repetition starts from.
-/

namespace Apanel

variable {F : Type} [LinearOrder (Target F)]

/-- An event of a target a seed may come from. -/
def StateEvent.SeedsAt (event : StateEvent F) (day : Date) (target : Target F) : Prop :=
  event.valid ∧ event.target = target ∧ event.tradeDate ≤ day

/-- The seed of a target is its last event by date and sequence number. -/
theorem get?_seedAt_iff {events : List (StateEvent F)}
    (hseq : events.Pairwise fun a b => a.streamSeq < b.streamSeq) {day : Date} {target : Target F}
    {event : StateEvent F} :
    (seedAt events day).get? target = some event ↔
      (event ∈ events ∧ event.SeedsAt day target) ∧ ∀ other ∈ events, other.SeedsAt day target →
        other.tradeDate < event.tradeDate ∨
          other.tradeDate = event.tradeDate ∧ other.streamSeq ≤ event.streamSeq := by
  have : IsTrans (StateEvent F) fun a b =>
      a.tradeDate < b.tradeDate ∨ a.tradeDate = b.tradeDate ∧ a.streamSeq ≤ b.streamSeq :=
    ⟨fun a b c hab hbc => by grind⟩
  have : Std.Total fun a b : StateEvent F =>
      a.tradeDate < b.tradeDate ∨ a.tradeDate = b.tradeDate ∧ a.streamSeq ≤ b.streamSeq :=
    ⟨fun a b => by grind⟩
  rw [seedAt, Table.ofList, Table.get?_insertMany_getLast?, Table.get?_empty, Option.or_none,
    List.filter_map, List.getLast?_map, Option.map_map]
  simp only [Function.comp_def]
  rw [Option.map_id', getLast?_eq_some_iff (fun a => .inr ⟨rfl, le_rfl⟩) ?_
    ((List.pairwise_insertionSort _ _).filter _)]
  · simp only [List.mem_filter, List.mem_insertionSort, decide_eq_true_eq, StateEvent.SeedsAt]
    grind
  · intro a ha b hb hab hba
    simp only [List.mem_filter, List.mem_insertionSort] at ha hb
    exact eq_of_key_eq hseq ha.1.1 hb.1.1 (by grind)

theorem madeOf_recorded (revision : ℤ) (current : Table (Target F) StateEntry)
    (rows : List (StateRow F)) (target : Target F) :
    madeOf (recorded revision current rows) target =
      timelineRecorder.log (current.get? target) (observationsOf rows target) := by
  rw [recorded, foldl_publishRow]
  rfl

theorem recorded_eq_nil_iff {revision : ℤ} {current : Table (Target F) StateEntry}
    {rows : List (StateRow F)} :
    recorded revision current rows = [] ↔
      ∀ target, timelineRecorder.log (current.get? target) (observationsOf rows target) = [] := by
  refine ⟨fun h target => ?_, fun h => List.eq_nil_iff_forall_not_mem.mpr fun event hevent => ?_⟩
  · rw [← madeOf_recorded revision, h]
    rfl
  · have hmade := h event.1.target
    rw [← madeOf_recorded revision, madeOf, List.map_eq_nil_iff] at hmade
    exact absurd (by simp) (List.filter_eq_nil_iff.mp hmade event hevent)

theorem recorded_append (revision : ℤ) (current : Table (Target F) StateEntry)
    (rows rows' : List (StateRow F)) :
    recorded revision current (rows ++ rows') = recorded revision current rows ++
      recorded revision (rows.foldl (publishRow revision) ⟨current, ∅, []⟩).current rows' := by
  rw [recorded, List.foldl_append, foldl_publishRow_events]
  rfl

/-- Nothing is logged of observations that have the status of the entry before them. -/
theorem log_eq_nil_iff {prior : Option StateEntry} {os : List Observation} :
    timelineRecorder.log prior os = [] ↔ ∀ o ∈ os, prior.any (·.status = o.status) := by
  induction os generalizing prior with
  | nil => simp
  | cons o os ih =>
    rw [Recorder.log, timelineRecorder_step, List.append_eq_nil_iff, ih, List.forall_mem_cons]
    have hkind : (((observationKind prior o).map fun kind => (⟨o.date, kind,
        observationEntry prior o⟩ : TimelineEvent)).toList = [] ↔
          prior.any (·.status = o.status)) := by
      cases prior with
      | none => simp [observationKind]
      | some entry =>
        simp only [observationKind, Option.any_some, decide_eq_true_eq]
        grind
    rw [hkind]
    refine and_congr_right fun hstatus => forall₂_congr fun o' _ => ?_
    obtain ⟨entry, rfl⟩ : ∃ entry, prior = some entry := by
      cases prior with
      | none => cases hstatus
      | some entry => exact ⟨entry, rfl⟩
    have hsame : entry.status = o.status := by simpa using hstatus
    simp [hsame]

/-- Observations of one status that differs from that of the entry before them make one event. -/
theorem log_of_status {prior : Option StateEntry} {o : Observation} {os : List Observation}
    (hprior : ¬prior.any (·.status = o.status)) (hos : ∀ o' ∈ os, o'.status = o.status) :
    ∃ kind, timelineRecorder.log prior (o :: os) = [⟨o.date, kind, observationEntry prior o⟩] := by
  have hrest : timelineRecorder.log (some (observationEntry prior o)) os = [] :=
    log_eq_nil_iff.mpr fun o' ho' => by simp [hos o' ho']
  cases hkind : observationKind prior o with
  | none =>
    rw [observationEntry_of_kind hkind] at hprior
    simp at hprior
  | some kind =>
    refine ⟨kind, ?_⟩
    rw [Recorder.log, timelineRecorder_step, hkind, hrest]
    rfl

/-- The event of the timeline an event shows on a replay. -/
def EventSignature.event (signature : EventSignature F) : TimelineEvent :=
  ⟨signature.tradeDate, signature.kind, signature.entry⟩

theorem exists_seedAt {events : List (StateEvent F)} {event : StateEvent F} (hmem : event ∈ events)
    {day : Date} {target : Target F} (hseeds : event.SeedsAt day target) :
    ∃ seed, (seedAt events day).get? target = some seed := by
  rw [← Table.mem_keys, seedAt, Table.mem_keys_ofList]
  refine List.mem_map.mpr ⟨(event.target, event), List.mem_map_of_mem ?_, hseeds.2.1⟩
  rw [List.mem_insertionSort]
  exact List.mem_filter.mpr ⟨hmem, decide_eq_true ⟨hseeds.1, hseeds.2.2⟩⟩

/-- The observations before the start of a call, in the order of publication, and the others. -/
def PublishCall.early (call : PublishCall F) : List (StateRow F) :=
  (orderedObservations call.observations).filter fun row => !call.start.all (· ≤ row.tradeDate)

def PublishCall.late (call : PublishCall F) : List (StateRow F) :=
  (orderedObservations call.observations).filter fun row => call.start.all (· ≤ row.tradeDate)

theorem PublishCall.early_append_late (call : PublishCall F) :
    call.early ++ call.late = orderedObservations call.observations := by
  have hpairwise : (orderedObservations call.observations).Pairwise fun a b =>
      (!call.start.all (· ≤ b.tradeDate)) = true → (!call.start.all (· ≤ a.tradeDate)) = true := by
    refine (orderedObservations_sorted call.observations).imp ?_
    rintro a b (hlt | ⟨heq, -⟩) hb
    · exact before_downward call.start _ _ hlt hb
    · rwa [heq]
  have hsplit := filter_append_of_pairwise hpairwise
  simp only [Bool.not_not] at hsplit
  exact hsplit

namespace PublishedStream

/-- The entries of the targets when the loop of a call reaches its start. -/
def settled (s : PublishedStream F) (call : PublishCall F) : Table (Target F) StateEntry :=
  (call.early.foldl (publishRow call.sourceRevision)
    { current := anchors s.timeline.events call.start, last := ∅, events := [] }).current

theorem get?_settled (s : PublishedStream F) (call : PublishCall F) (target : Target F) :
    (s.settled call).get? target =
      timelineRecorder.final ((anchors s.timeline.events call.start).get? target)
        (observationsOf call.early target) :=
  foldl_publishRow_current ..

/-- The events of the loop before its start, and from there. -/
theorem folded_split (s : PublishedStream F) (call : PublishCall F) :
    (s.folded call).events =
      recorded call.sourceRevision (anchors s.timeline.events call.start) call.early ++
        recorded call.sourceRevision (s.settled call) call.late := by
  rw [folded_events, ← call.early_append_late, recorded_append]
  rfl

theorem of_mem_recorded_early {call : PublishCall F} {revision : ℤ}
    {current : Table (Target F) StateEntry} {event : PublishedState F × EventKind}
    (h : event ∈ recorded revision current call.early) :
    (!call.start.all (· ≤ event.1.tradeDate)) = true := by
  obtain ⟨row, hrow, heq⟩ := List.mem_map.mp
    ((recorded_slots revision current call.early).subset (List.mem_map_of_mem h))
  rw [← (Prod.mk.inj heq).1]
  exact (List.mem_filter.mp hrow).2

theorem of_mem_recorded_late {call : PublishCall F} {revision : ℤ}
    {current : Table (Target F) StateEntry} {event : PublishedState F × EventKind}
    (h : event ∈ recorded revision current call.late) :
    call.start.all (· ≤ event.1.tradeDate) = true := by
  obtain ⟨row, hrow, heq⟩ := List.mem_map.mp
    ((recorded_slots revision current call.late).subset (List.mem_map_of_mem h))
  rw [← (Prod.mk.inj heq).1]
  exact (List.mem_filter.mp hrow).2

variable [DecidableEq F] {s s' : PublishedStream F} {call : PublishCall F}

theorem unchanged_iff : s.unchanged call ↔
    ((s.timeline.events.filter (replaces call.start call.through)).insertionSort fun a b =>
      precedes a.tradeDate b.tradeDate a.target b.target).map (·.signature) =
        (s.folded call).events.map .of :=
  decide_eq_true_iff

/-- A call that changes no event makes none before its start. -/
theorem recorded_early_of_unchanged (h : s.unchanged call) :
    recorded call.sourceRevision (anchors s.timeline.events call.start) call.early = [] := by
  refine List.eq_nil_iff_forall_not_mem.mpr fun event hevent => ?_
  have hmem : EventSignature.of event ∈ (s.folded call).events.map .of := by
    rw [folded_split]
    exact List.mem_map_of_mem (List.mem_append_left _ hevent)
  rw [← unchanged_iff.mp h] at hmem
  obtain ⟨old, hold, heq⟩ := List.mem_map.mp hmem
  have hreplaced := (List.mem_filter.mp (List.mem_insertionSort _ |>.mp hold)).2
  have hdate : old.tradeDate = event.1.tradeDate := congrArg EventSignature.tradeDate heq
  have hbefore := of_mem_recorded_early hevent
  simp only [replaces, Bool.and_eq_true] at hreplaced
  rw [← hdate, hreplaced.2] at hbefore
  cases hbefore

theorem events_of_unchanged (h : s.publish call = .ok s') (hunchanged : s.unchanged call) :
    s'.timeline.events = s.timeline.events := by
  obtain ⟨-, rfl⟩ := publish_eq_ok.mp h
  exact if_pos hunchanged

/-- The events of a call that changes them. -/
theorem events_of_changed (h : s.publish call = .ok s') (hchanged : ¬s.unchanged call) :
    s'.timeline.events = replaceEvents s.eventSequence s.timeline.previousThrough s.timeline.events
      call.start call.through (s.folded call).events := by
  obtain ⟨-, rfl⟩ := publish_eq_ok.mp h
  exact if_neg hchanged

omit [DecidableEq F] in
theorem folded_slots (s : PublishedStream F) (call : PublishCall F) :
    ((s.folded call).events.map fun event => (event.1.tradeDate, event.1.target)).Sublist
      ((orderedObservations call.observations).map fun row => (row.tradeDate, row.target)) :=
  recorded_slots ..

/-- The events a call inserted are those it replaces when it is repeated, from its start. -/
theorem replaced_signatures (h : s.publish call = .ok s') (hchanged : ¬s.unchanged call)
    (hle : ∀ row ∈ call.observations, row.tradeDate ≤ call.through) :
    ((s'.timeline.events.filter (replaces call.start call.through)).insertionSort fun a b =>
      precedes a.tradeDate b.tradeDate a.target b.target).map (·.signature) =
        (recorded call.sourceRevision (s.settled call) call.late).map .of := by
  set inserted := insertedEvents s.eventSequence s.timeline.previousThrough (s.folded call).events
    with hinserted
  have hslots : (inserted.map fun event => (event.tradeDate, event.target)).Sublist
      ((orderedObservations call.observations).map fun row => (row.tradeDate, row.target)) := by
    have hsignature := insertedEvents_map s.eventSequence s.timeline.previousThrough
      (s.folded call).events fun signature => (signature.tradeDate, signature.target)
    exact hsignature.symm ▸ folded_slots s call
  have hfilter : s'.timeline.events.filter (replaces call.start call.through) =
      inserted.filter fun event => call.start.all (· ≤ event.signature.tradeDate) := by
    rw [events_of_changed h hchanged, replaceEvents_eq, List.filter_append,
      List.filter_eq_nil_iff.mpr, List.nil_append]
    · refine List.filter_congr fun event hevent => ?_
      obtain ⟨row, hrow, heq⟩ := List.mem_map.mp (hslots.subset (List.mem_map_of_mem hevent))
      have hthrough : event.tradeDate ≤ call.through :=
        (Prod.mk.inj heq).1 ▸ hle row (mem_orderedObservations.mp hrow)
      simp only [replaces, (of_mem_insertedEvents hevent).1, hthrough, decide_true, Bool.true_and]
      rfl
    · intro event hevent
      obtain ⟨old, -, rfl⟩ := List.mem_map.mp hevent
      split
      · simp [replaces]
      · next hkept => exact hkept
  have hsorted : inserted.Pairwise fun a b => precedes a.tradeDate b.tradeDate a.target b.target := by
    have hrows : ((orderedObservations call.observations).map fun row =>
        (row.tradeDate, row.target)).Pairwise fun a b => precedes a.1 b.1 a.2 b.2 :=
      List.pairwise_map.mpr (orderedObservations_sorted call.observations)
    exact List.pairwise_map.mp (hrows.sublist hslots)
  rw [hfilter, (hsorted.filter _).insertionSort_eq]
  have hsignatures : inserted.map (·.signature) =
      (recorded call.sourceRevision (anchors s.timeline.events call.start) call.early).map .of ++
        (recorded call.sourceRevision (s.settled call) call.late).map .of := by
    rw [hinserted, insertedEvents_signature, folded_split, List.map_append]
  calc (inserted.filter fun event => call.start.all (· ≤ event.signature.tradeDate)).map
        (·.signature)
    _ = (inserted.map (·.signature)).filter fun signature =>
          call.start.all (· ≤ signature.tradeDate) := by
      rw [List.filter_map]
      rfl
    _ = (recorded call.sourceRevision (s.settled call) call.late).map .of := by
      rw [hsignatures, List.filter_append, List.filter_eq_nil_iff.mpr, List.nil_append,
        List.filter_eq_self.mpr]
      · intro signature hsignature
        obtain ⟨event, hevent, rfl⟩ := List.mem_map.mp hsignature
        exact of_mem_recorded_late hevent
      · intro signature hsignature
        obtain ⟨event, hevent, rfl⟩ := List.mem_map.mp hsignature
        have hbefore := of_mem_recorded_early hevent
        rw [Bool.not_eq_true'] at hbefore
        exact ne_true_of_eq_false hbefore

/-- A seed after a call that changes events is an old one, or an event of the loop before its
start. -/
theorem seedsAt_of_changed (h : s.publish call = .ok s') (hchanged : ¬s.unchanged call)
    {start : Date} (hstart : call.start = some start) {target : Target F} {event : StateEvent F} :
    event ∈ s'.timeline.events ∧ event.SeedsAt (start - 1) target ↔
      (event ∈ s.timeline.events ∨
        event ∈ insertedEvents s.eventSequence s.timeline.previousThrough (s.folded call).events) ∧
      event.SeedsAt (start - 1) target := by
  rw [events_of_changed h hchanged, replaceEvents_eq, List.mem_append, List.mem_map]
  refine and_congr_left fun hseeds => or_congr_left ?_
  have hkept : replaces call.start call.through event = false := by
    have hlt : ¬start ≤ event.tradeDate := by
      have := hseeds.2.2
      lia
    simp [replaces, hstart, hlt]
  constructor
  · rintro ⟨old, hold, heq⟩
    split at heq
    · have hvalid := hseeds.1
      rw [← heq] at hvalid
      cases hvalid
    · exact heq ▸ hold
  · exact fun hold => ⟨event, hold, if_neg (ne_true_of_eq_false hkept)⟩

omit [DecidableEq F] in
/-- The events of the loop before its start, among those a call inserts. -/
theorem inserted_seedsAt_iff (s : PublishedStream F) (call : PublishCall F) {start : Date}
    (hstart : call.start = some start) {target : Target F} {event : TimelineEvent} :
    (∃ inserted ∈ insertedEvents s.eventSequence s.timeline.previousThrough (s.folded call).events,
      inserted.SeedsAt (start - 1) target ∧ inserted.event = event) ↔
      event ∈ timelineRecorder.log ((anchors s.timeline.events call.start).get? target)
        (observationsOf call.early target) := by
  rw [← madeOf_recorded call.sourceRevision]
  have hpairs := insertedEvents_map s.eventSequence s.timeline.previousThrough
    (s.folded call).events fun signature => (signature.target, signature.event)
  constructor
  · rintro ⟨inserted, hmem, hseeds, rfl⟩
    have hpair := List.mem_map_of_mem
      (f := fun event : StateEvent F => (event.signature.target, event.signature.event)) hmem
    rw [hpairs] at hpair
    obtain ⟨made, hmade, heq⟩ := List.mem_map.mp hpair
    obtain ⟨htarget, hevent⟩ := Prod.mk.inj heq
    rw [folded_split, List.mem_append] at hmade
    rcases hmade with hmade | hmade
    · refine List.mem_map.mpr ⟨made, List.mem_filter.mpr ⟨hmade, ?_⟩, hevent⟩
      exact decide_eq_true (htarget.trans hseeds.2.1)
    · have hlate := of_mem_recorded_late hmade
      have hdate : made.1.tradeDate = inserted.tradeDate := congrArg TimelineEvent.date hevent
      have := hseeds.2.2
      rw [hstart, Option.all_some, decide_eq_true_eq, hdate] at hlate
      lia
  · intro hevent
    obtain ⟨made, hmade, rfl⟩ := List.mem_map.mp hevent
    obtain ⟨hmade, htarget⟩ := List.mem_filter.mp hmade
    have hfolded : made ∈ (s.folded call).events := by
      rw [folded_split]
      exact List.mem_append_left _ hmade
    have hpair := List.mem_map_of_mem (f := fun event : PublishedState F × EventKind =>
      ((EventSignature.of event).target, (EventSignature.of event).event)) hfolded
    rw [← hpairs] at hpair
    obtain ⟨inserted, hmem, heq⟩ := List.mem_map.mp hpair
    obtain ⟨hinsertedTarget, hinserted⟩ := Prod.mk.inj heq
    refine ⟨inserted, hmem, ⟨(of_mem_insertedEvents hmem).1,
      hinsertedTarget.trans (of_decide_eq_true htarget), ?_⟩, hinserted⟩
    have hearly := of_mem_recorded_early hmade
    have hdate : inserted.tradeDate = made.1.tradeDate := congrArg TimelineEvent.date hinserted
    rw [hstart, Option.all_some, Bool.not_eq_true', decide_eq_false_iff_not] at hearly
    lia

/-- A target without events before the start keeps its seed. -/
theorem seedAt_of_log_nil (hs : s.Sequenced) (hs' : s'.Sequenced) (h : s.publish call = .ok s')
    (hchanged : ¬s.unchanged call) {start : Date} (hstart : call.start = some start)
    {target : Target F}
    (hlog : timelineRecorder.log ((anchors s.timeline.events call.start).get? target)
      (observationsOf call.early target) = []) :
    (seedAt s'.timeline.events (start - 1)).get? target =
      (seedAt s.timeline.events (start - 1)).get? target := by
  have hsame (event : StateEvent F) :
      event ∈ s'.timeline.events ∧ event.SeedsAt (start - 1) target ↔
        event ∈ s.timeline.events ∧ event.SeedsAt (start - 1) target := by
    rw [seedsAt_of_changed h hchanged hstart]
    refine and_congr_left fun hseeds => or_iff_left fun hmem => ?_
    have hevent := (inserted_seedsAt_iff s call hstart).mp ⟨event, hmem, hseeds, rfl⟩
    rw [hlog] at hevent
    cases hevent
  refine Option.ext fun event => ?_
  rw [get?_seedAt_iff hs'.increasing, get?_seedAt_iff hs.increasing, hsame]
  refine and_congr_right fun _ => ⟨fun hall other hother hseeds => ?_, fun hall other hother hseeds => ?_⟩
  · obtain ⟨hother', hseeds'⟩ := (hsame other).mpr ⟨hother, hseeds⟩
    exact hall other hother' hseeds'
  · obtain ⟨hother', hseeds'⟩ := (hsame other).mp ⟨hother, hseeds⟩
    exact hall other hother' hseeds'

/-- The one event of a target before the start becomes its seed, unless the seed is after it. -/
theorem seedAt_of_log_singleton (hs : s.Sequenced) (hs' : s'.Sequenced)
    (h : s.publish call = .ok s') (hchanged : ¬s.unchanged call) {start : Date}
    (hstart : call.start = some start) {target : Target F} {event : TimelineEvent}
    (hlog : timelineRecorder.log ((anchors s.timeline.events call.start).get? target)
      (observationsOf call.early target) = [event])
    (hseed : ∀ seed ∈ (seedAt s.timeline.events (start - 1)).get? target,
      seed.tradeDate ≤ event.date) :
    ∃ seed, (seedAt s'.timeline.events (start - 1)).get? target = some seed ∧
      seed.event = event := by
  have hevent : event ∈ timelineRecorder.log ((anchors s.timeline.events call.start).get? target)
      (observationsOf call.early target) := by
    rw [hlog]
    exact List.mem_singleton_self event
  obtain ⟨inserted, hinserted, hseeds, rfl⟩ := (inserted_seedsAt_iff s call hstart).mpr hevent
  obtain ⟨hmem, -⟩ := (seedsAt_of_changed h hchanged hstart).mpr ⟨.inr hinserted, hseeds⟩
  obtain ⟨seed, hseed'⟩ := exists_seedAt hmem hseeds
  refine ⟨seed, hseed', ?_⟩
  obtain ⟨⟨hseedMem, hseedSeeds⟩, hlast⟩ := (get?_seedAt_iff hs'.increasing).mp hseed'
  obtain ⟨hold | hnew, -⟩ := (seedsAt_of_changed h hchanged hstart).mp ⟨hseedMem, hseedSeeds⟩
  · -- an old event is dated at or before the old seed, and numbered before the inserted one
    obtain ⟨before, hbefore⟩ := exists_seedAt hold hseedSeeds
    have hle := ((get?_seedAt_iff hs.increasing).mp hbefore).2 seed hold hseedSeeds
    have hdate : before.tradeDate ≤ inserted.tradeDate := hseed before hbefore
    have hseq := hs.le hold
    have hlt := (of_mem_insertedEvents hinserted).2.1
    have hge := hlast inserted hmem hseeds
    grind
  · have hsame := (inserted_seedsAt_iff s call hstart).mp ⟨seed, hnew, hseedSeeds, rfl⟩
    rw [hlog, List.mem_singleton] at hsame
    exact hsame

/-- A seed after the one event of its target before the start remains. -/
theorem seedAt_of_lt (hs : s.Sequenced) (hs' : s'.Sequenced)
    (h : s.publish call = .ok s') (hchanged : ¬s.unchanged call) {start : Date}
    (hstart : call.start = some start) {target : Target F} {event : TimelineEvent}
    (hlog : timelineRecorder.log ((anchors s.timeline.events call.start).get? target)
      (observationsOf call.early target) = [event])
    {seed : StateEvent F} (hseed : (seedAt s.timeline.events (start - 1)).get? target = some seed)
    (hlt : event.date < seed.tradeDate) :
    (seedAt s'.timeline.events (start - 1)).get? target = some seed := by
  rw [get?_seedAt_iff hs.increasing] at hseed
  obtain ⟨hmem, hlast⟩ := hseed
  refine (get?_seedAt_iff hs'.increasing).mpr ⟨?_, fun other hother hseeds => ?_⟩
  · exact (seedsAt_of_changed h hchanged hstart).mpr ⟨.inl hmem.1, hmem.2⟩
  · obtain ⟨hold | hnew, -⟩ := (seedsAt_of_changed h hchanged hstart).mp ⟨hother, hseeds⟩
    · exact hlast other hold hseeds
    · have hevent := (inserted_seedsAt_iff s call hstart).mp ⟨other, hnew, hseeds, rfl⟩
      rw [hlog, List.mem_singleton] at hevent
      exact .inl ((congrArg TimelineEvent.date hevent).trans_lt hlt)

/-- What the anchor of a target says of its observations before the start: they have one status,
that of the anchor unless it is dated at or before them. -/
def SettlesAnchors (s : PublishedStream F) (call : PublishCall F) : Prop :=
  ∀ start ∈ call.start, ∀ row ∈ call.observations, row.tradeDate < start →
    (∀ other ∈ call.observations, other.target = row.target → other.tradeDate < start →
      other.status = row.status) ∧
    ∀ anchor ∈ (seedAt s.timeline.events (start - 1)).get? row.target,
      anchor.status = row.status ∨ anchor.tradeDate ≤ row.tradeDate

omit [DecidableEq F] in
theorem mem_early {start : Date} (hstart : call.start = some start) {target : Target F}
    {o : Observation} :
    o ∈ observationsOf call.early target ↔ ∃ row ∈ call.observations, row.tradeDate < start ∧
      row.target = target ∧ row.observation = o := by
  rw [mem_observationsOf]
  refine exists_congr fun row => ?_
  rw [PublishCall.early, List.mem_filter, mem_orderedObservations, hstart, and_assoc]
  simp

omit [DecidableEq F] in
/-- The condition on the anchors, target by target. -/
theorem settlesAnchors_iff {start : Date} (hstart : call.start = some start) :
    s.SettlesAnchors call ↔ ∀ target, ∀ o ∈ observationsOf call.early target,
      (∀ o' ∈ observationsOf call.early target, o'.status = o.status) ∧
      ∀ anchor ∈ (seedAt s.timeline.events (start - 1)).get? target,
        anchor.status = o.status ∨ anchor.tradeDate ≤ o.date := by
  constructor
  · intro h target o ho
    obtain ⟨row, hrow, hlt, rfl, rfl⟩ := (mem_early hstart).mp ho
    obtain ⟨hstatus, hanchor⟩ := h start hstart row hrow hlt
    refine ⟨fun o' ho' => ?_, hanchor⟩
    obtain ⟨other, hother, hlt', htarget, rfl⟩ := (mem_early hstart).mp ho'
    exact hstatus other hother htarget hlt'
  · intro h start' hstart' row hrow hlt
    obtain rfl : start = start' := Option.some.inj (hstart.symm.trans hstart')
    obtain ⟨hstatus, hanchor⟩ :=
      h row.target row.observation ((mem_early hstart).mpr ⟨row, hrow, hlt, rfl, rfl⟩)
    refine ⟨fun other hother htarget hlt' => ?_, hanchor⟩
    exact hstatus other.observation ((mem_early hstart).mpr ⟨other, hother, hlt', htarget, rfl⟩)

omit [DecidableEq F] in
theorem get?_anchors_some (events : List (StateEvent F)) (start : Date) (target : Target F) :
    (anchors events (some start)).get? target =
      ((seedAt events (start - 1)).get? target).map (·.toStateEntry) := by
  rw [anchors, Table.get?_filterMap, Option.map_eq_bind]
  rfl

omit [DecidableEq F] in
theorem early_sorted (call : PublishCall F) (target : Target F) :
    (observationsOf call.early target).Pairwise fun o o' => o.date ≤ o'.date := by
  refine List.pairwise_map.mpr ((((orderedObservations_sorted call.observations).filter _).filter
    _).imp ?_)
  rintro a b (hlt | ⟨heq, -⟩)
  · exact hlt.le
  · exact heq.le

omit [DecidableEq F] in
theorem settled_of_log_nil {start : Date} (hstart : call.start = some start) {target : Target F}
    (hlog : timelineRecorder.log ((anchors s.timeline.events call.start).get? target)
      (observationsOf call.early target) = []) :
    ∀ o ∈ observationsOf call.early target,
      (∀ o' ∈ observationsOf call.early target, o'.status = o.status) ∧
      ∀ anchor ∈ (seedAt s.timeline.events (start - 1)).get? target,
        anchor.status = o.status ∨ anchor.tradeDate ≤ o.date := by
  intro o ho
  rw [log_eq_nil_iff, hstart, get?_anchors_some] at hlog
  cases hseed : (seedAt s.timeline.events (start - 1)).get? target with
  | none => simpa [hseed] using hlog o ho
  | some seed =>
    simp only [hseed, Option.map_some, Option.any_some, decide_eq_true_eq] at hlog
    refine ⟨fun o' ho' => (hlog o' ho').symm.trans (hlog o ho), fun anchor hanchor => ?_⟩
    obtain rfl : seed = anchor := Option.some.inj hanchor
    exact .inl (hlog o ho)

/-- The anchors of a call that is repeated: the loop makes no event of a target before the start
exactly if its observations there are settled, and then resumes from the entry it had reached. -/
theorem anchors_again (hs : s.Sequenced) (hs' : s'.Sequenced) (h : s.publish call = .ok s')
    (hchanged : ¬s.unchanged call) {start : Date} (hstart : call.start = some start)
    (target : Target F) :
    (timelineRecorder.log ((anchors s'.timeline.events call.start).get? target)
        (observationsOf call.early target) = [] ↔
      ∀ o ∈ observationsOf call.early target,
        (∀ o' ∈ observationsOf call.early target, o'.status = o.status) ∧
        ∀ anchor ∈ (seedAt s.timeline.events (start - 1)).get? target,
          anchor.status = o.status ∨ anchor.tradeDate ≤ o.date) ∧
    (timelineRecorder.log ((anchors s'.timeline.events call.start).get? target)
        (observationsOf call.early target) = [] →
      (anchors s'.timeline.events call.start).get? target = (s.settled call).get? target) := by
  have hanchor : (anchors s.timeline.events call.start).get? target =
      ((seedAt s.timeline.events (start - 1)).get? target).map (·.toStateEntry) := by
    rw [hstart, get?_anchors_some]
  have hanchor' : (anchors s'.timeline.events call.start).get? target =
      ((seedAt s'.timeline.events (start - 1)).get? target).map (·.toStateEntry) := by
    rw [hstart, get?_anchors_some]
  have hsorted := early_sorted call target
  rw [get?_settled, timelineRecorder.final_eq]
  by_cases hlog : timelineRecorder.log ((anchors s.timeline.events call.start).get? target)
      (observationsOf call.early target) = []
  · -- no event of the target before the start: its anchor is the same
    have hsame : (anchors s'.timeline.events call.start).get? target =
        (anchors s.timeline.events call.start).get? target := by
      rw [hanchor, hanchor', seedAt_of_log_nil hs hs' h hchanged hstart hlog]
    rw [hsame]
    exact ⟨iff_of_true hlog (settled_of_log_nil hstart hlog), fun _ => by rw [hlog]; rfl⟩
  · cases hearly : observationsOf call.early target with
    | nil => simp [hearly] at hlog
    | cons first rest =>
      have hstatus (hall : ∀ o ∈ first :: rest, o.status = first.status) :
          ¬((anchors s.timeline.events call.start).get? target).any (·.status = first.status) := by
        intro hany
        refine hlog (log_eq_nil_iff.mpr fun o ho => ?_)
        rw [hearly] at ho
        rwa [hall o ho]
      have hdates : ∀ o ∈ first :: rest, first.date ≤ o.date := by
        rw [hearly] at hsorted
        intro o ho
        rcases List.mem_cons.mp ho with rfl | ho
        · exact le_rfl
        · exact (List.pairwise_cons.mp hsorted).1 o ho
      have hsingle (hall : ∀ o ∈ first :: rest, o.status = first.status) :
          ∃ kind, timelineRecorder.log ((anchors s.timeline.events call.start).get? target)
            (observationsOf call.early target) = [⟨first.date, kind,
              observationEntry ((anchors s.timeline.events call.start).get? target) first⟩] := by
        rw [hearly]
        exact log_of_status (hstatus hall) fun o ho => hall o (List.mem_cons_of_mem first ho)
      -- an anchor of another status has to give way to the event of the first observation
      have hsettles (hnil : timelineRecorder.log
          ((anchors s'.timeline.events call.start).get? target) (first :: rest) = []) :
          (∀ o ∈ first :: rest, o.status = first.status) ∧
            ∀ seed ∈ (seedAt s.timeline.events (start - 1)).get? target,
              seed.tradeDate ≤ first.date := by
        rw [log_eq_nil_iff, hanchor'] at hnil
        have hall : ∀ o ∈ first :: rest, o.status = first.status := by
          intro o ho
          have hstatusFirst := hnil first List.mem_cons_self
          have hstatusO := hnil o ho
          cases hseed' : (seedAt s'.timeline.events (start - 1)).get? target with
          | none => simp [hseed'] at hstatusO
          | some seed' =>
            simp only [hseed', Option.map_some, Option.any_some, decide_eq_true_eq] at *
            exact hstatusO.symm.trans hstatusFirst
        refine ⟨hall, fun seed hseed => ?_⟩
        by_contra hlt
        obtain ⟨kind, hkind⟩ := hsingle hall
        have hseed' := seedAt_of_lt hs hs' h hchanged hstart hkind hseed (not_le.mp hlt)
        have hseed : (seedAt s.timeline.events (start - 1)).get? target = some seed := hseed
        have hsame := hnil first List.mem_cons_self
        have hdiffers := hstatus hall
        rw [hseed'] at hsame
        rw [hanchor, hseed] at hdiffers
        exact hdiffers hsame
      have hresumes (hall : ∀ o ∈ first :: rest, o.status = first.status)
          (hseed : ∀ seed ∈ (seedAt s.timeline.events (start - 1)).get? target,
            seed.tradeDate ≤ first.date) :
          (anchors s'.timeline.events call.start).get? target = some
            (observationEntry ((anchors s.timeline.events call.start).get? target) first) := by
        obtain ⟨kind, hkind⟩ := hsingle hall
        obtain ⟨seed, hseed', hevent⟩ :=
          seedAt_of_log_singleton hs hs' h hchanged hstart hkind hseed
        rw [hanchor', hseed', Option.map_some]
        exact congrArg some (congrArg TimelineEvent.entry hevent)
      refine ⟨⟨fun hnil o ho => ?_, fun hsettled => ?_⟩, fun hnil => ?_⟩
      · obtain ⟨hall, hseed⟩ := hsettles hnil
        refine ⟨fun o' ho' => (hall o' ho').trans (hall o ho).symm, fun anchor hanchor => ?_⟩
        exact .inr ((hseed anchor hanchor).trans (hdates o ho))
      · obtain ⟨hall, hseed⟩ := hsettled first List.mem_cons_self
        have hentry := hresumes hall fun seed hseedMem => (hseed seed hseedMem).resolve_left
          fun hsame => by
            have hdiffers := hstatus hall
            have hseedMem : (seedAt s.timeline.events (start - 1)).get? target = some seed :=
              hseedMem
            rw [hanchor, hseedMem] at hdiffers
            exact hdiffers (by simpa using hsame)
        rw [hentry, log_eq_nil_iff]
        intro o ho
        simp [hall o ho]
      · obtain ⟨hall, hseed⟩ := hsettles hnil
        obtain ⟨kind, hkind⟩ := hsingle hall
        rw [hresumes hall hseed, ← hearly, hkind]
        rfl

/-- A repetition that makes no event before the start reaches it with the same entries. -/
theorem settled_again (hs : s.Sequenced) (hs' : s'.Sequenced) (h : s.publish call = .ok s')
    (hearly : recorded call.sourceRevision (anchors s'.timeline.events call.start) call.early = []) :
    s'.settled call = s.settled call := by
  by_cases hchanged : s.unchanged call
  · rw [settled, events_of_unchanged h hchanged]
    rfl
  refine Table.ext_get? fun target => ?_
  have hlog := recorded_eq_nil_iff.mp hearly target
  rw [get?_settled, timelineRecorder.final_eq, hlog, List.getLast?_nil, Option.map_none,
    Option.none_or]
  cases hstart : call.start with
  | none =>
    have hnil : call.early = [] := by simp [PublishCall.early, hstart]
    rw [get?_settled, hnil, hstart]
    rfl
  | some start =>
    have hresumes := (anchors_again hs hs' h hchanged hstart target).2 hlog
    rwa [hstart] at hresumes

/-- A call that is repeated changes no event exactly if the anchors are settled. -/
theorem unchanged_again_iff (hs : s.Sequenced) (hs' : s'.Sequenced) (h : s.publish call = .ok s')
    (hle : ∀ row ∈ call.observations, row.tradeDate ≤ call.through) :
    s'.unchanged call ↔ s.SettlesAnchors call := by
  have hsettles : s.SettlesAnchors call ↔
      recorded call.sourceRevision (anchors s'.timeline.events call.start) call.early = [] := by
    cases hstart : call.start with
    | none => simp [SettlesAnchors, PublishCall.early, recorded, hstart]
    | some start =>
      rw [settlesAnchors_iff hstart, recorded_eq_nil_iff, ← hstart]
      refine forall_congr' fun target => ?_
      by_cases hchanged : s.unchanged call
      · have hlog := recorded_eq_nil_iff.mp (recorded_early_of_unchanged hchanged) target
        rw [events_of_unchanged h hchanged]
        exact iff_of_true (settled_of_log_nil hstart hlog) hlog
      · exact (anchors_again hs hs' h hchanged hstart target).1.symm
  rw [hsettles]
  refine ⟨recorded_early_of_unchanged, fun hearly => ?_⟩
  have hsettled := settled_again hs hs' h hearly
  by_cases hchanged : s.unchanged call
  · rwa [unchanged, folded, events_of_unchanged h hchanged]
  · rw [unchanged_iff, replaced_signatures h hchanged hle, folded_split, hearly, hsettled]
    rfl

omit [DecidableEq F] in
/-- The rows a call writes, from the entries at its start. -/
theorem folded_last (s : PublishedStream F) (call : PublishCall F) (target : Target F) :
    (s.folded call).last.get? target =
      ((orderedObservations call.observations).filter (·.target = target)).getLast?.bind fun row =>
        (timelineRecorder.final ((s.settled call).get? target)
          (observationsOf call.late target)).map (row.published call.sourceRevision) := by
  rw [folded, foldObservations, foldl_publishRow_last, ← call.early_append_late,
    observationsOf_append, Recorder.final_append, ← get?_settled]
  cases ((call.early ++ call.late).filter (·.target = target)).getLast? <;> rfl

/-- The number of events a call returns. -/
def written (s : PublishedStream F) (call : PublishCall F) : ℕ :=
  if s.unchanged call then 0 else (s.folded call).events.length

/-- The condition under which an accepted call changes nothing when it is repeated. -/
structure Repeatable (s : PublishedStream F) (call : PublishCall F) : Prop where
  le_through : ∀ row ∈ call.observations, row.tradeDate ≤ call.through
  reaches : s.ReachesCutoff call
  settles : s.SettlesAnchors call

theorem Sequenced.publish (hs : s.Sequenced) (h : s.publish call = .ok s') : s'.Sequenced := by
  have hstep : s.step call = s' := by rw [PublishedStream.step, h]
  exact hstep ▸ hs.step call

/-- Writing the rows of the last call again leaves the current rows. -/
theorem current_again (hs : s.Sequenced) (h : s.publish call = .ok s') (hunchanged : s'.unchanged call) :
    (if call.start.isNone then ∅ else s'.timeline.current).insertMany (s'.folded call).last.rows =
      s'.timeline.current := by
  have hsettled := settled_again hs (hs.publish h) h (recorded_early_of_unchanged hunchanged)
  have hlast : (s'.folded call).last = (s.folded call).last :=
    Table.ext_get? fun target => by rw [folded_last, folded_last, hsettled]
  obtain ⟨-, rfl⟩ := publish_eq_ok.mp h
  refine Table.ext_get? fun target => ?_
  rw [hlast, Table.get?_insertMany_table]
  split
  · next hstart => simp only [Table.get?_insertMany_table]
  · next hstart =>
    simp only [Table.get?_insertMany_table]
    cases (s.folded call).last.get? target <;> rfl

theorem publish_again (hs : s.Sequenced) (h : s.publish call = .ok s') (hcall : s.Repeatable call) :
    s'.publish call = .ok s' ∧ s'.written call = 0 := by
  have hunchanged := (unchanged_again_iff hs (hs.publish h) h hcall.le_through).mpr hcall.settles
  have hprevious := (publish_previousThrough h hcall.le_through).mpr hcall.reaches
  refine ⟨publish_eq_ok.mpr ⟨(not_refuses_publish h).mpr hcall.le_through, ?_⟩, if_pos hunchanged⟩
  rw [current_again hs h hunchanged]
  simp [hunchanged, hprevious]

theorem repeatable_of_publish_again (hs : s.Sequenced) (h : s.publish call = .ok s')
    {s'' : PublishedStream F} (h' : s'.publish call = .ok s'')
    (hgeneration : s''.stateGeneration = s'.stateGeneration) : s.Repeatable call := by
  obtain ⟨haccepted, rfl⟩ := publish_eq_ok.mp h'
  have hle := (not_refuses_publish h).mp haccepted
  have hsame : ¬(!s'.unchanged call || s'.timeline.previousThrough ≠ some call.through) = true := by
    intro hchanges
    simp only [if_pos hchanges] at hgeneration
    lia
  simp only [Bool.or_eq_true, Bool.not_eq_true', decide_eq_true_eq, not_or, ne_eq,
    Bool.not_eq_false, not_not] at hsame
  exact ⟨hle, (publish_previousThrough h hle).mp hsame.2,
    (unchanged_again_iff hs (hs.publish h) h hle).mp hsame.1⟩

/-- In every reachable state, a call that is accepted and repeated at once returns no event and
leaves the valid events, the current rows and the watermarks exactly if none of its observations is
after its cutoff, a current row reaches the cutoff, and the anchors are settled. -/
theorem publish_twice_iff (calls : List (PublishCall F)) {call : PublishCall F}
    {s' : PublishedStream F} (h : (run step initial calls).publish call = .ok s') :
    (∃ s'', s'.publish call = .ok s'' ∧ s'.written call = 0 ∧
      s''.timeline.events.filter (·.valid) = s'.timeline.events.filter (·.valid) ∧
      s''.timeline.current = s'.timeline.current ∧ s''.eventSequence = s'.eventSequence ∧
      s''.stateGeneration = s'.stateGeneration) ↔
      (run step initial calls).Repeatable call := by
  have hs : (run step initial calls).Sequenced :=
    run_preserves Sequenced (fun s call hs => hs.step call) .initial calls
  constructor
  · rintro ⟨s'', h', -, -, -, -, hgeneration⟩
    exact repeatable_of_publish_again hs h h' hgeneration
  · intro hcall
    obtain ⟨h', hwritten⟩ := publish_again hs h hcall
    exact ⟨s', h', hwritten, rfl, rfl, rfl, rfl⟩

end PublishedStream

/-- The other direction of the pair of `vanishingTarget`. -/
def crossDownTarget : Target Ranged := ⟨.maCrossDown, .maPair 2 3⟩

/-- A full publication of two targets, and a partial one that observes one of them before its
start. -/
def fullThenPartial : PublishCall Ranged × PublishCall Ranged :=
  let row (day : Date) (target : Target Ranged) (status : StateStatus) : StateRow Ranged :=
    ⟨day, target, status, ⟨status = .active, false, none, [], [], none⟩⟩
  (⟨1, [row 1 vanishingTarget .inactive, row 1 crossDownTarget .active,
      row 2 vanishingTarget .active, row 2 crossDownTarget .inactive], none, 2⟩,
    ⟨2, [row 2 vanishingTarget .active, row 3 vanishingTarget .active,
      row 4 vanishingTarget .inactive, row 4 crossDownTarget .active], some 3, 4⟩)

/-- The partial publication, repeated at once, changes nothing. -/
theorem publish_twice_iff_partial :
    let call := fullThenPartial.2
    let s := run PublishedStream.step PublishedStream.initial [fullThenPartial.1]
    s.timeline.events.length = 4 ∧ ∃ s', s.publish call = .ok s' ∧ s'.timeline.events.length = 6 ∧
      ∃ s'', s'.publish call = .ok s'' ∧ s'.written call = 0 ∧
        s''.timeline.events.filter (·.valid) = s'.timeline.events.filter (·.valid) ∧
        s''.timeline.current = s'.timeline.current ∧ s''.eventSequence = s'.eventSequence ∧
        s''.stateGeneration = s'.stateGeneration := by
  intro call s
  refine ⟨by decide +kernel, ?_⟩
  obtain ⟨hrefuses, -⟩ | ⟨-, hpublish⟩ := s.step_cases call
  · exact absurd hrefuses (by decide +kernel)
  · have hcall : s.Repeatable call :=
      { le_through := by decide +kernel
        reaches := .inl (by decide +kernel)
        settles := by
          unfold PublishedStream.SettlesAnchors
          decide +kernel }
    exact ⟨_, hpublish, by decide +kernel,
      (PublishedStream.publish_twice_iff [fullThenPartial.1] hpublish).mpr hcall⟩

/-- A call without observations leaves no current row that would remember its cutoff. -/
theorem not_publish_twice_empty :
    ∃ (call : PublishCall Ranged) (s' : PublishedStream Ranged),
      (run PublishedStream.step PublishedStream.initial []).publish call = .ok s' ∧
      ¬∃ s'', s'.publish call = .ok s'' ∧ s'.written call = 0 ∧
        s''.timeline.events.filter (·.valid) = s'.timeline.events.filter (·.valid) ∧
        s''.timeline.current = s'.timeline.current ∧ s''.eventSequence = s'.eventSequence ∧
        s''.stateGeneration = s'.stateGeneration := by
  obtain ⟨hrefuses, -⟩ | ⟨-, hpublish⟩ := PublishedStream.initial.step_cases
    (⟨1, [], none, 1⟩ : PublishCall Ranged)
  · exact absurd hrefuses (by decide +kernel)
  · refine ⟨⟨1, [], none, 1⟩, _, hpublish, ?_⟩
    rintro ⟨s'', h', -, -, -, -, hgeneration⟩
    have hcall := PublishedStream.repeatable_of_publish_again .initial hpublish h' hgeneration
    rcases hcall.reaches with ⟨row, hrow, -⟩ | ⟨hstart, -⟩
    · cases hrow
    · cases hstart

end Apanel
