import Apanel.Backend.AlertHistory
import Apanel.Library.Edges

/-!
# Catching up

A rule that is evaluated on some of the days published sends what it would have sent on every day:
the new occurrences of its state, or the rising edges of its condition
(`AlertTables.CaughtUp.evaluateDays_sublist`).
-/

namespace Apanel

section CatchUp

variable {F : Type} [Arith F] [LinearOrder (IndicatorRequest F)] [LinearOrder (Target F)]

/-! ## What a catch-up sends -/

/-- The readings of a field, with whether each satisfies the condition. -/
def readings (condition : AlertCondition F) (request : IndicatorRequest F) (field : Field)
    (snapshots : List (Date × SnapshotRow F)) : List ((Date × SnapshotRow F) × Bool) :=
  snapshots.filterMap fun snapshot => (snapshotValue snapshot.2 request field).map fun reading =>
    (snapshot, conditionSatisfied condition (.value reading.1))

/-- The dates of the edges of a condition, less those that restate history. -/
def edgeDates (prior : Bool) (readings : List ((Date × SnapshotRow F) × Bool)) : List Date :=
  ((risingEdges prior readings).filter fun snapshot => !restated snapshot.2 snapshot.1).map (·.1)

/-- The dates of the new occurrences among events. -/
def occurrenceDates (events : List (StateEvent F)) : List Date :=
  (events.filter fun event => event.status ≠ .unknown ∧ event.isFresh).map (·.tradeDate)

def HeldAlert.dates (s : HeldAlert F) : List Date := s.notifications.map (·.observationDate)

def AlertInstanceStatus.isActive (status : AlertInstanceStatus) : Bool := status = .active

omit [LinearOrder (IndicatorRequest F)] [LinearOrder (Target F)] in
theorem evaluateAlert_isActive (condition : AlertCondition F) (observation : AlertObservation F)
    (previous : AlertInstanceStatus) :
    (evaluateAlert condition observation previous).status.isActive =
      conditionSatisfied condition observation := by
  rw [evaluateAlert]
  cases conditionSatisfied condition observation <;> rfl

omit [LinearOrder (IndicatorRequest F)] [LinearOrder (Target F)] in
theorem evaluateAlert_triggered (condition : AlertCondition F) (observation : AlertObservation F)
    (previous : AlertInstanceStatus) :
    (evaluateAlert condition observation previous).triggered =
      (conditionSatisfied condition observation && !previous.isActive) := by
  rw [evaluateAlert]
  cases previous <;> rfl

omit [Arith F] [LinearOrder (IndicatorRequest F)] [LinearOrder (Target F)] in
theorem dates_enqueueTrigger (s : HeldAlert F) (context : AlertContext F) :
    (s.enqueueTrigger context).dates = s.dates ++ [context.date] := by
  rw [HeldAlert.dates, HeldAlert.enqueueTrigger, List.map_append]
  rfl

omit [Arith F] [LinearOrder (IndicatorRequest F)] [LinearOrder (Target F)] in
theorem dates_withStatus (s : HeldAlert F) (status : AlertInstanceStatus) :
    (s.withStatus status).dates = s.dates := rfl

omit [LinearOrder (IndicatorRequest F)] [LinearOrder (Target F)] in
/-- The loop over events sends the new occurrences, whatever the status. -/
theorem dates_catchUpEvents (target : Target F) (last : Date) (events : List (StateEvent F))
    (s : HeldAlert F) :
    (events.foldl (catchUpEvent target last) s).dates = s.dates ++ occurrenceDates events := by
  induction events generalizing s with
  | nil => exact (List.append_nil _).symm
  | cons event events ih =>
    have hstep : (catchUpEvent target last s event).dates =
        s.dates ++ occurrenceDates [event] := by
      rw [catchUpEvent, occurrenceDates, List.filter_singleton]
      by_cases hunknown : event.status = .unknown
      · simp [hunknown]
      · cases hfresh : event.isFresh with
        | false => simp [hunknown, dates_withStatus]
        | true => simp [hunknown, dates_enqueueTrigger, dates_withStatus]
    rw [List.foldl_cons, ih, hstep, List.append_assoc, occurrenceDates, occurrenceDates,
      ← List.map_append, ← List.filter_append]
    rfl

omit [LinearOrder (Target F)] in
/-- A snapshot with a reading sends its own edge and leaves its level. -/
theorem catchUpSnapshot_reading {request : IndicatorRequest F} {field : Field} (last : Date)
    (s : HeldAlert F) {snapshot : Date × SnapshotRow F} {reading : F × Option F × Option F}
    (hreading : snapshotValue snapshot.2 request field = some reading) :
    let level := conditionSatisfied s.rule.condition (.value reading.1)
    (catchUpSnapshot request field last s snapshot).dates =
        s.dates ++ edgeDates s.alertInstance.status.isActive [(snapshot, level)] ∧
      (catchUpSnapshot request field last s snapshot).alertInstance.status.isActive = level := by
  intro level
  rw [catchUpSnapshot, hreading]
  dsimp only
  rw [evaluateAlert_triggered, edgeDates, risingEdges, risingEdges, List.append_nil]
  cases hedge : level && !s.alertInstance.status.isActive with
  | false =>
    rw [Bool.false_and, if_neg Bool.false_ne_true, if_neg Bool.false_ne_true, List.filter_nil,
      List.map_nil, List.append_nil]
    exact ⟨rfl, evaluateAlert_isActive _ _ s.alertInstance.status⟩
  | true =>
    rw [Bool.true_and, if_pos rfl, List.filter_singleton]
    cases restated snapshot.2 snapshot.1 with
    | true =>
      exact ⟨(List.append_nil _).symm, evaluateAlert_isActive _ _ s.alertInstance.status⟩
    | false =>
      exact ⟨dates_enqueueTrigger _ _, evaluateAlert_isActive _ _ s.alertInstance.status⟩

omit [Arith F] [LinearOrder (Target F)] in
theorem edgeDates_append (prior : Bool)
    (readings readings' : List ((Date × SnapshotRow F) × Bool)) :
    edgeDates prior (readings ++ readings') =
      edgeDates prior readings ++ edgeDates (lastLevel prior readings) readings' := by
  rw [edgeDates, risingEdges_append, List.filter_append, List.map_append]
  rfl

omit [LinearOrder (Target F)] in
theorem rule_catchUpSnapshot (request : IndicatorRequest F) (field : Field) (last : Date)
    (s : HeldAlert F) (snapshot : Date × SnapshotRow F) :
    (catchUpSnapshot request field last s snapshot).rule.condition = s.rule.condition := by
  obtain ⟨new, hnew⟩ := catchUpSnapshot_sends request field last s snapshot
  rw [hnew.rule]

omit [LinearOrder (Target F)] in
/-- The loop over snapshots sends the edges after the status it starts from. -/
theorem dates_catchUpSnapshots (request : IndicatorRequest F) (field : Field) (last : Date)
    (snapshots : List (Date × SnapshotRow F)) (s : HeldAlert F) :
    (snapshots.foldl (catchUpSnapshot request field last) s).dates = s.dates ++
        edgeDates s.alertInstance.status.isActive
          (readings s.rule.condition request field snapshots) ∧
      (snapshots.foldl (catchUpSnapshot request field last) s).alertInstance.status.isActive =
        lastLevel s.alertInstance.status.isActive
          (readings s.rule.condition request field snapshots) := by
  induction snapshots generalizing s with
  | nil => exact ⟨(List.append_nil _).symm, rfl⟩
  | cons snapshot snapshots ih =>
    obtain ⟨hdates, hstatus⟩ := ih (catchUpSnapshot request field last s snapshot)
    rw [rule_catchUpSnapshot] at hdates hstatus
    rw [List.foldl_cons, hdates, hstatus]
    cases hvalue : snapshotValue snapshot.2 request field with
    | none =>
      have hskip : catchUpSnapshot request field last s snapshot = s := by
        rw [catchUpSnapshot, hvalue]
      have hreadings : readings s.rule.condition request field (snapshot :: snapshots) =
          readings s.rule.condition request field snapshots := by
        rw [readings, List.filterMap_cons, hvalue]
        rfl
      rw [hskip, hreadings]
      exact ⟨rfl, rfl⟩
    | some reading =>
      obtain ⟨hown, hlevel⟩ := catchUpSnapshot_reading last s hvalue
      have hreadings : readings s.rule.condition request field (snapshot :: snapshots) =
          [(snapshot, conditionSatisfied s.rule.condition (.value reading.1))] ++
            readings s.rule.condition request field snapshots := by
        rw [readings, List.filterMap_cons, hvalue]
        rfl
      rw [hown, hlevel, hreadings, edgeDates_append, lastLevel_append, List.append_assoc]
      exact ⟨rfl, rfl⟩

/-! ## What is due -/

/-- The events of a target after a date. -/
def eventsAfter (store : AnalysisStore F) (target : Target F) (after : Date) :
    List (StateEvent F) :=
  (validEvents store.timeline.events target).filter (after < ·.tradeDate)

/-- The snapshots of an indicator after a date. -/
def snapshotsAfter (store : AnalysisStore F) (type : IndicatorType) (after : Date) :
    List (Date × SnapshotRow F) :=
  (snapshotsOf store.snapshots type).filter (after < ·.1)

/-- The dates a rule is to send for after a date, from the status it has then. -/
def AlertCondition.due (condition : AlertCondition F) (status : AlertInstanceStatus)
    (store : AnalysisStore F) (after : Date) : List Date :=
  match condition with
  | .state target => occurrenceDates (eventsAfter store target after)
  | .value request field _ _ => edgeDates status.isActive
      (readings condition request field (snapshotsAfter store request.indicatorType after))
  | .dividendYield .. => []

/-- Whether a status is the one a rule has after the rows of a store. -/
def AlertCondition.Leaves (condition : AlertCondition F) (status : AlertInstanceStatus)
    (store : AnalysisStore F) (after : Date) (status' : AlertInstanceStatus) : Prop :=
  match condition with
  | .value request field _ _ => status'.isActive = lastLevel status.isActive
      (readings condition request field (snapshotsAfter store request.indicatorType after))
  | _ => True

/-- The number of rows a rule reads to catch up from a date. -/
def AlertCondition.missed (condition : AlertCondition F) (store : AnalysisStore F)
    (after : Date) : ℕ :=
  match condition with
  | .state target => (eventsAfter store target after).length
  | .value request .. => (snapshotsAfter store request.indicatorType after).length
  | .dividendYield .. => 0

/-- A store published through a day. -/
structure AnalysisStore.PublishedThrough (store : AnalysisStore F) (day : Date) : Prop where
  dated : store.timeline.Dated
  events : ∀ event ∈ store.timeline.events, event.valid → event.tradeDate ≤ day
  snapshots : ∀ snapshot ∈ store.snapshots.rows, snapshot.1 ≤ day
  current : store.stream.publicationIsCurrent
  through : store.stream.stateThrough = some day

/-- A later store keeps the rows of an earlier one and adds rows after its day. -/
structure AnalysisStore.Extends (store store' : AnalysisStore F) (day : Date) : Prop where
  events : ∃ new, store'.timeline.events = store.timeline.events ++ new ∧
    ∀ event ∈ new, day < event.tradeDate ∧ store.stream.eventSequence < event.streamSeq
  sequence : store.stream.eventSequence ≤ store'.stream.eventSequence
  snapshots : ∃ new, store'.snapshots.rows = store.snapshots.rows ++ new ∧
    ∀ snapshot ∈ new, day < snapshot.1

namespace AnalysisStore

variable {store store' store'' : AnalysisStore F} {day day' : Date}

omit [Arith F] in
theorem Extends.refl (store : AnalysisStore F) (day : Date) : store.Extends store day where
  events := ⟨[], (List.append_nil _).symm, fun _ hevent => absurd hevent List.not_mem_nil⟩
  sequence := le_rfl
  snapshots := ⟨[], (List.append_nil _).symm, fun _ hsnapshot => absurd hsnapshot List.not_mem_nil⟩

omit [Arith F] in
theorem Extends.trans (h : store.Extends store' day) (h' : store'.Extends store'' day')
    (hle : day ≤ day') : store.Extends store'' day := by
  obtain ⟨events, hevents, hnew⟩ := h.events
  obtain ⟨events', hevents', hnew'⟩ := h'.events
  obtain ⟨snapshots, hsnapshots, hrows⟩ := h.snapshots
  obtain ⟨snapshots', hsnapshots', hrows'⟩ := h'.snapshots
  refine ⟨⟨events ++ events', ?_, fun event hevent => ?_⟩, h.sequence.trans h'.sequence,
    ⟨snapshots ++ snapshots', ?_, fun snapshot hsnapshot => ?_⟩⟩
  · rw [hevents', hevents, List.append_assoc]
  · rcases List.mem_append.mp hevent with hevent | hevent
    · exact hnew event hevent
    · exact ⟨hle.trans_lt (hnew' event hevent).1, h.sequence.trans_lt (hnew' event hevent).2⟩
  · rw [hsnapshots', hsnapshots, List.append_assoc]
  · rcases List.mem_append.mp hsnapshot with hsnapshot | hsnapshot
    · exact hrows snapshot hsnapshot
    · exact hle.trans_lt (hrows' snapshot hsnapshot)

/-- The rows after an earlier date, up to a day and after it. -/
theorem filter_after_append {α : Type} {key : α → Date} {old new : List α} {after : Date}
    (hold : ∀ a ∈ old, key a ≤ day) (hnew : ∀ a ∈ new, day < key a) (hle : after ≤ day) :
    (old ++ new).filter (after < key ·) =
      old.filter (after < key ·) ++ (old ++ new).filter (day < key ·) := by
  have hnone : old.filter (day < key ·) = [] :=
    List.filter_eq_nil_iff.mpr fun a ha => by simpa using hold a ha
  have hall : new.filter (day < key ·) = new :=
    List.filter_eq_self.mpr fun a ha => decide_eq_true (hnew a ha)
  have hall' : new.filter (after < key ·) = new :=
    List.filter_eq_self.mpr fun a ha => decide_eq_true (hle.trans_lt (hnew a ha))
  rw [List.filter_append, List.filter_append, hnone, hall, hall', List.nil_append]

omit [Arith F] in
theorem PublishedThrough.eventsAfter_eq (h : store.PublishedThrough day)
    (hextends : store.Extends store' day) (target : Target F) {after : Date} (hle : after ≤ day) :
    eventsAfter store' target after =
      eventsAfter store target after ++ eventsAfter store' target day := by
  obtain ⟨new, hevents, hnew⟩ := hextends.events
  have hvalid : validEvents store'.timeline.events target =
      validEvents store.timeline.events target ++ validEvents new target := by
    rw [hevents, validEvents, List.filter_append]
    rfl
  rw [eventsAfter, eventsAfter, eventsAfter, hvalid]
  refine filter_after_append (fun event hevent => ?_)
    (fun event hevent => (hnew event (List.mem_filter.mp hevent).1).1) hle
  obtain ⟨hmem, hselect⟩ := List.mem_filter.mp hevent
  exact h.events event hmem (Bool.and_eq_true_iff.mp hselect).1

omit [Arith F] in
theorem PublishedThrough.snapshotsAfter_eq (h : store.PublishedThrough day)
    (hextends : store.Extends store' day) (type : IndicatorType) {after : Date}
    (hle : after ≤ day) :
    snapshotsAfter store' type after =
      snapshotsAfter store type after ++ snapshotsAfter store' type day := by
  obtain ⟨new, hrows, hnew⟩ := hextends.snapshots
  have htype : snapshotsOf store'.snapshots type = snapshotsOf store.snapshots type ++
      new.filter fun row => row.2.variantsOf type ≠ [] := by
    rw [snapshotsOf, hrows, List.filter_append]
    rfl
  rw [snapshotsAfter, snapshotsAfter, snapshotsAfter, htype]
  exact filter_after_append (fun row hrow => h.snapshots row (List.mem_filter.mp hrow).1)
    (fun row hrow => hnew row (List.mem_filter.mp hrow).1) hle

variable {condition : AlertCondition F} {status status' : AlertInstanceStatus}

/-- What is due at a later day is what is due at an earlier one, and then what is due from there. -/
theorem PublishedThrough.due_eq (h : store.PublishedThrough day)
    (hextends : store.Extends store' day) {after : Date} (hle : after ≤ day)
    (hleaves : condition.Leaves status store after status') :
    condition.due status store' after =
      condition.due status store after ++ condition.due status' store' day := by
  cases condition with
  | state target =>
    dsimp only [AlertCondition.due]
    rw [h.eventsAfter_eq hextends target hle, occurrenceDates, List.filter_append, List.map_append]
    rfl
  | value request field operator threshold =>
    dsimp only [AlertCondition.Leaves, AlertCondition.due] at hleaves ⊢
    rw [h.snapshotsAfter_eq hextends _ hle, readings, List.filterMap_append]
    exact (edgeDates_append _ _ _).trans (by rw [hleaves]; rfl)
  | dividendYield => rfl

omit [Arith F] in
theorem PublishedThrough.missed_le (h : store.PublishedThrough day) (condition : AlertCondition F)
    (hextends : store.Extends store' day) {after : Date} (hle : after ≤ day) :
    condition.missed store after ≤ condition.missed store' after ∧
      condition.missed store' day ≤ condition.missed store' after := by
  cases condition with
  | state target =>
    dsimp only [AlertCondition.missed]
    rw [h.eventsAfter_eq hextends target hle, List.length_append]
    omega
  | value request field operator threshold =>
    dsimp only [AlertCondition.missed]
    rw [h.snapshotsAfter_eq hextends _ hle, List.length_append]
    omega
  | dividendYield => exact ⟨le_rfl, le_rfl⟩

/-- Nothing is due after the day a store is published through. -/
theorem PublishedThrough.due_eq_nil (h : store.PublishedThrough day) :
    condition.due status store day = [] := by
  have hevents (target : Target F) : eventsAfter store target day = [] := by
    refine List.filter_eq_nil_iff.mpr fun event hevent => ?_
    obtain ⟨hmem, hselect⟩ := List.mem_filter.mp hevent
    simpa using h.events event hmem (Bool.and_eq_true_iff.mp hselect).1
  have hsnapshots (type : IndicatorType) : snapshotsAfter store type day = [] :=
    List.filter_eq_nil_iff.mpr fun row hrow => by
      simpa using h.snapshots row (List.mem_filter.mp hrow).1
  cases condition with
  | state target =>
    dsimp only [AlertCondition.due]
    rw [hevents]
    rfl
  | value request =>
    dsimp only [AlertCondition.due]
    rw [hsnapshots]
    rfl
  | dividendYield => rfl

end AnalysisStore

/-! ## One evaluation -/

omit [Arith F] in
theorem catchUpEvents_eq_eventsAfter {store : AnalysisStore F} {evaluated day : Date} {seq : ℤ}
    (h : store.PublishedThrough day) (target : Target F)
    (hunconsumed : ∀ event ∈ eventsAfter store target evaluated, seq < event.streamSeq) :
    catchUpEvents store.timeline target (evaluated + 1) day seq =
      eventsAfter store target evaluated := by
  rw [catchUpEvents_eq h.dated, eventsAfter]
  refine List.filter_congr fun event hevent => ?_
  obtain ⟨hmem, hselect⟩ := List.mem_filter.mp hevent
  have hle := h.events event hmem (Bool.and_eq_true_iff.mp hselect).1
  rw [decide_eq_decide]
  constructor
  · rintro ⟨hfirst, -, -⟩
    exact Int.add_one_le_iff.mp hfirst
  · intro hlt
    exact ⟨hlt, hle, hunconsumed event (List.mem_filter.mpr ⟨hevent, decide_eq_true hlt⟩)⟩

omit [Arith F] in
theorem catchUpSnapshots_eq_snapshotsAfter {store : AnalysisStore F} {day : Date}
    (h : store.PublishedThrough day) (type : IndicatorType) (evaluated : Date) :
    catchUpSnapshots store.snapshots type (evaluated + 1) day =
      snapshotsAfter store type evaluated := by
  refine List.filter_congr fun snapshot hsnapshot => ?_
  have hle := h.snapshots snapshot (List.mem_filter.mp hsnapshot).1
  rw [decide_eq_decide, Int.add_one_le_iff]
  exact and_iff_left hle

omit [LinearOrder (Target F)] in
theorem lastConsumed_catchUpSnapshots (request : IndicatorRequest F) (field : Field) (last : Date)
    (snapshots : List (Date × SnapshotRow F)) (s : HeldAlert F) :
    (snapshots.foldl (catchUpSnapshot request field last) s).alertInstance.lastConsumedStateSeq =
      s.alertInstance.lastConsumedStateSeq := by
  induction snapshots generalizing s with
  | nil => rfl
  | cons snapshot snapshots ih =>
    rw [List.foldl_cons, ih, catchUpSnapshot]
    split
    · rfl
    · dsimp only
      split <;> rfl

/-- A catch-up sends what is due. -/
theorem catchUp_due {store : AnalysisStore F} {evaluated day : Date} {s : HeldAlert F}
    (h : store.PublishedThrough day)
    (hunconsumed : ∀ target, s.rule.condition = .state target →
      ∀ event ∈ eventsAfter store target evaluated,
        s.alertInstance.lastConsumedStateSeq < event.streamSeq)
    (hmissed : s.rule.condition.missed store evaluated ≤ maxCatchupRows)
    (current : Option (AlertObservation F)) :
    ∃ s', catchUp store evaluated day current s = .ok (some s') ∧
      s'.dates = s.dates ++ s.rule.condition.due s.alertInstance.status store evaluated ∧
      s.rule.condition.Leaves s.alertInstance.status store evaluated s'.alertInstance.status ∧
      (s'.alertInstance.lastConsumedStateSeq = s.alertInstance.lastConsumedStateSeq ∨
        s'.alertInstance.lastConsumedStateSeq = store.stream.eventSequence) := by
  rw [catchUp]
  cases hcondition : s.rule.condition with
  | state target =>
    rw [hcondition] at hmissed
    dsimp only [AlertCondition.missed, AlertCondition.due, AlertCondition.Leaves] at hmissed ⊢
    have hevents := catchUpEvents_eq_eventsAfter h target (hunconsumed target hcondition)
    have hdates := dates_catchUpEvents target day (eventsAfter store target evaluated) s
    rw [catchUpState, h.through]
    dsimp only
    rw [hevents, if_neg (by simp), if_neg (not_lt.mpr hmissed)]
    cases current with
    | none => exact ⟨_, rfl, hdates, trivial, .inr rfl⟩
    | some observation => exact ⟨_, rfl, hdates, trivial, .inr rfl⟩
  | value request field operator threshold =>
    rw [hcondition] at hmissed
    dsimp only [AlertCondition.missed, AlertCondition.due, AlertCondition.Leaves] at hmissed ⊢
    have hsnapshots := catchUpSnapshots_eq_snapshotsAfter h request.indicatorType evaluated
    obtain ⟨hdates, hstatus⟩ := dates_catchUpSnapshots request field day
      (snapshotsAfter store request.indicatorType evaluated) s
    rw [hcondition] at hdates hstatus
    rw [catchUpValue]
    dsimp only
    rw [hsnapshots, if_neg (not_lt.mpr hmissed)]
    exact ⟨_, rfl, hdates, hstatus, .inl (lastConsumed_catchUpSnapshots request field day _ s)⟩
  | dividendYield =>
    exact ⟨_, rfl, (List.append_nil _).symm, trivial, .inl rfl⟩

namespace AlertTables

variable {t : AlertTables F} {found : AlertInstance} {store store' : AnalysisStore F}
  {evaluated day : Date}

def dates (t : AlertTables F) : List Date := t.notifications.map (·.observationDate)

/-- An enabled rule with an instance that is evaluated through the day of a store. -/
structure CaughtUp (t : AlertTables F) (found : AlertInstance) (store : AnalysisStore F)
    (day : Date) : Prop where
  enabled : t.rule.enabled
  indicator : t.isDividendYield = false
  held : t.found = some found
  version : found.ruleVersion = t.rule.ruleVersion
  evaluated : found.lastEvaluatedTradeDate = some day
  consumed : ∀ target, t.rule.condition = .state target →
    found.lastConsumedStateSeq ≤ store.stream.eventSequence

/-- An evaluation of a later day is a catch-up. -/
theorem CaughtUp.exists_catchUp (h : t.CaughtUp found store evaluated) (hlt : evaluated < day)
    {sources : AlertSources F} (hday : (sources.storeOf t.rule).PublishedThrough day)
    {caughtUp : Option (AlertObservation F) → HeldAlert F}
    (hcatchUp : ∀ current, catchUp (sources.storeOf t.rule) evaluated day current (t.hold found) =
      .ok (some (caughtUp current))) :
    ∃ current, t.evaluateRule sources (some day) = .ok (t.put (caughtUp current)) := by
  have hversion : ¬ found.ruleVersion ≠ t.rule.ruleVersion := not_not.mpr h.version
  have hfound : t.found.map (atVersion t.rule.ruleVersion) = some found := by
    rw [h.held, Option.map_some, atVersion, if_neg hversion]
  rw [AlertTables.evaluateRule, h.enabled, if_neg (by simp)]
  cases hresolved : (resolve sources t.rule).filter fun resolved =>
      (some day).all (· = resolved.context.date) with
  | none =>
    refine ⟨none, ?_⟩
    have hpending : ¬ ((!(sources.storeOf t.rule).stream.publicationIsCurrent) = true ∨
        (sources.storeOf t.rule).stream.stateThrough ≠ some day) := by
      simp [hday.current, hday.through]
    dsimp only
    rw [if_neg hpending, AlertTables.unavailableObservation, h.held]
    dsimp only
    rw [if_neg hversion, h.evaluated]
    dsimp only
    rw [if_pos hlt, hcatchUp]
    rfl
  | some resolved =>
    have hdate : day = resolved.context.date :=
      of_decide_eq_true (Option.filter_eq_some_iff.mp hresolved).2
    refine ⟨some resolved.observation, ?_⟩
    have hnot : ¬ resolved.context.date < evaluated := by
      rw [← hdate]
      exact hlt.le.not_gt
    have hmissed : evaluated < resolved.context.date ∧ (!t.isDividendYield) = true := by
      rw [← hdate, h.indicator]
      exact ⟨hlt, rfl⟩
    dsimp only
    rw [AlertTables.observed, hfound, Option.bind_some, h.evaluated]
    simp only [Option.isSome_some]
    rw [if_neg hnot, if_pos hmissed, ← hdate, hcatchUp]
    rfl

/-- An evaluation of a later day sends what is due since the last one. -/
theorem CaughtUp.evaluateRule (h : t.CaughtUp found store evaluated)
    (hextends : store.Extends store' evaluated) (hstore : store.PublishedThrough evaluated)
    (hlt : evaluated < day) {sources : AlertSources F} (hsources : sources.storeOf t.rule = store')
    (hday : store'.PublishedThrough day)
    (hmissed : t.rule.condition.missed store' evaluated ≤ maxCatchupRows) :
    ∃ t' found', t.evaluateRule sources (some day) = .ok t' ∧ t'.CaughtUp found' store' day ∧
      t'.rule = { t.rule with triggerSequence := t'.rule.triggerSequence } ∧
      t'.dates = t.dates ++ t.rule.condition.due found.status store' evaluated ∧
      t.rule.condition.Leaves found.status store' evaluated found'.status := by
  have hunconsumed (target : Target F) (htarget : t.rule.condition = .state target) :
      ∀ event ∈ eventsAfter store' target evaluated,
        (t.hold found).alertInstance.lastConsumedStateSeq < event.streamSeq := by
    obtain ⟨new, hevents, hnew⟩ := hextends.events
    intro event hevent
    obtain ⟨hmem, hafter⟩ := List.mem_filter.mp hevent
    obtain ⟨hmem, hselect⟩ := List.mem_filter.mp hmem
    rw [hevents] at hmem
    rcases List.mem_append.mp hmem with hold | hmem
    · have hle := hstore.events event hold (Bool.and_eq_true_iff.mp hselect).1
      exact absurd (of_decide_eq_true hafter) hle.not_gt
    · exact (h.consumed target htarget).trans_lt (hnew event hmem).2
  choose caughtUp hcatchUp hdates hleaves hconsumed using
    catchUp_due (s := t.hold found) hday hunconsumed hmissed
  subst hsources
  obtain ⟨current, hok⟩ := h.exists_catchUp hlt hday hcatchUp
  obtain ⟨⟨new, hsends⟩, hlast⟩ := catchUp_sends hday.dated (hcatchUp current)
  have hrule : (caughtUp current).rule =
      { t.rule with triggerSequence := (caughtUp current).rule.triggerSequence } := hsends.rule
  refine ⟨_, (caughtUp current).alertInstance, hok, ⟨?_, ?_, ?_, ?_, hlast, ?_⟩, hrule,
    hdates current, hleaves current⟩
  · change (caughtUp current).rule.enabled
    rw [hrule]
    exact h.enabled
  · refine (isDividendYield_eq ?_).trans h.indicator
    change (caughtUp current).rule.condition = t.rule.condition
    rw [hrule]
  · change (t.instances.insert t.rule.securityId _).get? (caughtUp current).rule.securityId = _
    rw [hrule, Table.get?_insert_self]
  · change _ = (caughtUp current).rule.ruleVersion
    rw [hrule, hsends.version]
    exact h.version
  · change ∀ target, (caughtUp current).rule.condition = .state target → _
    rw [hrule]
    intro target htarget
    rcases hconsumed current with heq | heq
    · rw [heq]
      exact (h.consumed target htarget).trans hextends.sequence
    · exact heq.le

/-- The evaluations of a rule on days of publication. -/
def evaluateDays (t : AlertTables F) (days : List (Date × AlertSources F)) :
    Except AlertError (AlertTables F) :=
  days.foldlM (fun t day => t.evaluateRule day.2 (some day.1)) t

/-- One day of publication after another, for the series of a rule. -/
def Follows (securityId : ℤ) (adjustType : Adjustment) (a b : Date × AlertSources F) : Prop :=
  a.1 < b.1 ∧ (a.2.store securityId adjustType).Extends (b.2.store securityId adjustType) a.1

instance (securityId : ℤ) (adjustType : Adjustment) :
    Trans (Follows (F := F) securityId adjustType) (Follows securityId adjustType)
      (Follows securityId adjustType) where
  trans h h' := ⟨h.1.trans h'.1, h.2.trans h'.2 h.1.le⟩

/-- Evaluations of some days send what is due on the last of them. -/
theorem CaughtUp.evaluateDays {first : Date × AlertSources F} {days : List (Date × AlertSources F)}
    (h : t.CaughtUp found (first.2.storeOf t.rule) first.1)
    (hfirst : (first.2.storeOf t.rule).PublishedThrough first.1)
    (hfollows : (first :: days).Pairwise (Follows t.rule.securityId t.rule.adjustType))
    (hdays : ∀ day ∈ days, (day.2.storeOf t.rule).PublishedThrough day.1)
    (hmissed : t.rule.condition.missed ((days.getLast?.getD first).2.storeOf t.rule) first.1 ≤
      maxCatchupRows) :
    ∃ t', t.evaluateDays days = .ok t' ∧ t'.dates = t.dates ++
      t.rule.condition.due found.status ((days.getLast?.getD first).2.storeOf t.rule) first.1 := by
  induction days generalizing t found first with
  | nil =>
    refine ⟨t, rfl, ?_⟩
    rw [List.getLast?_nil, Option.getD_none, hfirst.due_eq_nil, List.append_nil]
  | cons day days ih =>
    obtain ⟨hbefore, hrest⟩ := List.pairwise_cons.mp hfollows
    obtain ⟨hday, hdays⟩ := List.forall_mem_cons.mp hdays
    obtain ⟨hlt, hextends⟩ := hbefore day List.mem_cons_self
    rw [List.getLast?_cons, Option.getD_some] at hmissed ⊢
    have hlast :
        (day.2.storeOf t.rule).Extends ((days.getLast?.getD day).2.storeOf t.rule) day.1 := by
      cases hlast : days.getLast? with
      | none => exact .refl _ _
      | some last =>
        exact ((List.pairwise_cons.mp hrest).1 last (List.mem_of_getLast? hlast)).2
    obtain ⟨hmissed', hmissed''⟩ := hday.missed_le t.rule.condition hlast hlt.le
    obtain ⟨t', found', hok, hcaughtUp, hrule, hdates, hleaves⟩ :=
      h.evaluateRule hextends hfirst hlt rfl hday (hmissed'.trans hmissed)
    have hsources (sources : AlertSources F) :
        sources.storeOf t'.rule = sources.storeOf t.rule := by
      rw [hrule]
      rfl
    have hcondition : t'.rule.condition = t.rule.condition := by rw [hrule]
    have hfollows' : (day :: days).Pairwise (Follows t'.rule.securityId t'.rule.adjustType) := by
      rw [hrule]
      exact hrest
    have hcaughtUp' : t'.CaughtUp found' (day.2.storeOf t'.rule) day.1 := by rwa [hsources]
    obtain ⟨t'', hok', hdates'⟩ := ih hcaughtUp' (by rwa [hsources]) hfollows'
      (by simpa only [hsources] using hdays)
      (by rw [hsources, hcondition]; exact hmissed''.trans hmissed)
    refine ⟨t'', ?_, ?_⟩
    · rw [AlertTables.evaluateDays, List.foldlM_cons, hok]
      exact hok'
    · rw [hdates', hdates, hsources, hcondition, hday.due_eq hlast hlt.le hleaves,
        List.append_assoc]
      rfl

/-- Which days a rule is evaluated on makes no difference to the dates it sends for, so long as it
is evaluated on the last. -/
theorem CaughtUp.evaluateDays_sublist {first last : Date × AlertSources F}
    {days evaluated : List (Date × AlertSources F)}
    (h : t.CaughtUp found (first.2.storeOf t.rule) first.1)
    (hfollows : (first :: days).IsChain (Follows t.rule.securityId t.rule.adjustType))
    (hdays : ∀ day ∈ first :: days, (day.2.storeOf t.rule).PublishedThrough day.1)
    (hevaluated : evaluated.Sublist days) (hlast : days.getLast? = some last)
    (hlast' : evaluated.getLast? = some last)
    (hmissed : t.rule.condition.missed (last.2.storeOf t.rule) first.1 ≤ maxCatchupRows) :
    ∃ daily skipping, t.evaluateDays days = .ok daily ∧ t.evaluateDays evaluated = .ok skipping ∧
      skipping.dates = daily.dates ∧ daily.dates = t.dates ++
        t.rule.condition.due found.status (last.2.storeOf t.rule) first.1 := by
  obtain ⟨hfirst, hdays⟩ := List.forall_mem_cons.mp hdays
  have hpairwise := hfollows.pairwise
  obtain ⟨daily, hdaily, hdates⟩ := h.evaluateDays hfirst hpairwise hdays
    (by rwa [hlast, Option.getD_some])
  obtain ⟨skipping, hskipping, hdates'⟩ := h.evaluateDays hfirst
    (hpairwise.sublist (hevaluated.cons_cons first))
    (fun day hday => hdays day (hevaluated.subset hday))
    (by rwa [hlast', Option.getD_some])
  rw [hlast, Option.getD_some] at hdates
  rw [hlast', Option.getD_some] at hdates'
  exact ⟨daily, skipping, hdaily, hskipping, hdates'.trans hdates.symm, hdates⟩

end AlertTables

end CatchUp

end Apanel
