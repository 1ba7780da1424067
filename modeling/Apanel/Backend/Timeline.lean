import Apanel.Backend.Passes
import Apanel.Library.ChangeLog
import Mathlib.Data.List.Induction

/-!
# The timeline as a change log

For one target, the loop of `publish` is a recorder: it continues the entry of the target and logs
an event where the status changes. A publication from `start` keeps the valid events before `start`
and appends what it records of its observations, resuming from the last event it keeps
(`publish_validOf`); `Records` says that the valid events of a stream are the log of a history.
-/

namespace Apanel

/-- What the timeline records of an observation. -/
structure Observation where
  date : Date
  status : StateStatus
  transition : Bool
  deriving DecidableEq

/-- What makes two events of a target the same in the timeline. -/
structure TimelineEvent where
  date : Date
  kind : EventKind
  entry : StateEntry
  deriving DecidableEq

def StateRow.observation {F : Type} (row : StateRow F) : Observation :=
  ⟨row.tradeDate, row.status, row.metadata.transition⟩

def PublishedState.event {F : Type} (values : PublishedState F) (kind : EventKind) : TimelineEvent :=
  ⟨values.tradeDate, kind, values.toStateEntry⟩

def StateEvent.event {F : Type} (event : StateEvent F) : TimelineEvent :=
  event.toPublishedState.event event.kind

/-- The kind of event an observation makes after `prior`, and the entry it leads to. -/
def observationKind (prior : Option StateEntry) (o : Observation) : Option EventKind :=
  match prior with
  | none => some .baseline
  | some prior =>
    if o.status = prior.status then none
    else if o.status = .unknown then some .unknown
    else if prior.status = .unknown then
      if o.status = .active ∧ o.transition then some .enter else some .recover
    else if o.status = .active then some .enter else some .exit

def observationEntry (prior : Option StateEntry) (o : Observation) : StateEntry :=
  match prior, observationKind prior o with
  | some prior, none => { prior with status := o.status }
  | _, kind =>
    let exact : Bool := kind = some .enter ∨ kind = some .exit
    { status := o.status
      sinceDate := if exact then some o.date else none
      observedFrom := o.date
      sinceIsExact := exact }

theorem observationEntry_of_kind {prior : Option StateEntry} {o : Observation}
    (h : observationKind prior o = none) : prior = some (observationEntry prior o) := by
  cases prior with
  | none => cases h
  | some prior =>
    have hstatus : o.status = prior.status := by
      by_contra hne
      simp only [observationKind, if_neg hne] at h
      split_ifs at h
    simp only [observationEntry, h, hstatus]

@[simp] theorem observationEntry_status (prior : Option StateEntry) (o : Observation) :
    (observationEntry prior o).status = o.status := by
  unfold observationEntry
  split <;> rfl

/-- The recorder of one target. -/
def timelineRecorder : Recorder Date StateEntry Observation TimelineEvent where
  step prior o :=
    (observationEntry prior o,
      (observationKind prior o).map fun kind => ⟨o.date, kind, observationEntry prior o⟩)
  time := Observation.date
  stamp := TimelineEvent.date
  stateOf := TimelineEvent.entry
  logged prior o event h := by
    obtain ⟨kind, -, rfl⟩ := Option.map_eq_some_iff.mp h
    exact ⟨rfl, rfl⟩
  silent prior o h := observationEntry_of_kind (Option.map_eq_none_iff.mp h)

theorem timelineRecorder_step (prior : Option StateEntry) (o : Observation) :
    timelineRecorder.step prior o =
      (observationEntry prior o,
        (observationKind prior o).map fun kind => ⟨o.date, kind, observationEntry prior o⟩) := rfl

section Publication

variable {F : Type} [LinearOrder (Target F)]

omit [LinearOrder (Target F)] in
theorem eventKind_eq (prior : Option StateEntry) (row : StateRow F) :
    eventKind prior row = observationKind prior row.observation := rfl

omit [LinearOrder (Target F)] in
theorem publishedState_toStateEntry (revision : ℤ) (prior : Option StateEntry) (row : StateRow F) :
    (publishedState revision prior row).toStateEntry = observationEntry prior row.observation := by
  unfold publishedState observationEntry
  rw [eventKind_eq]
  rfl

/-- The observations of one target, in the order given. -/
def observationsOf (rows : List (StateRow F)) (target : Target F) : List Observation :=
  (rows.filter (·.target = target)).map (·.observation)

/-- The events of one target among those a publication makes. -/
def madeOf (events : List (PublishedState F × EventKind)) (target : Target F) :
    List TimelineEvent :=
  (events.filter (·.1.target = target)).map fun event => event.1.event event.2

/-- The valid events of one target, as stored and as the timeline shows them. -/
def validEvents (events : List (StateEvent F)) (target : Target F) : List (StateEvent F) :=
  events.filter fun event => event.valid && decide (event.target = target)

def validOf (events : List (StateEvent F)) (target : Target F) : List TimelineEvent :=
  (validEvents events target).map (·.event)

theorem publishRow_current (revision : ℤ) (s : PublishState F) (row : StateRow F)
    (target : Target F) :
    (publishRow revision s row).current.get? target =
      timelineRecorder.final (s.current.get? target) (observationsOf [row] target) := by
  by_cases htarget : row.target = target
  · subst htarget
    simp only [publishRow, Table.get?_insert_self, publishedState_toStateEntry, observationsOf,
      List.filter_cons, decide_true, if_true, List.filter_nil, List.map_cons, List.map_nil]
    rfl
  · simp only [publishRow, Table.get?_insert_of_ne (Ne.symm htarget), observationsOf,
      List.filter_cons, htarget, decide_false, Bool.false_eq_true, if_false, List.filter_nil,
      List.map_nil, Recorder.final_nil]

theorem publishRow_events (revision : ℤ) (s : PublishState F) (row : StateRow F)
    (target : Target F) :
    madeOf (publishRow revision s row).events target = madeOf s.events target ++
      timelineRecorder.log (s.current.get? target) (observationsOf [row] target) := by
  simp only [publishRow, madeOf, List.filter_append, List.map_append]
  congr 1
  by_cases htarget : row.target = target
  · subst htarget
    simp only [observationsOf, List.filter_cons, decide_true, if_true, List.filter_nil,
      List.map_cons, List.map_nil, Recorder.log, timelineRecorder, List.append_nil, eventKind_eq]
    cases observationKind (s.current.get? row.target) row.observation with
    | none => rfl
    | some kind =>
      have hvalues : (publishedState revision (s.current.get? row.target) row).target = row.target :=
        rfl
      simp only [Option.map_some, Option.toList_some, List.filter_cons, hvalues, decide_true,
        if_true, List.filter_nil, List.map_cons, List.map_nil, PublishedState.event,
        publishedState_toStateEntry]
      rfl
  · cases eventKind (s.current.get? row.target) row with
    | none => simp [observationsOf, htarget]
    | some kind =>
      have hvalues : (publishedState revision (s.current.get? row.target) row).target = row.target :=
        rfl
      simp [observationsOf, htarget, hvalues]

theorem observationsOf_cons (row : StateRow F) (rows : List (StateRow F)) (target : Target F) :
    observationsOf (row :: rows) target = observationsOf [row] target ++ observationsOf rows target := by
  rw [observationsOf, observationsOf, observationsOf, ← List.map_append, ← List.filter_append,
    List.singleton_append]

/-- The loop of `publish`, seen from one target: a recorder on its observations. -/
theorem foldl_publishRow (revision : ℤ) (s : PublishState F) (rows : List (StateRow F))
    (target : Target F) :
    madeOf (rows.foldl (publishRow revision) s).events target = madeOf s.events target ++
      timelineRecorder.log (s.current.get? target) (observationsOf rows target) := by
  induction rows generalizing s with
  | nil => simp [observationsOf]
  | cons row rows ih =>
    rw [List.foldl_cons, ih, publishRow_events, publishRow_current, observationsOf_cons row rows,
      Recorder.log_append, List.append_assoc]

theorem foldl_publishRow_current (revision : ℤ) (s : PublishState F) (rows : List (StateRow F))
    (target : Target F) :
    (rows.foldl (publishRow revision) s).current.get? target =
      timelineRecorder.final (s.current.get? target) (observationsOf rows target) := by
  induction rows generalizing s with
  | nil => rfl
  | cons row rows ih =>
    rw [List.foldl_cons, ih, publishRow_current, observationsOf_cons row rows, Recorder.final_append]

/-- A published observation with the entry it leads to. -/
def StateRow.published (row : StateRow F) (revision : ℤ) (entry : StateEntry) : PublishedState F :=
  { entry with target := row.target, tradeDate := row.tradeDate, sourceRevision := revision
               metadata := row.metadata }

/-- The published observation of a target is its last one. -/
theorem foldl_publishRow_last (revision : ℤ) (s : PublishState F) (rows : List (StateRow F))
    (target : Target F) :
    (rows.foldl (publishRow revision) s).last.get? target =
      match (rows.filter (·.target = target)).getLast? with
      | none => s.last.get? target
      | some row =>
        (timelineRecorder.final (s.current.get? target) (observationsOf rows target)).map
          (row.published revision) := by
  induction rows using List.reverseRecOn with
  | nil => rfl
  | append_singleton rows row ih =>
    rw [List.foldl_append, List.foldl_cons, List.foldl_nil, List.filter_append]
    by_cases htarget : row.target = target
    · subst htarget
      have hsingle : [row].filter (·.target = row.target) = [row] := by simp
      have hobs : observationsOf (rows ++ [row]) row.target =
          observationsOf rows row.target ++ observationsOf [row] row.target := by
        simp [observationsOf]
      rw [hsingle, List.getLast?_concat, hobs, Recorder.final_append, ← foldl_publishRow_current]
      simp only [publishRow, Table.get?_insert_self, observationsOf, List.filter_cons, decide_true,
        if_true, List.filter_nil, List.map_cons, List.map_nil]
      rfl
    · have hnone : [row].filter (·.target = target) = [] := by simp [htarget]
      have hobs : observationsOf (rows ++ [row]) target = observationsOf rows target := by
        simp [observationsOf, htarget]
      rw [hnone, List.append_nil, hobs, ← ih]
      exact Table.get?_insert_of_ne (Ne.symm htarget)

/-! ## One publication -/

/-- Observations of one target are in date order, one for each date. -/
def InDateOrder (rows : List (StateRow F)) : Prop :=
  ∀ target : Target F, (rows.filter (·.target = target)).Pairwise fun a b => a.tradeDate < b.tradeDate

/-- Observations in date order are one for each target and date. -/
theorem InDateOrder.nodup {rows : List (StateRow F)} (h : InDateOrder rows) :
    (rows.map fun row => (row.tradeDate, row.target)).Nodup := by
  induction rows with
  | nil => exact .nil
  | cons row rows ih =>
    have hrows : InDateOrder rows := fun target =>
      (h target).sublist ((List.sublist_cons_self row rows).filter _)
    refine List.nodup_cons.mpr ⟨fun hmem => ?_, ih hrows⟩
    obtain ⟨other, hother, heq⟩ := List.mem_map.mp hmem
    obtain ⟨hdate, htarget⟩ := Prod.mk.inj heq
    have hrow := h row.target
    rw [List.filter_cons_of_pos (by simp)] at hrow
    have hlt := (List.pairwise_cons.mp hrow).1 other
      (List.mem_filter.mpr ⟨hother, by simpa using htarget⟩)
    exact absurd hdate hlt.ne'

theorem observationsOf_orderedObservations {rows : List (StateRow F)} (h : InDateOrder rows)
    (target : Target F) :
    (orderedObservations rows).filter (·.target = target) = rows.filter (·.target = target) :=
  filter_insertionSort ((h target).imp fun hlt => .inl hlt)

/-- The events of a publication, and its current rows, target by target. -/
theorem foldObservations_events (revision : ℤ) (events : List (StateEvent F))
    {rows : List (StateRow F)} (h : InDateOrder rows) (start : Option Date) (target : Target F) :
    madeOf (foldObservations revision events rows start).events target =
      timelineRecorder.log ((anchors events start).get? target) (observationsOf rows target) := by
  rw [foldObservations, foldl_publishRow, observationsOf, observationsOf_orderedObservations h]
  rfl

theorem foldObservations_last (revision : ℤ) (events : List (StateEvent F))
    {rows : List (StateRow F)} (h : InDateOrder rows) (start : Option Date) (target : Target F) :
    (foldObservations revision events rows start).last.get? target =
      (rows.filter (·.target = target)).getLast?.bind fun row =>
        (timelineRecorder.final ((anchors events start).get? target)
          (observationsOf rows target)).map (row.published revision) := by
  rw [foldObservations, foldl_publishRow_last, observationsOf, observationsOf_orderedObservations h]
  cases (rows.filter (·.target = target)).getLast? <;> rfl

/-- The last valid event of a target at or before a day. -/
theorem get?_seedAt {events : List (StateEvent F)} {target : Target F}
    (hsorted : (validOf events target).Pairwise fun a b => a.date < b.date) (day : Date) :
    (seedAt events day).get? target =
      ((validEvents events target).filter (·.tradeDate ≤ day)).getLast? := by
  have hselect : (events.filter fun event => decide (event.valid ∧ event.tradeDate ≤ day)).filter
      (fun event => event.target = target) =
        (validEvents events target).filter (·.tradeDate ≤ day) := by
    rw [validEvents, List.filter_filter, List.filter_filter]
    refine List.filter_congr fun event _ => ?_
    cases event.valid <;> simp [Bool.and_comm]
  have hdates : ((validEvents events target).filter (·.tradeDate ≤ day)).Pairwise
      fun a b => a.tradeDate < b.tradeDate := (List.pairwise_map.mp hsorted).filter _
  rw [seedAt, Table.ofList, Table.get?_insertMany_getLast?, Table.get?_empty, Option.or_none,
    List.filter_map, List.getLast?_map, Option.map_map]
  simp only [Function.comp_def]
  rw [filter_insertionSort, hselect]
  · exact Option.map_id'
  · rw [hselect]
    exact hdates.imp fun hlt => .inl hlt

/-- The anchor of a target: the entry of its last valid event before the start. -/
theorem get?_anchors {events : List (StateEvent F)} {target : Target F}
    (hsorted : (validOf events target).Pairwise fun a b => a.date < b.date) (start : Option Date) :
    (anchors events start).get? target =
      ((validOf events target).filter fun event => !start.all (· ≤ event.date)).getLast?.map
        (·.entry) := by
  cases start with
  | none => simp [anchors]
  | some start =>
    rw [anchors, Table.get?_filterMap, get?_seedAt hsorted, validOf, List.filter_map,
      List.getLast?_map, Option.map_map]
    have hselect : (validEvents events target).filter (·.tradeDate ≤ start - 1) =
        (validEvents events target).filter
          ((fun event : TimelineEvent => !(some start).all (· ≤ event.date)) ∘ StateEvent.event) := by
      refine List.filter_congr fun event _ => ?_
      have : event.tradeDate ≤ start - 1 ↔ ¬start ≤ event.tradeDate := by lia
      simp only [this, decide_not, Function.comp_apply, Option.all_some]
      rfl
    rw [hselect]
    cases (List.filter _ (validEvents events target)).getLast? <;> rfl

/-- The events a publication keeps. -/
def keptOf (events : List (StateEvent F)) (start : Option Date) (target : Target F) :
    List TimelineEvent :=
  (validOf events target).filter fun event => !start.all (· ≤ event.date)

omit [LinearOrder (Target F)] in
theorem replaces_eq {events : List (StateEvent F)} {through : Date}
    (hthrough : ∀ event ∈ events, event.valid → event.tradeDate ≤ through) (start : Option Date)
    {event : StateEvent F} (hevent : event ∈ events) :
    replaces start through event = (event.valid && start.all (· ≤ event.tradeDate)) := by
  rw [replaces]
  cases hvalid : event.valid with
  | false => rfl
  | true => simp [hthrough event hevent hvalid]

/-- A replacement keeps the valid events before the start and adds the new ones. -/
theorem validOf_replaceEvents {events : List (StateEvent F)} {through : Date}
    (hthrough : ∀ event ∈ events, event.valid → event.tradeDate ≤ through) (eventSequence : ℤ)
    (previousThrough start : Option Date) (new : List (PublishedState F × EventKind))
    (target : Target F) :
    validOf (replaceEvents eventSequence previousThrough events start through new) target =
      keptOf events start target ++ madeOf new target := by
  rw [replaceEvents, validOf, validEvents, List.filter_append, List.map_append]
  congr 1
  · rw [keptOf, validOf, validEvents, List.filter_map, List.filter_map, List.filter_filter,
      List.map_map]
    have hevent (event : StateEvent F) :
        (if replaces start through event then { event with valid := false } else event).event =
          event.event := by split <;> rfl
    simp only [Function.comp_def, hevent]
    refine congrArg (List.map _) (List.filter_congr fun event hmem => ?_)
    rw [replaces_eq hthrough start hmem]
    have hdate : event.event.date = event.tradeDate := rfl
    rw [hdate]
    generalize start.all (· ≤ event.tradeDate) = replaced
    cases hvalid : event.valid <;> cases replaced <;> simp [hvalid]
  · have hzip : new = new.zipIdx.map Prod.fst := (List.zipIdx_map_fst 0 new).symm
    rw [madeOf]
    conv_rhs => rw [hzip]
    rw [List.filter_map, List.filter_map, List.map_map, List.map_map]
    rfl

/-- An identical replay replaces the events by themselves. -/
theorem validOf_of_isUnchanged [DecidableEq F] {events : List (StateEvent F)} {through : Date}
    (hthrough : ∀ event ∈ events, event.valid → event.tradeDate ≤ through) {start : Option Date}
    {new : List (PublishedState F × EventKind)} {target : Target F}
    (hsorted : (validOf events target).Pairwise fun a b => a.date < b.date)
    (h : isUnchanged events start through new) :
    validOf events target = keptOf events start target ++ madeOf new target := by
  have hold : ((events.filter (replaces start through)).filter (·.target = target)).map (·.event) =
      (validOf events target).filter fun event => start.all (· ≤ event.date) := by
    rw [validOf, validEvents, List.filter_map, List.filter_filter, List.filter_filter]
    refine congrArg (List.map _) (List.filter_congr fun event hmem => ?_)
    rw [replaces_eq hthrough start hmem]
    have hdate : event.event.date = event.tradeDate := rfl
    rw [Function.comp_apply, hdate]
    generalize start.all (· ≤ event.tradeDate) = replaced
    cases event.valid <;> cases replaced <;> simp
  have hdates : ((events.filter (replaces start through)).filter (·.target = target)).Pairwise
      fun a b => a.tradeDate < b.tradeDate := by
    have := hsorted.filter fun event => start.all (· ≤ event.date)
    rw [← hold, List.pairwise_map] at this
    exact this
  -- both sides of the comparison, restricted to the target
  have hnew : madeOf new target =
      (validOf events target).filter fun event => start.all (· ≤ event.date) := by
    have heq := of_decide_eq_true h
    have hselect := congrArg (fun signatures : List (EventSignature F) =>
      (signatures.filter (·.target = target)).map fun signature =>
        (⟨signature.tradeDate, signature.kind, signature.entry⟩ : TimelineEvent)) heq
    simp only [List.filter_map, List.map_map] at hselect
    have hsort : ((events.filter (replaces start through)).insertionSort fun a b =>
        precedes a.tradeDate b.tradeDate a.target b.target).filter (·.target = target) =
          (events.filter (replaces start through)).filter (·.target = target) :=
      filter_insertionSort (hdates.imp fun hlt => .inl hlt)
    rw [← hold, ← hsort]
    exact hselect.symm
  rw [hnew, keptOf]
  have hsplit := filter_append_filter_not (p := fun day : Date => !start.all (· ≤ day)) ?_ hsorted
  · simpa using hsplit.symm
  · intro day day' hlt hday'
    cases start with
    | none => simp at hday'
    | some start => simp at hday' ⊢; order

variable [DecidableEq F] {δ : Type} {stream stream' : AnalysisStream δ}
  {timeline timeline' : Timeline F} {rows : List (StateRow F)} {start : Option Date} {through : Date}

/-- The valid events of a target after a publication: those before the start, and what is recorded
of the observations from there. -/
theorem publish_validOf
    (h : publish stream timeline rows start through = .ok (stream', timeline'))
    (hrows : InDateOrder rows)
    (hthrough : ∀ event ∈ timeline.events, event.valid → event.tradeDate ≤ through)
    (target : Target F)
    (hsorted : (validOf timeline.events target).Pairwise fun a b => a.date < b.date) :
    validOf timeline'.events target =
      keptOf timeline.events start target ++
        timelineRecorder.log ((keptOf timeline.events start target).getLast?.map (·.entry))
          (observationsOf rows target) := by
  obtain ⟨-, -, hevents, -⟩ := publish_eq_ok h
  have hnew := foldObservations_events stream.sourceRevision timeline.events hrows start target
  rw [get?_anchors hsorted] at hnew
  rw [hevents]
  dsimp only
  split
  · next hunchanged =>
    rw [validOf_of_isUnchanged hthrough hsorted hunchanged, hnew]
    rfl
  · rw [validOf_replaceEvents hthrough, hnew]
    rfl

/-- The current row of a target after a publication. -/
theorem publish_current
    (h : publish stream timeline rows start through = .ok (stream', timeline'))
    (hrows : InDateOrder rows) (target : Target F)
    (hsorted : (validOf timeline.events target).Pairwise fun a b => a.date < b.date) :
    timeline'.current.get? target =
      ((rows.filter (·.target = target)).getLast?.bind fun row =>
        (timelineRecorder.final ((keptOf timeline.events start target).getLast?.map (·.entry))
          (observationsOf rows target)).map (row.published stream.sourceRevision)).or
        (if start.isNone then none else timeline.current.get? target) := by
  obtain ⟨-, -, -, hcurrent⟩ := publish_eq_ok h
  have hlast := foldObservations_last stream.sourceRevision timeline.events hrows start target
  rw [get?_anchors hsorted] at hlast
  rw [hcurrent, Table.get?_insertMany_table, hlast]
  cases start <;> rfl

end Publication

/-! ## The timeline of observations -/

section Logged

variable {F : Type} [LinearOrder (Target F)]

/-- The valid events are the log of the given observations. -/
def Logged (rows : List (StateRow F)) (events : List (StateEvent F)) : Prop :=
  ∀ target, validOf events target = timelineRecorder.log none (observationsOf rows target)

/-- The observations before a start, which a publication from there keeps. -/
def rowsBefore (rows : List (StateRow F)) (start : Option Date) : List (StateRow F) :=
  rows.filter fun row => !start.all (· ≤ row.tradeDate)

theorem observationsOf_append (rows rows' : List (StateRow F)) (target : Target F) :
    observationsOf (rows ++ rows') target =
      observationsOf rows target ++ observationsOf rows' target := by
  rw [observationsOf, List.filter_append, List.map_append]
  rfl

theorem observationsOf_filter (rows : List (StateRow F)) (p : Date → Bool) (target : Target F) :
    observationsOf (rows.filter fun row => p row.tradeDate) target =
      (observationsOf rows target).filter fun o => p o.date := by
  rw [observationsOf, observationsOf, List.filter_map, List.filter_filter, List.filter_filter]
  refine congrArg _ (List.filter_congr fun row _ => ?_)
  exact Bool.and_comm ..

theorem InDateOrder.observationsOf_sorted {rows : List (StateRow F)} (h : InDateOrder rows)
    (target : Target F) : (observationsOf rows target).Pairwise fun o o' => o.date < o'.date :=
  List.pairwise_map.mpr (h target)

theorem mem_observationsOf {rows : List (StateRow F)} {target : Target F} {o : Observation} :
    o ∈ observationsOf rows target ↔ ∃ row ∈ rows, row.target = target ∧ row.observation = o := by
  simp only [observationsOf, List.mem_map, List.mem_filter, decide_eq_true_eq, and_assoc]

theorem before_downward (start : Option Date) (day day' : Date) (hlt : day < day')
    (hday' : (!start.all (· ≤ day')) = true) : (!start.all (· ≤ day)) = true := by
  cases start with
  | none => simp at hday'
  | some start => simp at hday' ⊢; order

namespace Logged

variable {rows rows' : List (StateRow F)} {events : List (StateEvent F)}

theorem sorted (hlogged : Logged rows events) (horder : InDateOrder rows) (target : Target F) :
    (validOf events target).Pairwise fun a b => a.date < b.date := by
  rw [hlogged]
  exact timelineRecorder.log_sorted (horder.observationsOf_sorted target) none

/-- A logged event belongs to an observation. -/
theorem observed (hlogged : Logged rows events) {event : StateEvent F} (hevent : event ∈ events)
    (hvalid : event.valid) :
    ∃ row ∈ rows, row.target = event.target ∧ row.tradeDate = event.tradeDate := by
  have hmem : event.event ∈ validOf events event.target :=
    List.mem_map_of_mem (List.mem_filter.mpr ⟨hevent, by simp [hvalid]⟩)
  rw [hlogged] at hmem
  obtain ⟨o, ho, hdate⟩ := timelineRecorder.exists_of_mem_log hmem
  obtain ⟨row, hrow, htarget, rfl⟩ := mem_observationsOf.mp ho
  exact ⟨row, hrow, htarget, hdate.symm⟩

/-- The events kept before a start are those of the observations before it. -/
theorem kept (hlogged : Logged rows events) (horder : InDateOrder rows) (start : Option Date)
    (target : Target F) :
    keptOf events start target =
      timelineRecorder.log none (observationsOf (rowsBefore rows start) target) := by
  rw [rowsBefore, keptOf, hlogged, observationsOf_filter rows fun day => !start.all (· ≤ day)]
  exact timelineRecorder.log_filter (before_downward start) (horder.observationsOf_sorted target) none

/-- The status of the last valid event at or before a day is that of the last observation. -/
theorem seed_status (hlogged : Logged rows events) (horder : InDateOrder rows) (day : Date)
    (target : Target F) :
    ((seedAt events day).get? target).map (·.status) =
      ((observationsOf rows target).filter (·.date ≤ day)).getLast?.map (·.status) := by
  set obs := (observationsOf rows target).filter (·.date ≤ day) with hobs
  have hlast : ((seedAt events day).get? target).map (·.toStateEntry) =
      timelineRecorder.final none obs := by
    rw [get?_seedAt (hlogged.sorted horder target), timelineRecorder.final_eq none, Option.or_none]
    have hlog := timelineRecorder.log_filter (p := fun d => decide (d ≤ day))
      (fun d d' hlt hd' => by simp at hd' ⊢; order) (horder.observationsOf_sorted target) none
    refine Eq.trans ?_ (congrArg (fun log => log.getLast?.map TimelineEvent.entry) hlog)
    rw [← hlogged target, validOf, List.filter_map, List.getLast?_map, Option.map_map]
    rfl
  have hview := timelineRecorder.final_view StateEntry.status Observation.status
    observationEntry_status none obs
  rw [← hlast, Option.map_map, Option.map_none, Option.or_none] at hview
  exact hview

variable [DecidableEq F] {δ : Type} {stream stream' : AnalysisStream δ}
  {timeline timeline' : Timeline F} {start : Option Date} {through : Date}

/-- A publication keeps the observations before its start and logs the new ones. -/
theorem publish (hlogged : Logged rows timeline.events) (horder : InDateOrder rows)
    (hthrough : ∀ row ∈ rows, row.tradeDate ≤ through) (horder' : InDateOrder rows')
    (hpublish : Apanel.publish stream timeline rows' start through = .ok (stream', timeline')) :
    Logged (rowsBefore rows start ++ rows') timeline'.events := by
  intro target
  have hevents (event : StateEvent F) (hevent : event ∈ timeline.events) (hvalid : event.valid) :
      event.tradeDate ≤ through := by
    obtain ⟨row, hrow, -, hdate⟩ := hlogged.observed hevent hvalid
    exact hdate ▸ hthrough row hrow
  rw [publish_validOf hpublish horder' hevents target (hlogged.sorted horder target),
    hlogged.kept horder, observationsOf_append, timelineRecorder.log_append,
    timelineRecorder.final_eq none, Option.or_none]
  rfl

end Logged

end Logged

/-! ## The timeline of a history -/

section Records

variable {F : Type} [Arith F] [LinearOrder (IndicatorRequest F)] [LinearOrder (Target F)]

/-- The observations of one target on the given dates. -/
def History.track (h : History F) (dates : List Date) (target : Target F) : List Observation :=
  observationsOf (h.observed {} dates) target

/-- The valid events are the log of a history on the given dates. -/
def Records (h : History F) (dates : List Date) (events : List (StateEvent F)) : Prop :=
  ∀ target, validOf events target = timelineRecorder.log none (h.track dates target)

namespace History

theorem observed_append (h : History F) (filter : StateFilter F) (dates dates' : List Date) :
    h.observed filter (dates ++ dates') = h.observed filter dates ++ h.observed filter dates' :=
  List.flatMap_append

theorem track_append (h : History F) (dates dates' : List Date) (target : Target F) :
    h.track (dates ++ dates') target = h.track dates target ++ h.track dates' target := by
  rw [track, observed_append, observationsOf_append]
  rfl

theorem mem_observed {h : History F} {filter : StateFilter F} {dates : List Date}
    {row : StateRow F} :
    row ∈ h.observed filter dates ↔
      ∃ day ∈ dates, row ∈ h.rows day ∧ filter.accepts row.target := by
  simp only [observed, List.mem_flatMap, List.mem_filter]

theorem mem_track {h : History F} {dates : List Date} {target : Target F} {o : Observation} :
    o ∈ h.track dates target ↔
      ∃ day ∈ dates, ∃ row ∈ h.rows day, row.target = target ∧ row.observation = o := by
  simp only [track, mem_observationsOf, mem_observed]
  constructor
  · rintro ⟨row, ⟨day, hday, hrow, -⟩, htarget, rfl⟩
    exact ⟨day, hday, row, hrow, htarget, rfl⟩
  · rintro ⟨day, hday, row, hrow, htarget, rfl⟩
    exact ⟨row, ⟨day, hday, hrow, rfl⟩, htarget, rfl⟩

/-- The observations of a pass are in date order. -/
theorem observed_inDateOrder (h : History F) (filter : StateFilter F) {dates : List Date}
    (hdates : dates.Pairwise (· < ·)) : InDateOrder (h.observed filter dates) := by
  intro target
  induction dates with
  | nil => exact .nil
  | cons day dates ih =>
    obtain ⟨hfirst, hrest⟩ := List.pairwise_cons.mp hdates
    rw [observed, List.flatMap_cons, List.filter_append]
    refine List.pairwise_append.mpr ⟨?_, ih hrest, ?_⟩
    · have hnodup := List.pairwise_map.mp (h.rows_nodup day)
      refine ((hnodup.filter _).filter _).imp_of_mem fun ha hb hne => ?_
      have ha := of_decide_eq_true (List.mem_filter.mp ha).2
      have hb := of_decide_eq_true (List.mem_filter.mp hb).2
      exact absurd (ha.trans hb.symm) hne
    · intro a ha b hb
      have ha := (List.mem_filter.mp (List.mem_filter.mp ha).1).1
      obtain ⟨day', hday', hb, -⟩ := mem_observed.mp (List.mem_filter.mp hb).1
      rw [tradeDate_of_mem_rows ha, tradeDate_of_mem_rows hb]
      exact hfirst day' hday'

/-- The observation of a target on a date is its only one. -/
theorem filter_rows (h : History F) {day : Date} {row : StateRow F} (hrow : row ∈ h.rows day) :
    (h.rows day).filter (·.target = row.target) = [row] :=
  filter_eq_singleton (h.rows_nodup day) hrow

theorem track_singleton (h : History F) {day : Date} {row : StateRow F} (hrow : row ∈ h.rows day) :
    h.track [day] row.target = [row.observation] := by
  have hobserved : h.observed {} [day] = h.rows day := by
    rw [observed, List.flatMap_singleton]
    exact List.filter_eq_self.mpr fun _ _ => rfl
  rw [track, hobserved, observationsOf, h.filter_rows hrow]
  rfl

/-- The last observation of a target that is observed on the last date. -/
theorem getLast?_observed (h : History F) {dates : List Date} {day : Date}
    (hlast : dates.getLast? = some day) {row : StateRow F} (hrow : row ∈ h.rows day) :
    ((h.observed {} dates).filter (·.target = row.target)).getLast? = some row := by
  obtain ⟨dates, rfl⟩ := List.getLast?_eq_some_iff.mp hlast
  have hobserved : h.observed {} [day] = h.rows day := by
    rw [observed, List.flatMap_singleton]
    exact List.filter_eq_self.mpr fun _ _ => rfl
  rw [observed_append, hobserved, List.filter_append, h.filter_rows hrow]
  exact List.getLast?_concat

theorem track_sorted (h : History F) {dates : List Date} (hdates : dates.Pairwise (· < ·))
    (target : Target F) : (h.track dates target).Pairwise fun o o' => o.date < o'.date :=
  (h.observed_inDateOrder {} hdates).observationsOf_sorted target

theorem track_filter (h : History F) (dates : List Date) (p : Date → Bool) (target : Target F) :
    (h.track dates target).filter (fun o => p o.date) = h.track (dates.filter p) target := by
  induction dates with
  | nil => rfl
  | cons day dates ih =>
    have hcons (dates : List Date) : h.track (day :: dates) target =
        h.track [day] target ++ h.track dates target := h.track_append [day] dates target
    have hdate : ∀ o ∈ h.track [day] target, o.date = day := by
      intro o ho
      obtain ⟨day', hday', row, hrow, -, rfl⟩ := mem_track.mp ho
      rw [← List.mem_singleton.mp hday']
      exact tradeDate_of_mem_rows hrow
    rw [hcons, List.filter_append, ih, List.filter_cons]
    split
    · next hp =>
      rw [hcons (dates.filter p), List.filter_eq_self.mpr fun o ho => by rw [hdate o ho]; exact hp]
    · next hp =>
      rw [List.filter_eq_nil_iff.mpr fun o ho => by rw [hdate o ho]; exact hp, List.nil_append]

/-- The observations of a target depend on those of the dates, not on their metadata. -/
theorem track_congr_observations {h h' : History F} {dates : List Date}
    (hrows : ∀ day ∈ dates, (h.rows day).map (fun row => (row.target, row.observation)) =
      (h'.rows day).map fun row => (row.target, row.observation)) (target : Target F) :
    h.track dates target = h'.track dates target := by
  have htrack (h : History F) : h.track dates target =
      ((dates.flatMap fun day => (h.rows day).map fun row => (row.target, row.observation)).filter
        (·.1 = target)).map (·.2) := by
    have hall (day : Date) :
        (h.rows day).filter (fun row => ({} : StateFilter F).accepts row.target) = h.rows day :=
      List.filter_eq_self.mpr fun _ _ => rfl
    rw [track, observationsOf, observed, ← List.map_flatMap, List.filter_map, List.map_map]
    simp only [hall]
    rfl
  rw [htrack h, htrack h', List.flatMap_congr hrows]

theorem track_congr {h h' : History F} {dates : List Date} (hrows : ∀ day ∈ dates, h.rows day = h'.rows day)
    (target : Target F) : h.track dates target = h'.track dates target := by
  have : h.observed {} dates = h'.observed {} dates :=
    List.flatMap_congr fun day hday => by rw [hrows day hday]
  rw [track, track, this]

end History

variable {h h' : History F} {dates dates' : List Date} {events : List (StateEvent F)}

theorem Records.empty (h : History F) : Records h [] [] := fun _ => rfl

theorem Records.logged (hrecords : Records h dates events) :
    Logged (h.observed {} dates) events := hrecords

theorem Records.sorted (hrecords : Records h dates events) (hdates : dates.Pairwise (· < ·))
    (target : Target F) : (validOf events target).Pairwise fun a b => a.date < b.date :=
  hrecords.logged.sorted (h.observed_inDateOrder {} hdates) target

/-- A recorded event belongs to an observation. -/
theorem Records.observed (hrecords : Records h dates events) {event : StateEvent F}
    (hevent : event ∈ events) (hvalid : event.valid) :
    event.tradeDate ∈ dates ∧ h.HasTarget event.tradeDate event.target := by
  obtain ⟨row, hrow, htarget, hdate⟩ := hrecords.logged.observed hevent hvalid
  obtain ⟨day, hday, hrow, -⟩ := History.mem_observed.mp hrow
  obtain rfl : event.tradeDate = day := hdate.symm.trans (History.tradeDate_of_mem_rows hrow)
  refine ⟨hday, History.mem_items_targets.mp ?_⟩
  rw [← History.rows_targets, ← htarget]
  exact List.mem_map_of_mem hrow

/-- The dates a publication from `start` keeps. -/
def datesBefore (dates : List Date) (start : Option Date) : List Date :=
  dates.filter fun day => !start.all (· ≤ day)

theorem History.rowsBefore_observed (h : History F) (dates : List Date) (start : Option Date)
    (target : Target F) :
    observationsOf (rowsBefore (h.observed {} dates) start) target =
      h.track (datesBefore dates start) target := by
  rw [rowsBefore, observationsOf_filter (h.observed {} dates) fun day => !start.all (· ≤ day)]
  exact h.track_filter dates (fun day => !start.all (· ≤ day)) target

/-- The events kept before a start are those of the dates before it. -/
theorem Records.kept (hrecords : Records h dates events) (hdates : dates.Pairwise (· < ·))
    (start : Option Date) (target : Target F) :
    keptOf events start target =
      timelineRecorder.log none (h.track (datesBefore dates start) target) := by
  rw [hrecords.logged.kept (h.observed_inDateOrder {} hdates), h.rowsBefore_observed]

/-- The status of the last valid event at or before a day is that of the last observation. -/
theorem Records.seed_track (hrecords : Records h dates events) (hdates : dates.Pairwise (· < ·))
    (day : Date) (target : Target F) :
    ((seedAt events day).get? target).map (·.status) =
      (h.track (dates.filter (· ≤ day)) target).getLast?.map (·.status) := by
  rw [hrecords.logged.seed_status (h.observed_inDateOrder {} hdates),
    ← h.track_filter dates fun d => decide (d ≤ day)]
  rfl

theorem History.status_of_mem_track {target : Target F} {o : Observation}
    (ho : o ∈ h.track dates target) : o.date ∈ dates ∧ h.status o.date target = some o.status := by
  obtain ⟨day, hday, row, hrow, htarget, rfl⟩ := History.mem_track.mp ho
  obtain rfl : row.observation.date = day := History.tradeDate_of_mem_rows hrow
  exact ⟨hday, History.status_eq_some_iff_row.mpr ⟨row, hrow, htarget, rfl⟩⟩

theorem History.exists_mem_track {target : Target F} {day : Date} (hday : day ∈ dates)
    (hstatus : (h.status day target).isSome) : ∃ o ∈ h.track dates target, o.date = day := by
  obtain ⟨status, hstatus⟩ := Option.isSome_iff_exists.mp hstatus
  obtain ⟨row, hrow, htarget, -⟩ := History.status_eq_some_iff_row.mp hstatus
  exact ⟨row.observation, History.mem_track.mpr ⟨day, hday, row, hrow, htarget, rfl⟩,
    History.tradeDate_of_mem_rows hrow⟩

/-- The last observation at or before an observed date is that of the date: targets persist. -/
theorem History.track_getLast? (hdates : dates.Pairwise (· < ·))
    (hpersistent : h.snapshots.Persistent) (hstored : ∀ day ∈ dates, day ∈ h.snapshots.keys)
    {day : Date} (hday : day ∈ dates) (target : Target F) :
    (h.track (dates.filter (· ≤ day)) target).getLast?.map (·.status) = h.status day target := by
  have hmem : day ∈ dates.filter (· ≤ day) := List.mem_filter.mpr ⟨hday, by simp⟩
  cases hlast : (h.track (dates.filter (· ≤ day)) target).getLast? with
  | none =>
    cases hstatus : h.status day target with
    | none => rfl
    | some status =>
      obtain ⟨o, ho, -⟩ := History.exists_mem_track hmem (by rw [hstatus]; rfl)
      rw [List.getLast?_eq_none_iff.mp hlast] at ho
      cases ho
  | some o =>
    obtain ⟨hodate, hostatus⟩ := History.status_of_mem_track (List.mem_of_getLast? hlast)
    have hle : o.date ≤ day := of_decide_eq_true (List.mem_filter.mp hodate).2
    have htarget : h.HasTarget o.date target := History.status_isSome.mp (by rw [hostatus]; rfl)
    obtain ⟨o', ho', hdate⟩ := History.exists_mem_track hmem
      (History.status_isSome.mpr (htarget.persist hpersistent hle (hstored day hday)))
    have hge := le_of_getLast? (h.track_sorted (hdates.filter _) target) hlast ho'
    rw [hdate] at hge
    rw [← le_antisymm hle hge, hostatus]
    rfl

/-- What the seeds of a recorded timeline say: the status of each target at the seed date. -/
theorem Records.seed_status (hrecords : Records h dates events) (hdates : dates.Pairwise (· < ·))
    (hpersistent : h.snapshots.Persistent) (hstored : ∀ day ∈ dates, day ∈ h.snapshots.keys)
    {day : Date} (hday : day ∈ dates) (target : Target F) :
    ((seedAt events day).get? target).map (·.status) = h.status day target := by
  rw [hrecords.seed_track hdates, History.track_getLast? hdates hpersistent hstored hday]

/-- A seed belongs to an observed target. -/
theorem Records.seed_observed (hrecords : Records h dates events) (hdates : dates.Pairwise (· < ·))
    {day : Date} {target : Target F} (hseed : target ∈ (seedAt events day).keys) :
    ∃ d ∈ dates, d ≤ day ∧ h.HasTarget d target := by
  obtain ⟨event, hevent⟩ := Table.mem_keys.mp hseed
  rw [get?_seedAt (hrecords.sorted hdates target)] at hevent
  obtain ⟨hvalid, hle⟩ := List.mem_filter.mp (List.mem_of_getLast? hevent)
  obtain ⟨hmem, hvalid⟩ := List.mem_filter.mp hvalid
  rw [Bool.and_eq_true, decide_eq_true_eq] at hvalid
  obtain ⟨hdate, htarget⟩ := hrecords.observed hmem hvalid.1
  exact ⟨event.tradeDate, hdate, of_decide_eq_true hle, hvalid.2 ▸ htarget⟩

variable [DecidableEq F] {δ : Type} {stream stream' : AnalysisStream δ}
  {timeline timeline' : Timeline F} {start : Option Date} {through : Date}

/-- A publication over a recorded timeline records the kept observations and the new ones. -/
theorem Records.publish_validOf (hrecords : Records h dates timeline.events)
    (hdates : dates.Pairwise (· < ·)) (hthrough : ∀ day ∈ dates, day ≤ through)
    {rows : List (StateRow F)} (hrows : InDateOrder rows)
    (hpublish : publish stream timeline rows start through = .ok (stream', timeline'))
    (target : Target F) :
    validOf timeline'.events target = timelineRecorder.log none
      (h.track (datesBefore dates start) target ++ observationsOf rows target) := by
  have hlogged := hrecords.logged.publish (h.observed_inDateOrder {} hdates) (fun row hrow => by
    obtain ⟨day, hday, hrow, -⟩ := History.mem_observed.mp hrow
    exact History.tradeDate_of_mem_rows hrow ▸ hthrough day hday) hrows hpublish target
  rwa [observationsOf_append, h.rowsBefore_observed] at hlogged

/-- The current row of a target after such a publication. -/
theorem Records.publish_current (hrecords : Records h dates timeline.events)
    (hdates : dates.Pairwise (· < ·)) {rows : List (StateRow F)} (hrows : InDateOrder rows)
    (hpublish : publish stream timeline rows start through = .ok (stream', timeline'))
    (target : Target F) :
    timeline'.current.get? target =
      ((rows.filter (·.target = target)).getLast?.bind fun row =>
        (timelineRecorder.final none
          (h.track (datesBefore dates start) target ++ observationsOf rows target)).map
            (row.published stream.sourceRevision)).or
        (if start.isNone then none else timeline.current.get? target) := by
  rw [Apanel.publish_current hpublish hrows target (hrecords.sorted hdates target),
    hrecords.kept hdates, timelineRecorder.final_append, timelineRecorder.final_eq none,
    Option.or_none]
  rfl

/-- A publication of the observations of `h` from `start`, over a timeline that records `h'` and
agrees with `h` before `start`, records `h`. -/
theorem Records.publish (hrecords : Records h' dates' timeline.events)
    (hdates' : dates'.Pairwise (· < ·)) (hthrough : ∀ day ∈ dates', day ≤ through)
    (hdates : dates.Pairwise (· < ·))
    (hagree : ∀ day ∈ datesBefore dates' start, h'.rows day = h.rows day)
    (hpublish : Apanel.publish stream timeline (h.observed {} dates) start through =
      .ok (stream', timeline')) :
    Records h (datesBefore dates' start ++ dates) timeline'.events := by
  intro target
  rw [hrecords.publish_validOf hdates' hthrough (h.observed_inDateOrder {} hdates) hpublish,
    History.track_congr hagree, h.track_append]
  rfl

end Records

end Apanel
