import Apanel.States.Engine
import Apanel.Backend.IndicatorService

/-!
# The state timeline

`StateEventRepository` (`app/repositories/state_event.py`): the compact timeline of state events of
one stream and its current snapshot. Superseded events stay in the table with `valid = false`.
-/

namespace Apanel

/-- The parameters of a state target: a projected MA pair, or those of the indicator request. -/
inductive StateParameters (F : Type)
  | maPair (short long : ℕ)
  | request (request : IndicatorRequest F)

/-- A target `(state_code, parameter_key)`. The key digests code and parameters, which stand for
their own digest; the sort order of targets is an arbitrary linear order. -/
structure Target (F : Type) where
  code : StateCode
  parameters : StateParameters F

/-- One entry of a row's `value_context`. -/
structure ValueContext (F : Type) where
  label : ContextField
  currentValue : Option F
  previousValue : Option F
  change : Option F
  deriving DecidableEq

/-- The metadata of an observation, less the constants of its definition. -/
structure StateMetadata (F : Type) where
  active : Bool
  transition : Bool
  reason : Option StateReason
  values : Values F
  valueContext : List (ValueContext F)
  expectedPreviousTradeDate : Option Date
  deriving DecidableEq

/-- A transient state observation (`StateRow`). -/
structure StateRow (F : Type) where
  tradeDate : Date
  target : Target F
  status : StateStatus
  metadata : StateMetadata F

inductive EventKind
  | baseline
  | unknown
  | enter
  | recover
  | exit
  deriving DecidableEq

/-- The part of a published observation that later observations continue. -/
structure StateEntry where
  status : StateStatus
  sinceDate : Option Date
  observedFrom : Date
  sinceIsExact : Bool
  deriving DecidableEq

/-- A published observation: a `CurrentIndicatorState` row, and the payload of a `StateEvent`. -/
structure PublishedState (F : Type) extends StateEntry where
  target : Target F
  tradeDate : Date
  sourceRevision : ℤ
  metadata : StateMetadata F

structure StateEvent (F : Type) extends PublishedState F where
  kind : EventKind
  streamSeq : ℤ
  valid : Bool
  isRestatement : Bool

section Publish

variable {F : Type} [LinearOrder (Target F)]

/-- Ascending `(trade_date, state_code, parameter_key)`. -/
def precedes (date date' : Date) (target target' : Target F) : Prop :=
  date < date' ∨ date = date' ∧ target ≤ target'

instance (date date' : Date) (target target' : Target F) :
    Decidable (precedes date date' target target') :=
  inferInstanceAs (Decidable (_ ∨ _))

/-- `seed_at`: the last confirmed event at or before `day` of every target. -/
def seedAt (events : List (StateEvent F)) (day : Date) : Table (Target F) (StateEvent F) :=
  Table.ofList <|
    ((events.filter fun event => event.valid ∧ event.tradeDate ≤ day).insertionSort fun a b =>
      a.tradeDate < b.tradeDate ∨ a.tradeDate = b.tradeDate ∧ a.streamSeq ≤ b.streamSeq).map
        fun event => (event.target, event)

/-- The kind of event an observation makes after `prior`, if any. -/
def eventKind (prior : Option StateEntry) (row : StateRow F) : Option EventKind :=
  match prior with
  | none => some .baseline
  | some prior =>
    if row.status = prior.status then none
    else if row.status = .unknown then some .unknown
    else if prior.status = .unknown then
      if row.status = .active ∧ row.metadata.transition then some .enter else some .recover
    else if row.status = .active then some .enter else some .exit

/-- The values published for one observation. -/
def publishedState (sourceRevision : ℤ) (prior : Option StateEntry) (row : StateRow F) :
    PublishedState F :=
  let entry : StateEntry :=
    match prior, eventKind prior row with
    | some prior, none => { prior with status := row.status }
    | _, kind =>
      let exact : Bool := kind = some .enter ∨ kind = some .exit
      { status := row.status
        sinceDate := if exact then some row.tradeDate else none
        observedFrom := row.tradeDate
        sinceIsExact := exact }
  { entry with target := row.target, tradeDate := row.tradeDate, sourceRevision,
               metadata := row.metadata }

/-- The dictionaries `current` and `last` and the events of the loop in `publish`. -/
structure PublishState (F : Type) [LinearOrder (Target F)] where
  current : Table (Target F) StateEntry
  last : Table (Target F) (PublishedState F)
  events : List (PublishedState F × EventKind)

def publishRow (sourceRevision : ℤ) (s : PublishState F) (row : StateRow F) : PublishState F :=
  let prior := s.current.get? row.target
  let values := publishedState sourceRevision prior row
  { current := s.current.insert row.target values.toStateEntry
    last := s.last.insert row.target values
    events := s.events ++ ((eventKind prior row).map (values, ·)).toList }

/-- `_signature`: what makes two events the same on a replay. -/
structure EventSignature (F : Type) where
  tradeDate : Date
  target : Target F
  kind : EventKind
  entry : StateEntry
  metadata : StateMetadata F

instance [DecidableEq F] : DecidableEq (EventSignature F) := fun a b =>
  decidable_of_iff
    (a.tradeDate = b.tradeDate ∧ a.target = b.target ∧ a.kind = b.kind ∧ a.entry = b.entry ∧
      a.metadata = b.metadata) <| by
    cases a; cases b; simp

def EventSignature.of (event : PublishedState F × EventKind) : EventSignature F :=
  { tradeDate := event.1.tradeDate, target := event.1.target, kind := event.2
    entry := event.1.toStateEntry, metadata := event.1.metadata }

def StateEvent.signature (event : StateEvent F) : EventSignature F :=
  .of (event.toPublishedState, event.kind)

/-- The state tables of one stream. -/
structure Timeline (F : Type) [LinearOrder (Target F)] where
  events : List (StateEvent F)
  current : Table (Target F) (PublishedState F)

/-- `max(row.trade_date for row in existing)`. -/
def Timeline.previousThrough (timeline : Timeline F) : Option Date :=
  (timeline.current.rows.map (·.2.tradeDate)).max?

/-- No current row is after the day a publication succeeds through. -/
theorem Timeline.le_of_previousThrough {timeline : Timeline F} {through : Date}
    (h : timeline.previousThrough.all (· ≤ through)) {target : Target F} {state : PublishedState F}
    (hstate : timeline.current.get? target = some state) : state.tradeDate ≤ through := by
  have hmem : state.tradeDate ∈ timeline.current.rows.map (·.2.tradeDate) :=
    List.mem_map_of_mem (f := (·.2.tradeDate)) (Table.get?_eq_some.mp hstate)
  rw [Timeline.previousThrough] at h
  cases hmax : (timeline.current.rows.map (·.2.tradeDate)).max? with
  | none =>
    rw [List.max?_eq_none_iff.mp hmax] at hmem
    cases hmem
  | some latest =>
    rw [hmax] at h
    exact ((List.max?_eq_some_iff.mp hmax).2 _ hmem).trans (by simpa using h)

/-- The observations in publication order. -/
def orderedObservations (observations : List (StateRow F)) : List (StateRow F) :=
  observations.insertionSort fun a b => precedes a.tradeDate b.tradeDate a.target b.target

/-- The anchors of a publication: a full rebuild starts without old facts, a partial one strictly
before the first rewritten day, `replace_from = start`. -/
def anchors (events : List (StateEvent F)) (start : Option Date) : Table (Target F) StateEntry :=
  match start with
  | none => ∅
  | some start => (seedAt events (start - 1)).filterMap fun _ event => some event.toStateEntry

/-- The loop of `publish` over the ordered observations. -/
def foldObservations (sourceRevision : ℤ) (events : List (StateEvent F))
    (observations : List (StateRow F)) (start : Option Date) : PublishState F :=
  (orderedObservations observations).foldl (publishRow sourceRevision)
    { current := anchors events start, last := ∅, events := [] }

/-- The valid events a publication from `start` through `through` replaces. -/
def replaces (start : Option Date) (through : Date) (event : StateEvent F) : Bool :=
  event.valid && event.tradeDate ≤ through && start.all (· ≤ event.tradeDate)

/-- Whether the new events are those already stored in the replaced range. -/
def isUnchanged [DecidableEq F] (events : List (StateEvent F)) (start : Option Date)
    (through : Date) (new : List (PublishedState F × EventKind)) : Bool :=
  let oldEvents := (events.filter (replaces start through)).insertionSort fun a b =>
    precedes a.tradeDate b.tradeDate a.target b.target
  oldEvents.map (·.signature) = new.map .of

/-- Invalidate the replaced events and append the new ones with the next sequence numbers.
Historical replacements must not masquerade as new live edges. -/
def replaceEvents (eventSequence : ℤ) (previousThrough : Option Date) (events : List (StateEvent F))
    (start : Option Date) (through : Date) (new : List (PublishedState F × EventKind)) :
    List (StateEvent F) :=
  (events.map fun event =>
    if replaces start through event then { event with valid := false } else event) ++
  new.zipIdx.map fun ((values, kind), index) =>
    { values with
      kind
      streamSeq := eventSequence + 1 + index
      valid := true
      isRestatement := previousThrough.all (values.tradeDate ≤ ·) }

/-- `publish`: replace a valid timeline suffix and its current snapshot. Identical replays preserve
the events. -/
def publish {δ : Type} [DecidableEq F] (stream : AnalysisStream δ) (timeline : Timeline F)
    (observations : List (StateRow F)) (start : Option Date) (through : Date) :
    Except ApiError (AnalysisStream δ × Timeline F) :=
  let previousThrough := timeline.previousThrough
  if previousThrough.any (through < ·) then .error .staleAnalysisTarget
  else
    let folded := foldObservations stream.sourceRevision timeline.events observations start
    let unchanged := isUnchanged timeline.events start through folded.events
    let stateGeneration :=
      if !unchanged || previousThrough ≠ some through then stream.stateGeneration + 1
      else stream.stateGeneration
    let eventSequence :=
      if unchanged then stream.eventSequence else stream.eventSequence + folded.events.length
    let events :=
      if unchanged then timeline.events
      else replaceEvents stream.eventSequence previousThrough timeline.events start through
        folded.events
    let current := (if start.isNone then ∅ else timeline.current).insertMany folded.last.rows
    .ok ({ stream with stateGeneration, eventSequence }, { events, current })

/-- What a successful publication leaves. -/
theorem publish_eq_ok {δ : Type} [DecidableEq F] {stream stream' : AnalysisStream δ}
    {timeline timeline' : Timeline F} {observations : List (StateRow F)} {start : Option Date}
    {through : Date}
    (h : publish stream timeline observations start through = .ok (stream', timeline')) :
    timeline.previousThrough.all (· ≤ through) ∧
    (∃ stateGeneration eventSequence,
      stream' = { stream with stateGeneration, eventSequence }) ∧
    timeline'.events =
      (let new := (foldObservations stream.sourceRevision timeline.events observations start).events
      if isUnchanged timeline.events start through new then timeline.events
      else replaceEvents stream.eventSequence timeline.previousThrough timeline.events start through
        new) ∧
    timeline'.current = (if start.isNone then ∅ else timeline.current).insertMany
      (foldObservations stream.sourceRevision timeline.events observations start).last.rows := by
  simp only [publish] at h
  split at h
  · cases h
  · next hstale =>
    obtain ⟨rfl, rfl⟩ := Prod.mk.inj (Except.ok.inj h)
    refine ⟨?_, ⟨_, _, rfl⟩, rfl, rfl⟩
    cases hp : timeline.previousThrough <;> simp_all

end Publish

/-! ## Concrete keys -/

/-- The integers that identify a target. -/
def Target.identity (target : Target Ranged) : List ℤ :=
  (target.code.ctorIdx : ℤ) :: match target.parameters with
    | .maPair short long => [0, short, long]
    | .request request => 1 :: request.code

theorem Target.identity_injective : Function.Injective Target.identity := by
  rintro ⟨code, parameters⟩ ⟨code', parameters'⟩ h
  simp only [identity, List.cons.injEq, Nat.cast_inj] at h
  obtain ⟨hcode, h⟩ := h
  obtain rfl : code = code' := StateCode.ctorIdx_injective hcode
  cases parameters <;> cases parameters' <;> simp only [List.cons.injEq, and_true] at h
  case maPair.maPair => rw [Nat.cast_inj.mp h.2.1, Nat.cast_inj.mp h.2.2]
  case request.request => rw [IndicatorRequest.code_injective h.2]
  all_goals exact absurd h.1 (by decide)

instance : LinearOrder (Target Ranged) := LinearOrder.lift' Target.identity Target.identity_injective

end Apanel
