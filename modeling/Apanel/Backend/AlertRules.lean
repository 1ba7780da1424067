import Apanel.Backend.Publication
import Apanel.Backend.Freshness
import Apanel.Hub.Transactions

/-!
# Alert rules

One alert rule with its instances and notifications: `AlertService`
(`app/services/alert_service.py`), the observations of `AlertObservationService` and the catch-up of
`app/services/alert_replay.py`. Every operation holds the lock of the rule row, so that the
operations on one rule are atomic.
-/

namespace Apanel

/-! ## Conditions -/

inductive AlertOperator
  | greaterThanOrEqual
  | greaterThan
  | lessThanOrEqual
  | lessThan
  | equal
  deriving DecidableEq

/-- The operator of a rule as it is stored: there are two spellings of equality. -/
inductive RuleOperator
  | operator (operator : AlertOperator)
  | equalsSign
  deriving DecidableEq

/-- The operator of the domain rule (`_domain_rule`). -/
def RuleOperator.domainOperator : RuleOperator → AlertOperator
  | .operator comparison => comparison
  | .equalsSign => .equal

inductive AlertInstanceStatus
  | active
  | reset
  deriving DecidableEq

/-- The condition of a rule; the target and the request stand for their parameter keys. -/
inductive AlertCondition (F : Type)
  | state (target : Target F)
  | value (request : IndicatorRequest F) (field : Field) (operator : RuleOperator) (threshold : F)
  | dividendYield (operator : RuleOperator) (threshold : F)

instance {F : Type} [DecidableEq F] [DecidableEq (Target F)] [DecidableEq (IndicatorRequest F)] :
    DecidableEq (AlertCondition F)
  | .state target, .state target' => decidable_of_iff (target = target') (by simp)
  | .value request field operator threshold, .value request' field' operator' threshold' =>
    decidable_of_iff
      (request = request' ∧ field = field' ∧ operator = operator' ∧ threshold = threshold')
      (by simp)
  | .dividendYield operator threshold, .dividendYield operator' threshold' =>
    decidable_of_iff (operator = operator' ∧ threshold = threshold') (by simp)
  | .state _, .value .. | .state _, .dividendYield .. | .value .., .state _
  | .value .., .dividendYield .. | .dividendYield .., .state _ | .dividendYield .., .value .. =>
    isFalse nofun

inductive AlertObservation (F : Type)
  | value (value : F)
  | state (active : Bool)

section Evaluator

variable {F : Type} [Arith F]

/-- `ValueCondition.matches`. -/
def AlertOperator.holds : AlertOperator → F → F → Bool
  | .greaterThanOrEqual, current, threshold => Arith.le threshold current
  | .greaterThan, current, threshold => Arith.lt threshold current
  | .lessThanOrEqual, current, threshold => Arith.le current threshold
  | .lessThan, current, threshold => Arith.lt current threshold
  | .equal, current, threshold => Arith.eq current threshold

/-- `_condition_satisfied`; a value that is not finite is an invalid observation. -/
def conditionSatisfied : AlertCondition F → AlertObservation F → Bool
  | .state _, .state active => active
  | .value _ _ operator threshold, .value current
  | .dividendYield operator threshold, .value current =>
    Arith.isFinite current && operator.domainOperator.holds current threshold
  | _, _ => false

structure AlertEvaluation where
  status : AlertInstanceStatus
  triggered : Bool

/-- `AlertEvaluator.evaluate` of an enabled rule. -/
def evaluateAlert (condition : AlertCondition F) (observation : AlertObservation F)
    (previousState : AlertInstanceStatus) : AlertEvaluation :=
  let satisfied := conditionSatisfied condition observation
  { status := if satisfied then .active else .reset
    triggered := satisfied && previousState ≠ .active }

end Evaluator

/-! ## Tables -/

/-- The row of a rule, as an evaluation reads and writes it. -/
structure AlertRuleRow (F : Type) where
  securityId : ℤ
  adjustType : Adjustment
  condition : AlertCondition F
  enabled : Bool
  ruleVersion : ℤ
  triggerSequence : ℤ

structure AlertInstance where
  status : AlertInstanceStatus
  triggerSequence : ℤ
  ruleVersion : ℤ
  lastConsumedStateSeq : ℤ
  lastEvaluatedTradeDate : Option Date

/-- A row of `notifications`, without its delivery. -/
structure AlertNotification (F : Type) where
  securityId : ℤ
  triggerSequence : ℤ
  ruleVersion : ℤ
  observationDate : Date
  currentValue : Option F
  previousValue : Option F
  change : Option F
  sourceEventId : Option ℤ
  sourceRevision : Option ℤ
  catchUp : Option Bool

/-- What a notification is made of. -/
structure AlertContext (F : Type) where
  date : Date
  currentValue : Option F := none
  previousValue : Option F := none
  change : Option F := none
  sourceEventId : Option ℤ := none
  sourceRevision : Option ℤ := none
  catchUp : Option Bool := none

/-- The rows of one rule. -/
structure AlertTables (F : Type) where
  rule : AlertRuleRow F
  instances : Table ℤ AlertInstance
  notifications : List (AlertNotification F)

/-- The rows that an evaluation holds: the rule, its instance and the notifications. -/
structure HeldAlert (F : Type) where
  rule : AlertRuleRow F
  alertInstance : AlertInstance
  notifications : List (AlertNotification F)

namespace HeldAlert

variable {F : Type}

def withStatus (s : HeldAlert F) (status : AlertInstanceStatus) : HeldAlert F :=
  { s with alertInstance := { s.alertInstance with status } }

/-- `_enqueue_trigger`. -/
def enqueueTrigger (s : HeldAlert F) (context : AlertContext F) : HeldAlert F :=
  let triggerSequence := max s.rule.triggerSequence s.alertInstance.triggerSequence + 1
  { rule := { s.rule with triggerSequence }
    alertInstance := { s.alertInstance with triggerSequence }
    notifications := s.notifications ++
      [{ securityId := s.rule.securityId
         triggerSequence
         ruleVersion := s.rule.ruleVersion
         observationDate := context.date
         currentValue := context.currentValue
         previousValue := context.previousValue
         change := context.change
         sourceEventId := context.sourceEventId
         sourceRevision := context.sourceRevision
         catchUp := context.catchUp }] }

end HeldAlert

/-- Writing the held rows back. -/
def AlertTables.put {F : Type} (t : AlertTables F) (s : HeldAlert F) : AlertTables F :=
  { rule := s.rule
    instances := t.instances.insert t.rule.securityId s.alertInstance
    notifications := s.notifications }

/-! ## Observations -/

section Observations

variable {F : Type} [Arith F] [LinearOrder (IndicatorRequest F)] [LinearOrder (Target F)]

/-- `_project_ma_variant`. -/
def projectMaVariant (variant : Variant F) (periods : List Period) : Variant F :=
  let keep (values : Values F) := values.filter fun (key, _) => ∃ period ∈ periods, key = .ma period
  { values := keep variant.values
    previousValues := variant.previousValues.map keep
    delta := variant.delta.map keep }

/-- `select_snapshot_variant`: the exact variant, or a containing MA bundle, with its key. -/
def selectSnapshotVariant (row : SnapshotRow F) (request : IndicatorRequest F) :
    Option (IndicatorRequest F × Variant F) :=
  match row.variants.get? request with
  | some variant => some (request, variant)
  | none =>
    if request.isMa then
      ((row.variantsOf .ma).find? fun variant => request.maPeriods ⊆ variant.1.maPeriods).map
        fun variant => (request, projectMaVariant variant.2 request.maPeriods)
    else none

/-- `_field`. -/
def fieldValue (values : Values F) (field : Field) : Option F :=
  (values.lookup field).filter Arith.isFinite

/-- The value of a field in the snapshot of a date, with the previous value and the change. -/
def snapshotValue (row : SnapshotRow F) (request : IndicatorRequest F) (field : Field) :
    Option (F × Option F × Option F) :=
  (selectSnapshotVariant row request).bind fun (key, variant) =>
    if key ≠ request then none
    else (fieldValue variant.values field).map fun value =>
      (value, variant.previousValues.bind (fieldValue · field),
        variant.delta.bind (fieldValue · field))

/-- The rows of `indicator_snapshots` of one indicator type. -/
def snapshotsOf (snapshots : Snapshots F) (type : IndicatorType) : List (Date × SnapshotRow F) :=
  snapshots.rows.filter fun row => row.2.variantsOf type ≠ []

/-- An observation with the context of its notification. -/
structure ResolvedObservation (F : Type) where
  observation : AlertObservation F
  context : AlertContext F

/-- `resolve_value` of an indicator. -/
def resolveValue (store : AnalysisStore F) (request : IndicatorRequest F) (field : Field) :
    Option (ResolvedObservation F) :=
  if store.stream.publicationIsCurrent then
    (snapshotsOf store.snapshots request.indicatorType).getLast?.bind fun (tradeDate, row) =>
      (snapshotValue row request field).map fun (value, previousValue, change) =>
        ⟨.value value, { date := tradeDate, currentValue := some value, previousValue, change }⟩
  else none

/-- Whether the states of a code are occurrences. -/
def StateCode.isEdge (F : Type) [Arith F] (code : StateCode) : Bool :=
  (stateDefinitions (F := F)).any fun definition => definition.code = code ∧ definition.mode = .edge

/-- `resolve_state`. -/
def resolveState (store : AnalysisStore F) (target : Target F) : Option (ResolvedObservation F) :=
  if store.stream.publicationIsCurrent then
    (store.timeline.current.get? target).bind fun row =>
      if row.status = .unknown ∨ row.metadata.reason.isSome then none
      else
        let active := row.status = .active && (!target.code.isEdge F || row.metadata.transition)
        some ⟨.state active, { date := row.tradeDate }⟩
  else none

/-- What an evaluation reads: the tables of each price series, and the dividend yield of each
security with the date of its price. -/
structure AlertSources (F : Type) [LinearOrder (IndicatorRequest F)] [LinearOrder (Target F)] where
  store : ℤ → Adjustment → AnalysisStore F
  dividendYield : ℤ → Option (F × Date)

def AlertSources.storeOf (sources : AlertSources F) (rule : AlertRuleRow F) : AnalysisStore F :=
  sources.store rule.securityId rule.adjustType

def resolve (sources : AlertSources F) (rule : AlertRuleRow F) : Option (ResolvedObservation F) :=
  match rule.condition with
  | .state target => resolveState (sources.storeOf rule) target
  | .value request field _ _ => resolveValue (sources.storeOf rule) request field
  | .dividendYield .. =>
    (sources.dividendYield rule.securityId).map fun (value, asOf) =>
      ⟨.value value, { date := asOf, currentValue := some value }⟩

end Observations

/-! ## Catching up -/

inductive AlertError
  | historyTooLarge
  deriving DecidableEq

section CatchUp

variable {F : Type} [Arith F] [LinearOrder (IndicatorRequest F)] [LinearOrder (Target F)]

def maxCatchupRows : ℕ := 10000

/-- The events of the window that the rule has not consumed. -/
def catchUpEvents (timeline : Timeline F) (target : Target F) (first last : Date) (seq : ℤ) :
    List (StateEvent F) :=
  (timeline.events.filter fun event => event.target = target ∧ event.valid ∧
    first ≤ event.tradeDate ∧ event.tradeDate ≤ last ∧ seq < event.streamSeq).insertionSort
      fun a b => a.tradeDate < b.tradeDate ∨ a.tradeDate = b.tradeDate ∧ a.streamSeq ≤ b.streamSeq

/-- A new occurrence: ENTER is proof of one, unless it restates history. -/
def StateEvent.isFresh (event : StateEvent F) : Bool :=
  event.kind = .enter && !event.isRestatement

/-- One event of `catch_up`. -/
def catchUpEvent (target : Target F) (last : Date) (s : HeldAlert F) (event : StateEvent F) :
    HeldAlert F :=
  if event.status = .unknown then s
  else
    let observed := if target.code.isEdge F then event.isFresh else event.status = .active
    let evaluation := evaluateAlert s.rule.condition (.state observed)
      (if event.isFresh then .reset else s.alertInstance.status)
    let s := s.withStatus evaluation.status
    if event.isFresh then
      s.enqueueTrigger
        { date := event.tradeDate
          sourceEventId := some event.streamSeq
          sourceRevision := some event.sourceRevision
          catchUp := some (event.tradeDate < last) }
    else s

/-- `_restated`. -/
def restated (row : SnapshotRow F) (day : Date) : Bool :=
  (row.source.bind (·.restatedThrough)).any (day ≤ ·)

/-- One snapshot of `catch_up`. -/
def catchUpSnapshot (request : IndicatorRequest F) (field : Field) (last : Date) (s : HeldAlert F)
    (snapshot : Date × SnapshotRow F) : HeldAlert F :=
  match snapshotValue snapshot.2 request field with
  | none => s
  | some (value, previousValue, change) =>
    let evaluation := evaluateAlert s.rule.condition (.value value) s.alertInstance.status
    let s := s.withStatus evaluation.status
    if evaluation.triggered && !restated snapshot.2 snapshot.1 then
      s.enqueueTrigger
        { date := snapshot.1
          currentValue := some value
          previousValue
          change
          sourceRevision := snapshot.2.source.map (·.revision)
          catchUp := some (snapshot.1 < last) }
    else s

/-- The snapshots of the window. -/
def catchUpSnapshots (snapshots : Snapshots F) (type : IndicatorType) (first last : Date) :
    List (Date × SnapshotRow F) :=
  (snapshotsOf snapshots type).filter fun snapshot => first ≤ snapshot.1 ∧ snapshot.1 ≤ last

/-- The part of `catch_up` for states; the current observation, if there is one, has the last word
on the status. -/
def catchUpState (store : AnalysisStore F) (target : Target F) (evaluated last : Date)
    (current : Option (AlertObservation F)) (s : HeldAlert F) :
    Except AlertError (Option (HeldAlert F)) :=
  if store.stream.stateThrough.isNone then .ok none
  else
    let events := catchUpEvents store.timeline target (evaluated + 1) last
      s.alertInstance.lastConsumedStateSeq
    if maxCatchupRows < events.length then .error .historyTooLarge
    else
      let s := events.foldl (catchUpEvent target last) s
      let s := { s with alertInstance :=
        { s.alertInstance with lastConsumedStateSeq := store.stream.eventSequence } }
      let s := match current with
        | none => s
        | some observation =>
          s.withStatus (evaluateAlert s.rule.condition observation s.alertInstance.status).status
      .ok (some { s with alertInstance :=
        { s.alertInstance with lastEvaluatedTradeDate := some last } })

/-- The part of `catch_up` for values. -/
def catchUpValue (store : AnalysisStore F) (request : IndicatorRequest F) (field : Field)
    (evaluated last : Date) (s : HeldAlert F) : Except AlertError (Option (HeldAlert F)) :=
  let snapshots := catchUpSnapshots store.snapshots request.indicatorType (evaluated + 1) last
  if maxCatchupRows < snapshots.length then .error .historyTooLarge
  else
    let s := snapshots.foldl (catchUpSnapshot request field last) s
    .ok (some { s with alertInstance :=
      { s.alertInstance with lastEvaluatedTradeDate := some last } })

/-- `catch_up`; a dividend yield has no snapshots. -/
def catchUp (store : AnalysisStore F) (evaluated last : Date)
    (current : Option (AlertObservation F)) (s : HeldAlert F) :
    Except AlertError (Option (HeldAlert F)) :=
  match s.rule.condition with
  | .state target => catchUpState store target evaluated last current s
  | .value request field _ _ => catchUpValue store request field evaluated last s
  | .dividendYield .. => .ok (some { s with alertInstance :=
      { s.alertInstance with lastEvaluatedTradeDate := some last } })

end CatchUp

/-! ## Evaluation -/

section Evaluation

variable {F : Type} [Arith F] [LinearOrder (IndicatorRequest F)] [LinearOrder (Target F)]

namespace AlertTables

/-- The instance of the security of the rule. -/
def found (t : AlertTables F) : Option AlertInstance := t.instances.get? t.rule.securityId

/-- An instance of another version starts afresh. -/
def atVersion (ruleVersion : ℤ) (found : AlertInstance) : AlertInstance :=
  if found.ruleVersion ≠ ruleVersion then
    { found with
      status := .reset
      lastEvaluatedTradeDate := none
      ruleVersion
      lastConsumedStateSeq := 0 }
  else found

def hold (t : AlertTables F) (alertInstance : AlertInstance) : HeldAlert F :=
  ⟨t.rule, alertInstance, t.notifications⟩

/-- `_unavailable_observation` once the publication of the day is complete. -/
def unavailableObservation (t : AlertTables F) (store : AnalysisStore F) (observationDate : Date) :
    Except AlertError (AlertTables F) :=
  let initial : AlertInstance :=
    { status := .reset
      triggerSequence := t.rule.triggerSequence
      ruleVersion := t.rule.ruleVersion
      lastConsumedStateSeq := store.stream.eventSequence
      lastEvaluatedTradeDate := some observationDate }
  match t.found with
  | none => .ok (t.put (t.hold initial))
  | some found =>
    if found.ruleVersion ≠ t.rule.ruleVersion then
      .ok (t.put (t.hold { initial with triggerSequence := found.triggerSequence }))
    else
      let checked :=
        if found.lastEvaluatedTradeDate.all (· ≤ observationDate) then
          { found with
            lastEvaluatedTradeDate := some observationDate
            lastConsumedStateSeq := store.stream.eventSequence }
        else found
      match found.lastEvaluatedTradeDate with
      | none => .ok (t.put (t.hold checked))
      | some evaluated =>
        if evaluated < observationDate then
          (fun replay => t.put (replay.getD (t.hold checked))) <$>
            catchUp store evaluated observationDate none (t.hold found)
        else .ok (t.put (t.hold checked))

/-- The evaluation of an observation that is neither old nor caught up. -/
def observe (t : AlertTables F) (store : AnalysisStore F) (correction : Bool)
    (resolved : ResolvedObservation F) (found : Option AlertInstance) : AlertTables F :=
  let prior := (found.map (·.status)).getD .reset
  let evaluation := evaluateAlert t.rule.condition resolved.observation prior
  let fresh : AlertInstance :=
    { status := evaluation.status
      triggerSequence := t.rule.triggerSequence
      ruleVersion := t.rule.ruleVersion
      lastConsumedStateSeq := 0
      lastEvaluatedTradeDate := none }
  let updated := (found.map fun found => { found with status := evaluation.status }).getD fresh
  -- a correction updates the baseline but is not a fresh notification
  if correction && found.any (·.lastEvaluatedTradeDate = some resolved.context.date) then
    t.put (t.hold updated)
  else
    let lastConsumedStateSeq := match t.rule.condition with
      | .state _ => store.stream.eventSequence
      | _ => updated.lastConsumedStateSeq
    let s := t.hold
      { updated with lastConsumedStateSeq, lastEvaluatedTradeDate := some resolved.context.date }
    t.put (if evaluation.triggered then s.enqueueTrigger resolved.context else s)

/-- Whether the rule watches the dividend yield. -/
def isDividendYield (t : AlertTables F) : Bool :=
  match t.rule.condition with
  | .dividendYield .. => true
  | _ => false

omit [Arith F] [LinearOrder (IndicatorRequest F)] [LinearOrder (Target F)] in
theorem isDividendYield_eq {t t' : AlertTables F} (h : t'.rule.condition = t.rule.condition) :
    t'.isDividendYield = t.isDividendYield := by
  rw [isDividendYield, isDividendYield, h]

/-- The evaluation of an observation: a scheduled one consumes the days since the last one. -/
def observed (t : AlertTables F) (store : AnalysisStore F) (observationDate : Option Date)
    (resolved : ResolvedObservation F) : Except AlertError (AlertTables F) :=
  let found := t.found.map (atVersion t.rule.ruleVersion)
  let scheduled := observationDate.isSome
  match scheduled, found, found.bind (·.lastEvaluatedTradeDate) with
  | true, some earlier, some evaluated =>
    if resolved.context.date < evaluated then .ok t
    else if evaluated < resolved.context.date ∧ !t.isDividendYield then
      (fun replay => match replay with
        | some s => t.put s
        | none => t.observe store scheduled resolved found) <$>
        catchUp store evaluated resolved.context.date (some resolved.observation) (t.hold earlier)
    else .ok (t.observe store scheduled resolved found)
  | _, _, _ => .ok (t.observe store scheduled resolved found)

/-- `_evaluate_rule`; without an observation date an evaluation is on demand. -/
def evaluateRule (t : AlertTables F) (sources : AlertSources F) (observationDate : Option Date) :
    Except AlertError (AlertTables F) :=
  let store := sources.storeOf t.rule
  if !t.rule.enabled then .ok t
  else
    match (resolve sources t.rule).filter fun resolved =>
        observationDate.all (· = resolved.context.date) with
    | some resolved => t.observed store observationDate resolved
    | none =>
      match observationDate with
      | none => .ok t
      | some observationDate =>
        -- the day is not consumed while its publication is pending
        if !store.stream.publicationIsCurrent ∨
            store.stream.stateThrough ≠ some observationDate then .ok t
        else t.unavailableObservation store observationDate

end AlertTables

/-! ## Updates -/

/-- The fields of a rule after an accepted update request. -/
structure AlertUpdate (F : Type) where
  securityId : ℤ
  adjustType : Adjustment
  condition : AlertCondition F
  enabled : Bool

/-- `_rule_signature`. -/
def AlertRuleRow.signature {F : Type} (rule : AlertRuleRow F) : AlertUpdate F :=
  ⟨rule.securityId, rule.adjustType, rule.condition, rule.enabled⟩

instance {F : Type} [DecidableEq F] [DecidableEq (Target F)] [DecidableEq (IndicatorRequest F)] :
    DecidableEq (AlertUpdate F) := fun a b =>
  decidable_of_iff (a.securityId = b.securityId ∧ a.adjustType = b.adjustType ∧
    a.condition = b.condition ∧ a.enabled = b.enabled) <| by
    cases a; cases b; simp

/-- `AlertService.update`, after its checks. -/
def AlertTables.update {F : Type} [DecidableEq (AlertUpdate F)] (t : AlertTables F)
    (update : AlertUpdate F) : AlertTables F :=
  let changed : Bool := update ≠ t.rule.signature
  let ruleVersion := if changed then t.rule.ruleVersion + 1 else t.rule.ruleVersion
  { t with
    rule := { t.rule with
      securityId := update.securityId
      adjustType := update.adjustType
      condition := update.condition
      enabled := update.enabled
      ruleVersion }
    instances :=
      if t.rule.securityId ≠ update.securityId then
        t.instances.filter (· ≠ t.rule.securityId)
      else if changed then
        match t.found with
        | none => t.instances
        | some found => t.instances.insert t.rule.securityId
            { found with status := .reset, ruleVersion, lastEvaluatedTradeDate := none }
      else t.instances }

end Evaluation

end Apanel
