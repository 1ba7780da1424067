import Apanel.Backend.Calendar
import Apanel.Backend.StateEvents

/-!
# State recognition

`StateService.calculate` and `StateService.history` (`app/services/state_service.py`): one pass over
the persisted snapshots of a date window, seeded from the event timeline.
-/

namespace Apanel

/-- `registry.definitions()` gives every code one indicator type. -/
def StateCode.indicatorType : StateCode → IndicatorType
  | .maCrossUp | .maCrossDown | .maGapNarrowing | .maGapExpanding => .ma
  | .kdjKCrossDUp | .kdjKCrossDDown | .kdjAllRising | .kdjAllFalling => .kdj
  | .bollWidthNarrowing | .bollWidthExpanding | .bollAllRising | .bollAllFalling
  | .bollBreakUpper | .bollBreakLower => .boll
  | .macdDiffCrossDeaUp | .macdDiffCrossDeaDown | .macdRedBarGrowing | .macdRedBarShrinking => .macd

theorem stateDefinitions_indicatorType {F : Type} [Arith F] {definition : StateDefinition F}
    (h : definition ∈ stateDefinitions) :
    definition.indicatorType = definition.code.indicatorType := by
  simp only [stateDefinitions, List.mem_cons, List.not_mem_nil, or_false] at h
  rcases h with h | h | h | h | h | h | h | h | h | h | h | h | h | h | h | h | h | h <;>
    (subst h; rfl)

/-- The optional filters of `calculate`; a parameter key stands for its target. -/
structure StateFilter (F : Type) where
  stateCode : Option StateCode := none
  parameterKey : Option (Target F) := none
  indicatorType : Option IndicatorType := none

/-! ## Snapshot variants -/

section Variants

variable {F : Type} [LinearOrder (IndicatorRequest F)]

/-- The variants of the snapshot of one indicator type; none when the snapshot does not exist. -/
def SnapshotRow.variantsOf (row : SnapshotRow F) (type : IndicatorType) :
    List (IndicatorRequest F × Variant F) :=
  row.variants.rows.filter fun variant => variant.1.indicatorType = type

/-- `_project_ma_pair` and `_project_ma_variant`: keep the values of two periods. -/
def projectMaPair (variant : Variant F) (short long : ℕ) : Variant F :=
  let keep (values : Values F) := values.filter fun (key, _) => key = .ma short ∨ key = .ma long
  { values := keep variant.values
    previousValues := variant.previousValues.map keep
    delta := variant.delta.map keep }

/-- The pair of periods an MA variant makes states for: its own two, or the built-in MA5/10. -/
def statePair (request : IndicatorRequest F) : Option (ℕ × ℕ) :=
  match request.maPeriods.map (·.1) with
  | [short, long] => some (short, long)
  | periods => if 5 ∈ periods ∧ 10 ∈ periods then some (5, 10) else none

/-- `_find_ma_pair`. -/
def findMaPair (variants : List (IndicatorRequest F × Variant F)) (short long : ℕ) :
    Option (Variant F) :=
  variants.findSome? fun (_, variant) =>
    let projected := projectMaPair variant short long
    if projected.values.length = 2 then some projected else none

/-- The MA branch of `_state_variant_pairs`, given the pairs already emitted. -/
def maVariantPairs (previous : List (IndicatorRequest F × Variant F)) :
    List (ℕ × ℕ) → List (IndicatorRequest F × Variant F) →
      List (StateParameters F × Variant F × Option (Variant F))
  | _, [] => []
  | emitted, (request, variant) :: variants =>
    match statePair request with
    | none => maVariantPairs previous emitted variants
    | some (short, long) =>
      if (short, long) ∈ emitted then maVariantPairs previous emitted variants
      else
        (.maPair short long, projectMaPair variant short long, findMaPair previous short long) ::
          maVariantPairs previous ((short, long) :: emitted) variants

/-- `_state_variant_pairs`. -/
def stateVariantPairs (type : IndicatorType) (current previous : List (IndicatorRequest F × Variant F)) :
    List (StateParameters F × Variant F × Option (Variant F)) :=
  if type = .ma then maVariantPairs previous [] current
  else current.map fun (request, variant) =>
    (.request request, variant, (previous.find? (·.1 = request)).map (·.2))

/-- `select_snapshot_variant` with default parameters: the exact variant, or a containing MA
bundle. -/
def selectDefaultVariant [Arith F] (type : IndicatorType)
    (variants : List (IndicatorRequest F × Variant F)) : Option (Variant F) :=
  match variants.find? (·.1 = defaultParameters type) with
  | some variant => some variant.2
  | none =>
    if type = .ma then
      (variants.find? fun variant =>
        5 ∈ variant.1.maPeriods.map (·.1) ∧ 10 ∈ variant.1.maPeriods.map (·.1)).map
        fun variant => projectMaPair variant.2 5 10
    else none

/-- The scalar parameters of a projected MA pair. -/
def StateParameters.pair? : StateParameters F → Option (ℕ × ℕ)
  | .maPair short long => some (short, long)
  | .request _ => none

/-- `_to_domain_snapshot` of a snapshot that exists: without a variant, its default variant. -/
def toDomainSnapshot [Arith F] (type : IndicatorType) (model : List (IndicatorRequest F × Variant F))
    (pair : Option (ℕ × ℕ)) (variant : Option (Variant F)) : Option (IndicatorSnapshot F) :=
  match variant with
  | some variant => some
    { indicator := type, values := variant.values, previousValues := variant.previousValues
      maPair := pair }
  | none => (selectDefaultVariant type model).map fun variant =>
    { indicator := type, values := variant.values, previousValues := variant.previousValues
      maPair := none }

/-- One iteration of the loop over definitions and variants of a date, up to the evaluation. -/
structure WorkItem (F : Type) where
  definition : StateDefinition F
  parameters : StateParameters F
  current : IndicatorSnapshot F
  previous : Option (IndicatorSnapshot F)

def WorkItem.target (item : WorkItem F) : Target F := ⟨item.definition.code, item.parameters⟩

/-- The iterations of one definition on a date. `previous` is the row of the expected previous date,
when that date is known and its row is read. -/
def definitionItems [Arith F] (current : SnapshotRow F) (previous : Option (SnapshotRow F))
    (definition : StateDefinition F) : List (WorkItem F) :=
  let type := definition.indicatorType
  let currentModel := current.variantsOf type
  let previousModel := (previous.map (·.variantsOf type)).getD []
  (stateVariantPairs type currentModel previousModel).map
    fun (parameters, currentVariant, previousVariant) =>
      { definition, parameters
        current :=
          { indicator := type, values := currentVariant.values
            previousValues := currentVariant.previousValues, maPair := parameters.pair? }
        previous := if previousModel.isEmpty then none else
          toDomainSnapshot type previousModel parameters.pair? previousVariant }

/-- The iterations of one date. -/
def workItems [Arith F] [LinearOrder (Target F)] (filter : StateFilter F) (current : SnapshotRow F)
    (previous : Option (SnapshotRow F)) : List (WorkItem F) :=
  (stateDefinitions.filter fun definition =>
      filter.stateCode.all (· = definition.code) &&
        filter.indicatorType.all (· = definition.indicatorType)).flatMap fun definition =>
    (definitionItems current previous definition).filter
      fun item => filter.parameterKey.all (· = item.target)

end Variants

/-! ## Observations -/

section Observe

variable {F : Type} [Arith F]

/-- `_persist_unknown_state`. -/
def unknownRow (tradeDate : Date) (item : WorkItem F) (reason : StateReason)
    (expectedPreviousDate : Option Date) : StateRow F :=
  { tradeDate, target := item.target, status := .unknown
    metadata :=
      { active := false, transition := false, reason := some reason, values := item.current.values
        valueContext := [], expectedPreviousTradeDate := expectedPreviousDate } }

/-- The UNKNOWN row of a known target without a current indicator. -/
def missingRow (tradeDate : Date) (target : Target F) : StateRow F :=
  { tradeDate, target, status := .unknown
    metadata :=
      { active := false, transition := false, reason := some .missingCurrentIndicator, values := []
        valueContext := [], expectedPreviousTradeDate := none } }

/-- The label of a context field and its values; `none` when an MA period is not known. -/
def contextValues (current previous : IndicatorSnapshot F) (currentPrice previousPrice : Option F)
    (field : ContextField) : Option (ContextField × Option F × Option F) :=
  let lookup (name : Field) :=
    (ContextField.field name, current.values.lookup name, previous.values.lookup name)
  match field with
  | .short => current.maPair.map fun pair => lookup (.ma pair.1)
  | .long => current.maPair.map fun pair => lookup (.ma pair.2)
  | .price => some (.price, currentPrice, previousPrice)
  | .field name => some (lookup name)

/-- `_state_value_context`. -/
def stateValueContext (definition : StateDefinition F) (current previous : IndicatorSnapshot F)
    (currentPrice previousPrice : Option F) : List (ValueContext F) :=
  definition.fields.filterMap fun field =>
    match contextValues current previous currentPrice previousPrice field with
    | some (label, currentValue, previousValue) =>
      if currentValue.isNone && previousValue.isNone then none
      else some { label, currentValue, previousValue
                  change := do return (← currentValue) - (← previousValue) }
    | none => none

/-- The row of one iteration, and the engine's `_last_active` entry it writes, if it evaluates the
state. -/
def observeItem (tradeDate : Date) (expectedPreviousDate : Option Date)
    (close : Date → Option F) (priorStatus : Option StateStatus) (lastActive : Option Bool)
    (item : WorkItem F) : StateRow F × Option Bool :=
  match expectedPreviousDate with
  | none => (unknownRow tradeDate item .tradingCalendarUnavailable none, none)
  | some previousDate =>
    match item.previous with
    | none => (unknownRow tradeDate item .missingPreviousTradingDay (some previousDate), none)
    | some previous =>
      let previousActive := priorStatus.map fun status => decide (status = .active)
      let (result, active) := evaluateState item.definition item.current previous
        (close tradeDate) (close previousDate) previousActive lastActive
      match result.reason with
      | some reason => (unknownRow tradeDate item reason (some previousDate), some active)
      | none =>
        ({ tradeDate, target := item.target, status := result.status
           metadata :=
            { active := result.active
              transition := result.transition &&
                (item.definition.mode = .edge || priorStatus = some .inactive)
              reason := none
              values := result.values
              valueContext := stateValueContext item.definition item.current previous
                (close tradeDate) (close previousDate)
              expectedPreviousTradeDate := none } }, some active)

end Observe

/-! ## The pass -/

section Pass

variable {F : Type} [Arith F] [LinearOrder (IndicatorRequest F)] [LinearOrder (Target F)]

/-- What the loop of `calculate` reads: the snapshots and bars of the window, the calendar, the
filters and the seeds (keyed by their target, all dated `seedDate`). -/
structure Pass (F : Type) [LinearOrder (IndicatorRequest F)] [LinearOrder (Target F)] where
  snapshots : Snapshots F
  bars : Bars
  calendar : Calendar
  filter : StateFilter F
  seedDate : Option Date
  seeds : Table (Target F) (StateEvent F)

/-- What the loop of `calculate` writes: `computed_status_by_key`, the engine's memory,
`known_targets` and the rows. -/
structure PassState (F : Type) [LinearOrder (Target F)] where
  computed : Table (Date ×ₗ Target F) StateStatus
  memory : Table (Target F) Bool
  known : Table (Target F) Unit
  rows : List (StateRow F)

def Pass.close (pass : Pass F) (day : Date) : Option F :=
  (pass.bars.get? day).map fun bar => Arith.ofRat bar.close

/-- `prior_status` of a target at the expected previous date: computed in this pass, or seeded. -/
def Pass.priorStatus (pass : Pass F) (s : PassState F) (previousDate : Option Date)
    (target : Target F) : Option StateStatus :=
  match previousDate with
  | none => none
  | some previousDate =>
    (s.computed.get? (toLex (previousDate, target))).or <|
      if pass.seedDate = some previousDate then (pass.seeds.get? target).map (·.status) else none

/-- The iterations of one date of the pass. -/
def Pass.items (pass : Pass F) (tradeDate : Date) (row : SnapshotRow F) : List (WorkItem F) :=
  workItems pass.filter row
    ((pass.calendar.previousOpenDate tradeDate).bind pass.snapshots.get?)

/-- The loop body of one date. Its targets are distinct (`workItems_nodup`), so what an iteration
reads of the loop state is what it was before the date. -/
def Pass.step (pass : Pass F) (s : PassState F) (tradeDate : Date) (row : SnapshotRow F) :
    PassState F :=
  let previousDate := pass.calendar.previousOpenDate tradeDate
  let observed := (pass.items tradeDate row).map fun item =>
    observeItem tradeDate previousDate pass.close (pass.priorStatus s previousDate item.target)
      (s.memory.get? item.target) item
  let present := observed.map (·.1)
  let missing := (s.known.keys.filter fun target => target ∉ present.map (·.target)).map
    (missingRow tradeDate)
  { computed := s.computed.insertMany <|
      (present ++ missing).map fun row => (toLex (tradeDate, row.target), row.status)
    memory := s.memory.insertMany <|
      observed.filterMap fun (row, active) => active.map (row.target, ·)
    known := s.known.insertMany <| (present ++ missing).map fun row => (row.target, ())
    rows := s.rows ++ present ++ missing }

/-- The loop over the dates to persist, with its row limit. -/
def Pass.run (pass : Pass F) (maxRows : Option ℕ) (s : PassState F) :
    List (Date × SnapshotRow F) → Except ApiError (PassState F)
  | [] => .ok s
  | (tradeDate, row) :: rows =>
    let s := pass.step s tradeDate row
    if maxRows.any (· < s.rows.length) then .error .historyResultTooLarge
    else Pass.run pass maxRows s rows

/-- The tables `calculate` reads. -/
structure StateInput (F : Type) [LinearOrder (IndicatorRequest F)] [LinearOrder (Target F)] where
  snapshots : Snapshots F
  bars : Bars
  calendar : Calendar
  stateThrough : Option Date
  events : List (StateEvent F)

/-- Whether a target passes the filters. -/
def StateFilter.accepts (filter : StateFilter F) (target : Target F) : Bool :=
  filter.stateCode.all (· = target.code) && filter.parameterKey.all (· = target) &&
    filter.indicatorType.all (· = target.code.indicatorType)

/-- `read_from`, `seed_date` and the data read for a pass that persists from `persistFrom`. -/
def StateInput.pass (input : StateInput F) (filter : StateFilter F) (persistFrom last : Option Date) :
    Pass F :=
  let firstDate := persistFrom.bind fun first => (input.snapshots.window (some first) last).minKey?
  let seedDate := firstDate.bind input.calendar.previousOpenDate
  let readFrom := seedDate.or persistFrom
  { snapshots := input.snapshots.window readFrom last
    bars := input.bars.window readFrom last
    calendar := input.calendar
    filter
    seedDate
    seeds := match seedDate with
      | some seedDate =>
        if input.stateThrough.isSome then (seedAt input.events seedDate).filter filter.accepts else ∅
      | none => ∅ }

/-- The rows of `StateService.calculate` with `latest_only=False`; `persistFrom` is `start`, or
nothing for the first publication of a stream. -/
def StateInput.observations (input : StateInput F) (filter : StateFilter F)
    (persistFrom last : Option Date) (maxRows : Option ℕ) : Except ApiError (List (StateRow F)) :=
  let pass := input.pass filter persistFrom last
  if pass.snapshots.rows.isEmpty then .error .stateDataNotFound
  else
    let initial : PassState F :=
      { computed := ∅, memory := ∅, known := pass.seeds.filterMap fun _ _ => some (), rows := [] }
    (·.rows) <$> pass.run maxRows initial (pass.snapshots.window persistFrom none).rows

end Pass

end Apanel
