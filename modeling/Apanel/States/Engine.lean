import Apanel.States.Definitions

/-!
# The state engine

`StateEngine.evaluate_state` (`app/states/engine.py`): one evaluation of a definition on two
consecutive observations, with edge-trigger semantics.
-/

namespace Apanel

inductive StateStatus
  | active
  | inactive
  | unknown
  deriving DecidableEq

/-- One state observation of the engine; the code and definition are the caller's. -/
structure StateResult (F : Type) where
  active : Bool
  transition : Bool
  reason : Option StateReason
  values : Values F

def StateResult.status {F : Type} (result : StateResult F) : StateStatus :=
  if result.active then .active else .inactive

section Engine

variable {F : Type} [Arith F]

/-- `DEFAULT_TOLERANCE`. -/
def defaultTolerance : F := Arith.ofRat (1 / 10 ^ 9)

/-- `_as_price`. -/
def asPrice (value previous : Option F) : Except StateReason (Option (PriceSnapshot F)) :=
  match value with
  | none => if previous.isNone then .ok none else .error .invalidValues
  | some current =>
    if Arith.isFinite current && previous.all Arith.isFinite then .ok (some { current, previous })
    else .error .invalidValues

/-- The part of `evaluate_state` in its `try`: the signal of a definition, or the reason why there
is none. -/
def evaluateSignal (definition : StateDefinition F) (current previous : IndicatorSnapshot F)
    (currentPrice previousPrice : Option F) : Except StateReason StateSignal :=
  if current.indicator ≠ definition.indicatorType then .error .indicatorMismatch
  else if previous.indicator ≠ definition.indicatorType then .error .indicatorMismatch
  else do
    let price ← asPrice currentPrice previousPrice
    definition.evaluator current previous price defaultTolerance

/-- `_infer_previous_active`: yesterday's state when the snapshot carries history. -/
def inferPreviousActive (definition : StateDefinition F) (previous : IndicatorSnapshot F) : Bool :=
  match previous.previousValues with
  | none => false
  | some values =>
    let prior : IndicatorSnapshot F :=
      { indicator := previous.indicator, values, previousValues := none, maPair := none }
    match definition.evaluator previous prior none defaultTolerance with
    | .error _ => false
    | .ok signal => signal.active

/-- `StateEngine.evaluate_state`, with the entry of its `_last_active` memory for this stream and
state before the call and after it. -/
def evaluateState (definition : StateDefinition F) (current previous : IndicatorSnapshot F)
    (currentPrice previousPrice : Option F) (previousActive lastActive : Option Bool) :
    StateResult F × Bool :=
  match evaluateSignal definition current previous currentPrice previousPrice with
  | .error reason => ({ active := false, transition := false, reason := some reason, values := [] },
      false)
  | .ok signal =>
    let wasActive := (previousActive.or lastActive).getD (inferPreviousActive definition previous)
    ({ active := signal.active
       transition := signal.active && signal.edge && !wasActive
       reason := none
       values := current.values }, signal.active)

end Engine

/-! ## Failures -/

section Failures

variable {F α β : Type} [Arith F]

/-- A computation that fails for a reason the evaluators have: the values or the price. -/
def FailsOnValues (x : Except StateReason α) : Prop :=
  ∀ reason, x = .error reason → reason = .missingValues ∨ reason = .missingPrice

theorem FailsOnValues.pure (a : α) : FailsOnValues (pure a) := nofun

theorem FailsOnValues.bind {x : Except StateReason α} {f : α → Except StateReason β}
    (hx : FailsOnValues x) (hf : ∀ a, FailsOnValues (f a)) : FailsOnValues (x >>= f) := by
  intro reason h
  cases x with
  | error e => exact hx reason (by cases h; rfl)
  | ok a => exact hf a reason h

omit [Arith F] in
theorem valueOf_fails (snapshot : IndicatorSnapshot F) (name : Field) :
    FailsOnValues (valueOf snapshot name) := by
  intro reason h
  unfold valueOf at h
  split at h <;> cases h
  exact .inl rfl

omit [Arith F] in
theorem valuesOf_fails (snapshot : IndicatorSnapshot F) (names : List Field) :
    FailsOnValues (valuesOf snapshot names) := by
  induction names with
  | nil => exact .pure _
  | cons name names ih =>
    rw [valuesOf, List.mapM_cons]
    exact (valueOf_fails snapshot name).bind fun _ => ih.bind fun _ => .pure _

omit [Arith F] in
theorem maPair_fails (snapshot : IndicatorSnapshot F) : FailsOnValues (maPair snapshot) := by
  intro reason h
  unfold maPair at h
  split at h
  · cases h
  · dsimp only at h
    split at h <;> cases h
    exact .inl rfl

omit [Arith F] in
theorem requirePair_fails (current previous : IndicatorSnapshot F) :
    FailsOnValues (requirePair current previous) :=
  (maPair_fails current).bind fun _ => (maPair_fails previous).bind fun _ => .pure _

theorem bollWidth_fails (snapshot : IndicatorSnapshot F) (tolerance : F) :
    FailsOnValues (bollWidth snapshot tolerance) := by
  unfold bollWidth
  split
  · exact .pure _
  · exact (valueOf_fails _ _).bind fun _ => (valueOf_fails _ _).bind fun _ =>
      (valueOf_fails _ _).bind fun _ => .pure _

theorem bollBreak_fails (upper : Bool) (current previous : IndicatorSnapshot F)
    (price : Option (PriceSnapshot F)) (tolerance : F) :
    FailsOnValues (bollBreak upper current previous price tolerance) := by
  unfold bollBreak
  split
  · exact (valueOf_fails _ _).bind fun _ => (valueOf_fails _ _).bind fun _ => .pure _
  · rintro _ ⟨⟩
    exact .inr rfl

theorem lineCross_fails (first second : Field) (up : Bool) (current previous : IndicatorSnapshot F)
    (price : Option (PriceSnapshot F)) (tolerance : F) :
    FailsOnValues (lineCross first second up current previous price tolerance) :=
  (valueOf_fails _ _).bind fun _ => (valueOf_fails _ _).bind fun _ => (valueOf_fails _ _).bind fun _ =>
    (valueOf_fails _ _).bind fun _ => .pure _

/-- An evaluator fails for missing values or a missing price only. -/
theorem evaluator_fails {definition : StateDefinition F} (h : definition ∈ stateDefinitions)
    (current previous : IndicatorSnapshot F) (price : Option (PriceSnapshot F)) (tolerance : F) :
    FailsOnValues (definition.evaluator current previous price tolerance) := by
  simp only [stateDefinitions, List.mem_cons, List.not_mem_nil, or_false] at h
  rcases h with rfl | rfl | rfl | rfl | rfl | rfl | rfl | rfl | rfl | rfl | rfl | rfl | rfl | rfl |
    rfl | rfl | rfl | rfl
  all_goals dsimp only [kdjCross, macdCross]
  all_goals first
    | exact (requirePair_fails _ _).bind fun _ => .pure _
    | exact lineCross_fails _ _ _ _ _ _ _
    | exact bollBreak_fails _ _ _ _ _
    | exact (valuesOf_fails _ _).bind fun _ => (valuesOf_fails _ _).bind fun _ => .pure _
    | exact (bollWidth_fails _ _).bind fun _ => (bollWidth_fails _ _).bind fun _ => .pure _
    | exact (valueOf_fails _ _).bind fun _ => (valueOf_fails _ _).bind fun _ => .pure _

/-- An evaluation that fails says so by a reason of its own, not by a missing trading day. -/
theorem evaluateSignal_error {definition : StateDefinition F} (h : definition ∈ stateDefinitions)
    {current previous : IndicatorSnapshot F} {price previousPrice : Option F} {reason : StateReason}
    (herror : evaluateSignal definition current previous price previousPrice = .error reason) :
    reason ≠ .missingPreviousTradingDay := by
  unfold evaluateSignal at herror
  split at herror
  · cases herror
    nofun
  split at herror
  · cases herror
    nofun
  cases hprice : asPrice price previousPrice with
  | error e =>
    rw [hprice] at herror
    cases herror
    unfold asPrice at hprice
    split at hprice <;> split at hprice <;> cases hprice <;> nofun
  | ok price =>
    rw [hprice] at herror
    rcases evaluator_fails h _ _ _ _ reason herror with rfl | rfl <;> nofun

end Failures

/-! ## Edges -/

section Edges

variable {F : Type} [Arith F]

/-- An evaluator of a relation: each observation is compared on its own, and the signal is that the
relation is on one side now and was not before. -/
def Crosses (evaluator : StateEvaluator F) : Prop :=
  ∃ (relation : Values F → Option F → F → Except StateReason ℤ) (up : Bool),
    ∀ current previous price tolerance signal,
      evaluator current previous price tolerance = .ok signal →
      ∃ currentRelation previousRelation,
        relation current.values (price.map (·.current)) tolerance = .ok currentRelation ∧
        relation previous.values (price.bind (·.previous)) tolerance = .ok previousRelation ∧
        signal = if up then crossUp currentRelation previousRelation
          else crossDown currentRelation previousRelation

/-- An evaluator whose active signals are edges. -/
def AlwaysEdge (evaluator : StateEvaluator F) : Prop :=
  ∀ current previous price tolerance signal,
    evaluator current previous price tolerance = .ok signal → signal.edge = signal.active

/-- The relation of an MA pair. -/
def maRelation (values : Values F) (_ : Option F) (tolerance : F) : Except StateReason ℤ := do
  let pair ← maPair ⟨.ma, values, none, none⟩
  return comparison pair.1 pair.2 tolerance

theorem requirePair_relation {current previous : IndicatorSnapshot F} {pairs : (F × F) × (F × F)}
    (h : requirePair current previous = .ok pairs) (price price' : Option F) (tolerance : F) :
    maRelation current.values price tolerance =
        .ok (comparison pairs.1.1 pairs.1.2 tolerance) ∧
      maRelation previous.values price' tolerance =
        .ok (comparison pairs.2.1 pairs.2.2 tolerance) := by
  simp only [requirePair, Except.bind_eq_ok] at h
  obtain ⟨cur, hcur, prev, hprev, hpairs⟩ := h
  cases hpairs
  have hcur' : maPair ⟨.ma, current.values, none, none⟩ = .ok cur := hcur
  have hprev' : maPair ⟨.ma, previous.values, none, none⟩ = .ok prev := hprev
  rw [maRelation, maRelation, hcur', hprev']
  exact ⟨rfl, rfl⟩

theorem maCrossUp_crosses : Crosses (maCrossUp (F := F)) := by
  refine ⟨maRelation, true, fun current previous price tolerance signal h => ?_⟩
  obtain ⟨pairs, hpairs, hsignal⟩ := Except.bind_eq_ok.mp h
  cases hsignal
  obtain ⟨hcurrent, hprevious⟩ := requirePair_relation hpairs (price.map (·.current))
    (price.bind (·.previous)) tolerance
  exact ⟨_, _, hcurrent, hprevious, rfl⟩

theorem maCrossDown_crosses : Crosses (maCrossDown (F := F)) := by
  refine ⟨maRelation, false, fun current previous price tolerance signal h => ?_⟩
  obtain ⟨pairs, hpairs, hsignal⟩ := Except.bind_eq_ok.mp h
  cases hsignal
  obtain ⟨hcurrent, hprevious⟩ := requirePair_relation hpairs (price.map (·.current))
    (price.bind (·.previous)) tolerance
  exact ⟨_, _, hcurrent, hprevious, rfl⟩

theorem lineCross_crosses (first second : Field) (up : Bool) :
    Crosses (lineCross (F := F) first second up) := by
  let relation (values : Values F) (_ : Option F) (tolerance : F) : Except StateReason ℤ := do
    let first ← valueOf ⟨.ma, values, none, none⟩ first
    let second ← valueOf ⟨.ma, values, none, none⟩ second
    return comparison first second tolerance
  refine ⟨relation, up, fun current previous price tolerance signal h => ?_⟩
  simp only [lineCross, Except.bind_eq_ok] at h
  obtain ⟨currentFirst, hcurrentFirst, currentSecond, hcurrentSecond, previousFirst, hpreviousFirst,
    previousSecond, hpreviousSecond, hsignal⟩ := h
  cases hsignal
  exact ⟨_, _, Except.bind_eq_ok.mpr ⟨currentFirst, hcurrentFirst,
      Except.bind_eq_ok.mpr ⟨currentSecond, hcurrentSecond, rfl⟩⟩,
    Except.bind_eq_ok.mpr ⟨previousFirst, hpreviousFirst,
      Except.bind_eq_ok.mpr ⟨previousSecond, hpreviousSecond, rfl⟩⟩, rfl⟩

theorem bollBreak_crosses (upper : Bool) : Crosses (bollBreak (F := F) upper) := by
  let relation (values : Values F) (price : Option F) (tolerance : F) : Except StateReason ℤ := do
    let band ← valueOf ⟨.boll, values, none, none⟩ (if upper then Field.upper else Field.lower)
    return comparison (price.getD tolerance) band tolerance
  refine ⟨relation, upper, fun current previous price tolerance signal h => ?_⟩
  unfold bollBreak at h
  split at h
  · simp only [Except.bind_eq_ok] at h
    obtain ⟨currentBand, hcurrent, previousBand, hprevious, hsignal⟩ := h
    cases hsignal
    exact ⟨_, _, Except.bind_eq_ok.mpr ⟨currentBand, hcurrent, rfl⟩,
      Except.bind_eq_ok.mpr ⟨previousBand, hprevious, rfl⟩, rfl⟩
  · cases h

theorem maGap_alwaysEdge (narrowing : Bool) : AlwaysEdge (maGap (F := F) narrowing) := by
  intro current previous price tolerance signal h
  obtain ⟨_, _, hsignal⟩ := Except.bind_eq_ok.mp h
  cases hsignal
  rfl

theorem allDirection_alwaysEdge (fields : List Field) (rising : Bool) :
    AlwaysEdge (allDirection (F := F) fields rising) := by
  intro current previous price tolerance signal h
  simp only [allDirection, Except.bind_eq_ok] at h
  obtain ⟨_, _, _, _, hsignal⟩ := h
  cases hsignal
  rfl

theorem bollWidthState_alwaysEdge (narrowing : Bool) :
    AlwaysEdge (bollWidthState (F := F) narrowing) := by
  intro current previous price tolerance signal h
  simp only [bollWidthState, Except.bind_eq_ok] at h
  obtain ⟨_, _, _, _, hsignal⟩ := h
  cases hsignal
  rfl

theorem macdRedBar_alwaysEdge (growing : Bool) : AlwaysEdge (macdRedBar (F := F) growing) := by
  intro current previous price tolerance signal h
  simp only [macdRedBar, Except.bind_eq_ok] at h
  obtain ⟨_, _, _, _, hsignal⟩ := h
  cases hsignal
  rfl

/-- A built-in definition evaluates a crossing, or is an edge whenever it is active. -/
theorem evaluator_crosses_or_alwaysEdge {definition : StateDefinition F}
    (h : definition ∈ stateDefinitions) :
    Crosses definition.evaluator ∨ AlwaysEdge definition.evaluator := by
  simp only [stateDefinitions, List.mem_cons, List.not_mem_nil, or_false] at h
  rcases h with rfl | rfl | rfl | rfl | rfl | rfl | rfl | rfl | rfl | rfl | rfl | rfl | rfl | rfl |
    rfl | rfl | rfl | rfl
  exacts [.inl maCrossUp_crosses, .inl maCrossDown_crosses, .inr (maGap_alwaysEdge true),
    .inr (maGap_alwaysEdge false), .inl (lineCross_crosses .k .d true),
    .inl (lineCross_crosses .k .d false), .inr (allDirection_alwaysEdge [.k, .d, .j] true),
    .inr (allDirection_alwaysEdge [.k, .d, .j] false), .inr (bollWidthState_alwaysEdge true),
    .inr (bollWidthState_alwaysEdge false),
    .inr (allDirection_alwaysEdge [.upper, .middle, .lower] true),
    .inr (allDirection_alwaysEdge [.upper, .middle, .lower] false), .inl (bollBreak_crosses true),
    .inl (bollBreak_crosses false), .inl (lineCross_crosses .diff .dea true),
    .inl (lineCross_crosses .diff .dea false), .inr (macdRedBar_alwaysEdge true),
    .inr (macdRedBar_alwaysEdge false)]

theorem asPrice_eq_ok {value previous : Option F} {price : Option (PriceSnapshot F)}
    (h : asPrice value previous = .ok price) :
    price.map (·.current) = value ∧ price.bind (·.previous) = previous := by
  unfold asPrice at h
  split at h <;> split at h <;> cases h
  · next hnone => exact ⟨rfl, (Option.isNone_iff_eq_none.mp hnone).symm⟩
  · exact ⟨rfl, rfl⟩

theorem evaluateSignal_eq_ok {definition : StateDefinition F} {current previous : IndicatorSnapshot F}
    {price previousPrice : Option F} {signal : StateSignal}
    (h : evaluateSignal definition current previous price previousPrice = .ok signal) :
    ∃ prices, asPrice price previousPrice = .ok prices ∧
      definition.evaluator current previous prices defaultTolerance = .ok signal := by
  unfold evaluateSignal at h
  split at h
  · cases h
  split at h
  · cases h
  exact Except.bind_eq_ok.mp h

/-- A state that is active, after an observation on which it was evaluated as inactive, is an edge. -/
theorem edge_of_inactive {definition : StateDefinition F} (hmem : definition ∈ stateDefinitions)
    {earlier before current previous : IndicatorSnapshot F} {price₀ price₁ price₂ : Option F}
    {inactive active : StateSignal}
    (hinactive : evaluateSignal definition earlier before price₁ price₀ = .ok inactive)
    (hactive : evaluateSignal definition current previous price₂ price₁ = .ok active)
    (hvalues : previous.values = earlier.values) (hfalse : inactive.active = false)
    (htrue : active.active) : active.edge := by
  obtain ⟨prices, hprices, hinactive⟩ := evaluateSignal_eq_ok hinactive
  obtain ⟨prices', hprices', hactive⟩ := evaluateSignal_eq_ok hactive
  rcases evaluator_crosses_or_alwaysEdge hmem with ⟨relation, up, hcrosses⟩ | hedge
  · obtain ⟨now, _, hnow, -, rfl⟩ := hcrosses _ _ _ _ _ hinactive
    obtain ⟨after, was, -, hwas, rfl⟩ := hcrosses _ _ _ _ _ hactive
    rw [(asPrice_eq_ok hprices).1] at hnow
    rw [(asPrice_eq_ok hprices').2, hvalues, hnow] at hwas
    obtain rfl : now = was := Except.ok.inj hwas
    cases up with
    | true =>
      simp only [crossUp, ↓reduceIte, decide_eq_true_eq, decide_eq_false_iff_not] at hfalse htrue ⊢
      exact ⟨htrue, not_lt.mp hfalse⟩
    | false =>
      simp only [crossDown, Bool.false_eq_true, ↓reduceIte, decide_eq_true_eq,
        decide_eq_false_iff_not] at hfalse htrue ⊢
      exact ⟨htrue, not_lt.mp hfalse⟩
  · rw [hedge _ _ _ _ _ hactive]
    exact htrue

end Edges
end Apanel
