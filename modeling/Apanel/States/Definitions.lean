import Apanel.Indicators.Series
import Mathlib.Data.List.Sort

/-!
# State definitions

The built-in states and their evaluators (`app/states/definitions.py`), in registry order. Name,
level and comparison text of a definition are constants of its code that nothing here reads.
-/

namespace Apanel

/-- Why an observation is UNKNOWN. -/
inductive StateReason
  | tradingCalendarUnavailable
  | missingPreviousTradingDay
  | missingCurrentIndicator
  | missingValues
  | missingPrice
  | invalidValues
  | indicatorMismatch
  deriving DecidableEq

/-- A normalized observation as the state domain reads it. `maPair` holds the scalar parameters
`short_period` and `long_period` of a projected MA pair. -/
structure IndicatorSnapshot (F : Type) where
  indicator : IndicatorType
  values : Values F
  previousValues : Option (Values F)
  maPair : Option (ℕ × ℕ)

/-- Current and previous close prices used by BOLL break states. -/
structure PriceSnapshot (F : Type) where
  current : F
  previous : Option F

/-- Evaluator output before edge-trigger history is applied by the engine. -/
structure StateSignal where
  active : Bool
  edge : Bool
  deriving DecidableEq

inductive StateMode
  | edge
  | continuous
  deriving DecidableEq

/-- An entry of a definition's `fields`. -/
inductive ContextField
  | short
  | long
  | price
  | field (field : Field)
  deriving DecidableEq

inductive StateCode
  | maCrossUp
  | maCrossDown
  | maGapNarrowing
  | maGapExpanding
  | kdjKCrossDUp
  | kdjKCrossDDown
  | kdjAllRising
  | kdjAllFalling
  | bollWidthNarrowing
  | bollWidthExpanding
  | bollAllRising
  | bollAllFalling
  | bollBreakUpper
  | bollBreakLower
  | macdDiffCrossDeaUp
  | macdDiffCrossDeaDown
  | macdRedBarGrowing
  | macdRedBarShrinking
  deriving DecidableEq

theorem StateCode.ctorIdx_injective : Function.Injective StateCode.ctorIdx := by
  intro a b h
  cases a <;> cases b <;> first | rfl | exact absurd h (by decide)

abbrev StateEvaluator (F : Type) :=
  IndicatorSnapshot F → IndicatorSnapshot F → Option (PriceSnapshot F) → F →
    Except StateReason StateSignal

structure StateDefinition (F : Type) where
  code : StateCode
  indicatorType : IndicatorType
  mode : StateMode
  fields : List ContextField
  evaluator : StateEvaluator F

section Evaluators

variable {F : Type} [Arith F]

/-- `_value`: the names other than these that the evaluators try are never keys of a value map. -/
def valueOf (snapshot : IndicatorSnapshot F) (name : Field) : Except StateReason F :=
  match snapshot.values.lookup name with
  | some value => .ok value
  | none => .error .missingValues

def valuesOf (snapshot : IndicatorSnapshot F) (names : List Field) : Except StateReason (List F) :=
  names.mapM (valueOf snapshot)

def comparison (left right tolerance : F) : ℤ :=
  if Arith.le (Arith.abs (left - right)) tolerance then 0
  else if Arith.lt right left then 1 else -1

/-- `_ma_pair`: MA5 and MA10 when both are there, otherwise the two smallest periods. -/
def maPair (snapshot : IndicatorSnapshot F) : Except StateReason (F × F) :=
  match snapshot.values.lookup (.ma 5), snapshot.values.lookup (.ma 10) with
  | some short, some long => .ok (short, long)
  | _, _ =>
    let candidates := snapshot.values.filterMap fun
      | (.ma period, value) => some (period, value)
      | _ => none
    match candidates.insertionSort (fun a b => a.1 ≤ b.1) with
    | short :: long :: _ => .ok (short.2, long.2)
    | _ => .error .missingValues

/-- `_require_pair`. -/
def requirePair (current previous : IndicatorSnapshot F) :
    Except StateReason ((F × F) × (F × F)) := do
  let currentPair ← maPair current
  let previousPair ← maPair previous
  return (currentPair, previousPair)

/-- The signal of a crossing: the current relation is strictly on one side, the previous was not. -/
def crossUp (currentRelation previousRelation : ℤ) : StateSignal :=
  ⟨currentRelation > 0, currentRelation > 0 ∧ previousRelation ≤ 0⟩

def crossDown (currentRelation previousRelation : ℤ) : StateSignal :=
  ⟨currentRelation < 0, currentRelation < 0 ∧ previousRelation ≥ 0⟩

def maCrossUp : StateEvaluator F := fun current previous _ tolerance => do
  let ((currentShort, currentLong), (previousShort, previousLong)) ← requirePair current previous
  return crossUp (comparison currentShort currentLong tolerance)
    (comparison previousShort previousLong tolerance)

def maCrossDown : StateEvaluator F := fun current previous _ tolerance => do
  let ((currentShort, currentLong), (previousShort, previousLong)) ← requirePair current previous
  return crossDown (comparison currentShort currentLong tolerance)
    (comparison previousShort previousLong tolerance)

def maGap (narrowing : Bool) : StateEvaluator F := fun current previous _ tolerance => do
  let ((currentShort, currentLong), (previousShort, previousLong)) ← requirePair current previous
  let currentGap := Arith.abs (currentShort - currentLong)
  let previousGap := Arith.abs (previousShort - previousLong)
  let relation := comparison currentGap previousGap tolerance
  let active : Bool := if narrowing then relation < 0 else relation > 0
  return ⟨active, active⟩

/-- `_kdj_cross` and `_macd_cross`: the crossing of two lines. -/
def lineCross (first second : Field) (up : Bool) : StateEvaluator F :=
  fun current previous _ tolerance => do
    let currentFirst ← valueOf current first
    let currentSecond ← valueOf current second
    let previousFirst ← valueOf previous first
    let previousSecond ← valueOf previous second
    let currentRelation := comparison currentFirst currentSecond tolerance
    let previousRelation := comparison previousFirst previousSecond tolerance
    return if up then crossUp currentRelation previousRelation
      else crossDown currentRelation previousRelation

def kdjCross (up : Bool) : StateEvaluator F := lineCross .k .d up

def macdCross (up : Bool) : StateEvaluator F := lineCross .diff .dea up

def allDirection (fields : List Field) (rising : Bool) : StateEvaluator F :=
  fun current previous _ tolerance => do
    let currentValues ← valuesOf current fields
    let previousValues ← valuesOf previous fields
    let comparisons := List.zipWith (fun currentValue previousValue =>
      comparison currentValue previousValue tolerance) currentValues previousValues
    let active : Bool := if rising then comparisons.all (· > 0) else comparisons.all (· < 0)
    return ⟨active, active⟩

def bollWidth (snapshot : IndicatorSnapshot F) (tolerance : F) : Except StateReason F :=
  match snapshot.values.lookup .width with
  | some width => .ok width
  | none => do
    let upper ← valueOf snapshot .upper
    let middle ← valueOf snapshot .middle
    let lower ← valueOf snapshot .lower
    return if Arith.le (Arith.abs middle) tolerance then Arith.ofNat 0 else (upper - lower) / middle

def bollWidthState (narrowing : Bool) : StateEvaluator F := fun current previous _ tolerance => do
  let currentWidth ← bollWidth current tolerance
  let previousWidth ← bollWidth previous tolerance
  let relation := comparison currentWidth previousWidth tolerance
  let active : Bool := if narrowing then relation < 0 else relation > 0
  return ⟨active, active⟩

def bollBreak (upper : Bool) : StateEvaluator F := fun current previous price tolerance =>
  match price with
  | some { current := currentPrice, previous := some priorPrice } => do
    let band := if upper then Field.upper else Field.lower
    let currentBand ← valueOf current band
    let previousBand ← valueOf previous band
    let currentRelation := comparison currentPrice currentBand tolerance
    let priorRelation := comparison priorPrice previousBand tolerance
    return if upper then crossUp currentRelation priorRelation
      else crossDown currentRelation priorRelation
  | _ => .error .missingPrice

def macdRedBar (growing : Bool) : StateEvaluator F := fun current previous _ tolerance => do
  let currentBar ← valueOf current .histogram
  let previousBar ← valueOf previous .histogram
  let relation := comparison currentBar previousBar tolerance
  let active : Bool :=
    if growing then Arith.lt tolerance currentBar && decide (relation > 0)
    else Arith.lt tolerance currentBar && Arith.lt tolerance previousBar && decide (relation < 0)
  return ⟨active, active⟩

/-! ## The registry -/

/-- `create_default_definitions`, in registration order. -/
def stateDefinitions : List (StateDefinition F) := [
  ⟨.maCrossUp, .ma, .edge, [.short, .long], maCrossUp⟩,
  ⟨.maCrossDown, .ma, .edge, [.short, .long], maCrossDown⟩,
  ⟨.maGapNarrowing, .ma, .continuous, [.short, .long], maGap true⟩,
  ⟨.maGapExpanding, .ma, .continuous, [.short, .long], maGap false⟩,
  ⟨.kdjKCrossDUp, .kdj, .edge, [.field .k, .field .d], kdjCross true⟩,
  ⟨.kdjKCrossDDown, .kdj, .edge, [.field .k, .field .d], kdjCross false⟩,
  ⟨.kdjAllRising, .kdj, .continuous, [.field .k, .field .d, .field .j],
    allDirection [.k, .d, .j] true⟩,
  ⟨.kdjAllFalling, .kdj, .continuous, [.field .k, .field .d, .field .j],
    allDirection [.k, .d, .j] false⟩,
  ⟨.bollWidthNarrowing, .boll, .continuous, [.field .width], bollWidthState true⟩,
  ⟨.bollWidthExpanding, .boll, .continuous, [.field .width], bollWidthState false⟩,
  ⟨.bollAllRising, .boll, .continuous, [.field .upper, .field .middle, .field .lower],
    allDirection [.upper, .middle, .lower] true⟩,
  ⟨.bollAllFalling, .boll, .continuous, [.field .upper, .field .middle, .field .lower],
    allDirection [.upper, .middle, .lower] false⟩,
  ⟨.bollBreakUpper, .boll, .edge, [.field .upper, .price], bollBreak true⟩,
  ⟨.bollBreakLower, .boll, .edge, [.field .lower, .price], bollBreak false⟩,
  ⟨.macdDiffCrossDeaUp, .macd, .edge, [.field .diff, .field .dea], macdCross true⟩,
  ⟨.macdDiffCrossDeaDown, .macd, .edge, [.field .diff, .field .dea], macdCross false⟩,
  ⟨.macdRedBarGrowing, .macd, .continuous, [.field .histogram], macdRedBar true⟩,
  ⟨.macdRedBarShrinking, .macd, .continuous, [.field .histogram], macdRedBar false⟩]

/-- The codes identify the definitions. -/
theorem stateDefinitions_codes_nodup :
    ((stateDefinitions (F := F)).map (·.code)).Nodup := by
  simp [stateDefinitions]

end Evaluators

end Apanel
