import Apanel.Indicators.Series
import Mathlib.Data.List.DropRight
import Mathlib.Data.PNat.Defs

/-!
# The plain calculations

The `calculate` functions of `app/indicators`: the latest value of an indicator, computed from the
candles given without carried state.
-/

namespace Apanel

/-- What `calculate` can raise: `InsufficientDataError` with its data, an error that
`calculate_series` can raise too, or a failed assertion. -/
inductive CalculateError
  | insufficientData (indicator : IndicatorType) (required available : ℕ)
  | calculation (error : CalculationError)
  | assertionError
  deriving DecidableEq

instance : MonadLift (Except CalculationError) (Except CalculateError) where
  monadLift x := x.mapError .calculation

/-- `require_length`. -/
def requireLength (indicator : IndicatorType) (length required : ℕ) : Except CalculateError Unit :=
  if length < required then .error (.insufficientData indicator required length) else .ok ()

section Formulas

variable {F : Type} [Arith F]

/-- `calculate_sma`. -/
def calculateSma (period : ℕ) (closes : List F) : Except CalculateError (Values F) := do
  requireLength .ma closes.length period
  let value := (← Arith.fsum (closes.rtake period)) / Arith.ofNat period
  resultValues [(.value, value)]

/-- `calculate_projected_ma`. -/
def calculateProjectedMa (period : ℕ) (closes : List F) : Except CalculateError (Values F) := do
  requireLength .projectedMa closes.length period
  match closes.getLast? with
  | none => .error .assertionError
  | some projectedClose =>
    let projectedWindow :=
      if period = 1 then [projectedClose] else closes.rtake (period - 1) ++ [projectedClose]
    let value := (← Arith.fsum projectedWindow) / Arith.ofNat period
    resultValues [(.value, value), (.projectedClose, projectedClose)]

/-- One iteration of the smoothing loop of `calculate_rsi`. -/
def rsiSmooth (period : ℕ) (averages : F × F) (change : F) : F × F :=
  let gain := Arith.max change (Arith.ofNat 0)
  let loss := Arith.max (-change) (Arith.ofNat 0)
  (((averages.1 * Arith.ofNat (period - 1)) + gain) / Arith.ofNat period,
    ((averages.2 * Arith.ofNat (period - 1)) + loss) / Arith.ofNat period)

/-- `calculate_rsi`. -/
def calculateRsi (period : ℕ) (closes : List F) : Except CalculateError (Values F) := do
  requireLength .rsi closes.length (period + 1)
  let changes := List.zipWith (fun previous current => current - previous) closes closes.tail
  let initialChanges := changes.take period
  let gains ← Arith.fsum (initialChanges.map fun change => Arith.max change (Arith.ofNat 0))
  let losses ← Arith.fsum (initialChanges.map fun change => Arith.max (-change) (Arith.ofNat 0))
  let averages := (changes.drop period).foldl (rsiSmooth period)
    (gains / Arith.ofNat period, losses / Arith.ofNat period)
  rsiValues averages.1 averages.2

/-- Python's `max` of an iterable. -/
def maxOf : List F → Except CalculationError F
  | [] => .error .valueError
  | x :: xs => .ok (xs.foldl Arith.max x)

/-- Python's `min` of an iterable. -/
def minOf : List F → Except CalculationError F
  | [] => .error .valueError
  | x :: xs => .ok (xs.foldl (fun a b => if Arith.lt b a then b else a) x)

/-- The variables `rsv`, `k` and `d` of `calculate_kdj`. -/
structure KdjValues (F : Type) where
  rsv : F
  k : F
  d : F

/-- One iteration of the loop of `calculate_kdj`. -/
def kdjSmooth (period kPeriod dPeriod : ℕ) (candles : List (Candle F)) (values : KdjValues F)
    (index : ℕ) : Except CalculateError (KdjValues F) := do
  let window := (candles.take (index + 1)).drop (index + 1 - period)
  let highest ← maxOf (window.filterMap (·.high))
  let lowest ← minOf (window.filterMap (·.low))
  match candles[index]? with
  | none => .error .assertionError
  | some candle =>
    let spread := highest - lowest
    let rsv :=
      if Arith.eq spread (Arith.ofNat 0) then Arith.ofNat 50
      else ((candle.close - lowest) / spread) * Arith.ofNat 100
    let k := ((values.k * Arith.ofNat (kPeriod - 1)) + rsv) / Arith.ofNat kPeriod
    let d := ((values.d * Arith.ofNat (dPeriod - 1)) + k) / Arith.ofNat dPeriod
    return { rsv, k, d }

/-- `calculate_kdj`. -/
def calculateKdj (period kPeriod dPeriod : ℕ) (candles : List (Candle F)) :
    Except CalculateError (Values F) := do
  requireLength .kdj candles.length period
  requireOhlc candles
  let fifty := Arith.ofNat 50
  let values ← (List.range' (period - 1) (candles.length - (period - 1))).foldlM
    (kdjSmooth period kPeriod dPeriod candles) { rsv := fifty, k := fifty, d := fifty }
  let j := (Arith.ofNat 3 * values.k) - (Arith.ofNat 2 * values.d)
  resultValues [(.rsv, values.rsv), (.k, values.k), (.d, values.d), (.j, j)]

/-- `calculate_bollinger`. -/
def calculateBollinger (period : ℕ) (multiplier : F) (closes : List F) :
    Except CalculateError (Values F) := do
  requireLength .boll closes.length period
  let window := closes.rtake period
  let middle := (← Arith.fsum window) / Arith.ofNat period
  let squares ← Arith.fsum (window.map fun close => (close - middle) * (close - middle))
  let variance := squares / Arith.ofNat period
  let standardDeviation := Arith.sqrt (Arith.max variance (Arith.ofNat 0))
  let upper := middle + multiplier * standardDeviation
  let lower := middle - multiplier * standardDeviation
  let width ← normalizedBandWidth upper lower middle
  resultValues [(.upper, upper), (.middle, middle), (.lower, lower), (.width, width)]

/-- `calculate_macd`. -/
def calculateMacd (fastPeriod slowPeriod signalPeriod : ℕ) (closes : List F) :
    Except CalculateError (Values F) := do
  if slowPeriod ≤ fastPeriod then
    throw (.calculation .indicatorError)
  requireLength .macd closes.length (slowPeriod + signalPeriod - 1)
  let fastEma ← ema closes fastPeriod
  let slowEma ← ema closes slowPeriod
  let diffs := macdDiffs slowPeriod fastEma slowEma
  let signalValues ← ema diffs signalPeriod
  match diffs.getLast?, signalValues.getLast? with
  | some diff, some (some dea) =>
    resultValues [(.diff, diff), (.dea, dea), (.histogram, diff - dea)]
  | _, _ => .error .assertionError

/-! ## The built-in indicators -/

/-- A built-in indicator with parameters that its checks accept: `positive_int`,
`positive_number`, and the order of the MACD periods. -/
inductive BuiltIn (F : Type) [Arith F]
  | ma (period : ℕ+)
  | projectedMa (period : ℕ+)
  | rsi (period : ℕ+)
  | kdj (period kPeriod dPeriod : ℕ+)
  | boll (period : ℕ+) (multiplier : F)
      (positive : Arith.isFinite multiplier ∧ Arith.lt (Arith.ofNat 0) multiplier)
  | macd (fastPeriod slowPeriod signalPeriod : ℕ+) (lt : fastPeriod < slowPeriod)

/-- `calculate` of the indicator. -/
def BuiltIn.calculate (indicator : BuiltIn F) (candles : List (Candle F)) :
    Except CalculateError (Values F) :=
  let closes := candles.map (·.close)
  match indicator with
  | ma period => calculateSma period closes
  | projectedMa period => calculateProjectedMa period closes
  | rsi period => calculateRsi period closes
  | kdj period kPeriod dPeriod => calculateKdj period kPeriod dPeriod candles
  | boll period multiplier _ => calculateBollinger period multiplier closes
  | macd fastPeriod slowPeriod signalPeriod _ =>
    calculateMacd fastPeriod slowPeriod signalPeriod closes

/-- `calculate_series` of the indicator. -/
def BuiltIn.calculateSeries (indicator : BuiltIn F) (candles : List (Candle F)) :
    Except CalculationError (List (Option (Values F))) :=
  let closes := candles.map (·.close)
  match indicator with
  | ma period =>
    (·.map (·.map fun value => [(Field.value, value)])) <$>
      scanPast (smaStep period) (Arith.ofNat 0) [] closes
  | projectedMa period => scanPast (projectedMaStep period) () [] closes
  | rsi period => scanPast (rsiStep period) none [] closes
  | kdj period kPeriod dPeriod => kdjSeries period kPeriod dPeriod candles
  | boll period multiplier _ =>
    scanPast (bollStep period multiplier) (Arith.ofNat 0, Arith.ofNat 0) [] closes
  | macd fastPeriod slowPeriod signalPeriod _ =>
    macdSeries fastPeriod slowPeriod signalPeriod closes

/-- Whether `calculate` finds the data the indicator needs in every candle. -/
def BuiltIn.Supplied (indicator : BuiltIn F) (candles : List (Candle F)) : Prop :=
  match indicator with
  | kdj _ _ _ => ∀ candle ∈ candles, candle.HasRange
  | _ => True

/-- The series path equals the plain path: the series has an element for every candle, the element
at `i` is the result of `calculate` on the candles up to `i`, and it is `None` exactly where
`calculate` raises the insufficient-data error. -/
def BuiltIn.SeriesIsPlain (indicator : BuiltIn F) (candles : List (Candle F)) : Prop :=
  ∃ out, indicator.calculateSeries candles = .ok out ∧ out.length = candles.length ∧
    ∀ i (h : i < out.length),
      (∀ values, out[i] = some values ↔
        indicator.calculate (candles.take (i + 1)) = .ok values) ∧
      (out[i] = none ↔ ∃ name required available, indicator.calculate (candles.take (i + 1)) =
        .error (.insufficientData name required available))

end Formulas

end Apanel
