import Apanel.Library.Causal
import Apanel.Indicators.Parameters
import Apanel.Streams

/-!
# Indicator series

The `calculate_series` methods of `app/indicators` and `IndicatorService._series_for_request`. A
loop `for index, close in enumerate(closes)` is a `scanPast`: `closes[index - n]` is the entry `n - 1`
of the list of earlier closes, the most recent one first. Every series is causal
(`calculateSeries_causal`); the only place where a later bar can change an earlier output is the
`except IndicatorError` of `_series_for_request`.
-/

namespace Apanel

/-- One completed OHLC candle, every number normalized to a float. Only the close is required. -/
structure Candle (F : Type) where
  openPrice : Option F
  high : Option F
  low : Option F
  close : F
  volume : Option F

/-- The keys of a snapshot's value map: `MA5`, `value`, `projected_close` and so on. -/
inductive Field
  | ma (period : ℕ)
  | value
  | projectedClose
  | averageGain
  | averageLoss
  | rsv
  | k
  | d
  | j
  | upper
  | middle
  | lower
  | width
  | diff
  | dea
  | histogram
  deriving DecidableEq

/-- A value map, in insertion order. -/
abbrev Values (F : Type) := List (Field × F)

section Formulas

variable {F : Type} [Arith F]

/-- `Candle.__post_init__`: every rejection is an `InvalidInputError`. -/
def Candle.ofBar (bar : DailyBar) : Except CalculationError (Candle F) :=
  let openPrice : F := Arith.ofRat bar.openPrice
  let high : F := Arith.ofRat bar.high
  let low : F := Arith.ofRat bar.low
  let close : F := Arith.ofRat bar.close
  let volume : F := Arith.ofRat bar.volume
  let zero : F := Arith.ofNat 0
  let validPrice (price : F) := Arith.isFinite price && !Arith.le price zero
  if !([openPrice, high, low, close].all validPrice) then .error .indicatorError
  else if Arith.lt high low then .error .indicatorError
  else if Arith.lt close low || Arith.lt high close then .error .indicatorError
  else if Arith.lt openPrice low || Arith.lt high openPrice then .error .indicatorError
  else if !(Arith.isFinite volume) || Arith.lt volume zero then .error .indicatorError
  else .ok { openPrice := openPrice, high := high, low := low, close := close, volume := volume }

/-- The shared contract of results (`IndicatorResult.__post_init__`): every value is finite. -/
def resultValues (values : Values F) : Except CalculationError (Values F) :=
  if values.all (fun value => Arith.isFinite value.2) then .ok values else .error .indicatorError

/-! ## Moving averages -/

/-- One iteration of `SMAIndicator.calculate_series`. -/
def smaStep (selected : ℕ) (running : F) (past : List F) (value : F) :
    Except CalculationError (F × Option F) :=
  let running := running + value
  let running := match past[selected - 1]? with
    | some old => running - old
    | none => running
  if selected ≤ past.length + 1 then do
    let result := running / Arith.ofNat selected
    let _ ← resultValues [(.value, result)]
    return (running, some result)
  else .ok (running, none)

def smaSeries (selected : Period) : List F → Except CalculationError (List (Option F)) :=
  scanPast (smaStep selected) (Arith.ofNat 0) []

/-- The value maps of an MA request: one entry for each period that has warmed up. -/
def maValues : List Period → List F → Except CalculationError (List (Values F))
  | [], closes => .ok (closes.map fun _ => [])
  | period :: periods, closes => do
    let series ← smaSeries period closes
    (List.zipWith (fun result values => (result.map (Field.ma period, ·)).toList ++ values) series ·)
      <$> maValues periods closes

def maSeries (periods : List Period) (closes : List F) :
    Except CalculationError (List (Option (Values F))) :=
  (·.map fun values => if values.isEmpty then none else some values) <$> maValues periods closes

/-- The projected average over `closes[index - selected + 2 : index + 1]` and the last close. -/
def projectedMaValue (selected : ℕ) (past : List F) (projectedClose : F) :
    Except CalculationError F :=
  if selected = 1 then .ok projectedClose
  else do
    let window := ((projectedClose :: past).take (selected - 1)).reverse
    let total ← Arith.fsum window
    return (total + projectedClose) / Arith.ofNat selected

/-- One iteration of `ProjectedMAIndicator.calculate_series`. -/
def projectedMaStep (selected : ℕ) (_ : Unit) (past : List F) (projectedClose : F) :
    Except CalculationError (Unit × Option (Values F)) :=
  if selected ≤ past.length + 1 then do
    let value ← projectedMaValue selected past projectedClose
    let values ← resultValues [(.value, value), (.projectedClose, projectedClose)]
    return ((), some values)
  else .ok ((), none)

/-! ## RSI -/

def rsiValues (avgGain avgLoss : F) : Except CalculationError (Values F) :=
  let zero := Arith.ofNat 0
  let hundred := Arith.ofNat 100
  let value :=
    if Arith.eq avgLoss zero then
      if Arith.eq avgGain zero then Arith.ofNat 50 else hundred
    else if Arith.eq avgGain zero then zero
    else hundred - (hundred / (Arith.ofNat 1 + avgGain / avgLoss))
  resultValues [(.value, value), (.averageGain, avgGain), (.averageLoss, avgLoss)]

/-- `changes[0 .. index]` for closes given the most recent one first. -/
def changesOf (closes : List F) : List F :=
  let closes := closes.reverse
  List.zipWith (fun previous current => current - previous) closes closes.tail

/-- The averages of `RSIIndicator.calculate_series` at `index = past.length`: seeded from
`changes[:selected]` at `index == selected`, smoothed afterwards. -/
def rsiAverages (selected : ℕ) (averages : Option (F × F)) (past : List F) (close : F) :
    Except CalculationError (Option (F × F)) :=
  let zero : F := Arith.ofNat 0
  let n : F := Arith.ofNat selected
  match averages with
  | some (avgGain, avgLoss) =>
    let change := close - past.headD close
    .ok (some
      (((avgGain * Arith.ofNat (selected - 1)) + Arith.max change zero) / n,
        ((avgLoss * Arith.ofNat (selected - 1)) + Arith.max (-change) zero) / n))
  | none =>
    if past.length = selected then do
      let changes := changesOf (close :: past)
      let gains ← Arith.fsum (changes.map fun change => Arith.max change zero)
      let losses ← Arith.fsum (changes.map fun change => Arith.max (-change) zero)
      return some (gains / n, losses / n)
    else .ok none

/-- One iteration of `RSIIndicator.calculate_series`. -/
def rsiStep (selected : ℕ) (averages : Option (F × F)) (past : List F) (close : F) :
    Except CalculationError (Option (F × F) × Option (Values F)) := do
  match ← rsiAverages selected averages past close with
  | some (avgGain, avgLoss) =>
    let values ← rsiValues avgGain avgLoss
    return (some (avgGain, avgLoss), some values)
  | none => return (none, none)

/-! ## KDJ -/

/-- The monotonic deques of candle indices (each index with its price, oldest first) and the
smoothed values of `KDJIndicator.calculate_series`. -/
structure KdjState (F : Type) where
  highs : List (ℕ × F)
  lows : List (ℕ × F)
  k : F
  d : F

/-- Pop the dominated entries at the back, append the new one, drop those before the window. -/
def pushDeque (dominated : F → Bool) (selected index : ℕ) (price : F) (deque : List (ℕ × F)) :
    List (ℕ × F) :=
  let deque := (deque.reverse.dropWhile fun entry => dominated entry.2).reverse ++ [(index, price)]
  deque.dropWhile fun entry => entry.1 + selected < index + 1

/-- What KDJ requires of a candle. -/
abbrev Candle.HasRange {F : Type} (candle : Candle F) : Prop :=
  candle.high.isSome ∧ candle.low.isSome

/-- `require_ohlc`: a candle without a high or a low is an `InvalidInputError`. -/
def requireOhlc (candles : List (Candle F)) : Except CalculationError Unit :=
  if candles.all fun candle => candle.high.isSome && candle.low.isSome then .ok ()
  else .error .indicatorError

/-- One iteration of `KDJIndicator.calculate_series`, for a candle with a high and a low. The newest
index never leaves the window, so the deques are not empty where their front is read. -/
def kdjStepOf (selected kp dp : ℕ) (s : KdjState F) (index : ℕ) (high low close : F) :
    Except CalculationError (KdjState F × Option (Values F)) :=
  let highs := pushDeque (fun back => Arith.le back high) selected index high s.highs
  let lows := pushDeque (fun back => Arith.le low back) selected index low s.lows
  if index < selected - 1 then .ok ({ s with highs, lows }, none)
  else do
    let highest := (highs.head?.map (·.2)).getD high
    let lowest := (lows.head?.map (·.2)).getD low
    let spread := highest - lowest
    let rsv :=
      if Arith.eq spread (Arith.ofNat 0) then Arith.ofNat 50
      else ((close - lowest) / spread) * Arith.ofNat 100
    let k := ((s.k * Arith.ofNat (kp - 1)) + rsv) / Arith.ofNat kp
    let d := ((s.d * Arith.ofNat (dp - 1)) + k) / Arith.ofNat dp
    let j := (Arith.ofNat 3 * k) - (Arith.ofNat 2 * d)
    let values ← resultValues [(.rsv, rsv), (.k, k), (.d, d), (.j, j)]
    return ({ highs, lows, k, d }, some values)

/-- `kdjStepOf`, after the assertion that the candle has a high and a low. -/
def kdjStep (selected kp dp : ℕ) (s : KdjState F) (past : List (Candle F)) (candle : Candle F) :
    Except CalculationError (KdjState F × Option (Values F)) :=
  match candle.high, candle.low with
  | some high, some low => kdjStepOf selected kp dp s past.length high low candle.close
  | _, _ => .error .indicatorError

/-- `KDJIndicator.calculate_series`. -/
def kdjSeries (selected kp dp : ℕ) (candles : List (Candle F)) :
    Except CalculationError (List (Option (Values F))) := do
  requireOhlc candles
  scanPast (kdjStep selected kp dp) ⟨[], [], Arith.ofNat 50, Arith.ofNat 50⟩ [] candles

/-! ## BOLL -/

/-- `normalized_band_width`: an argument that is not finite is an `InvalidInputError`, a width that
is not finite a plain `ValueError`. -/
def normalizedBandWidth (upper lower middle : F) : Except CalculationError F :=
  if !([upper, lower, middle].all Arith.isFinite) then .error .indicatorError
  else if Arith.eq middle (Arith.ofNat 0) then .ok (Arith.ofNat 0)
  else
    let width := (upper - lower) / middle
    if !(Arith.isFinite width) then .error .valueError else .ok width

/-- One iteration of `BollingerIndicator.calculate_series`. -/
def bollStep (selected : ℕ) (multiplier : F) (sums : F × F) (past : List F) (close : F) :
    Except CalculationError ((F × F) × Option (Values F)) :=
  let running := sums.1 + close
  let squares := sums.2 + close * close
  let (running, squares) := match past[selected - 1]? with
    | some old => (running - old, squares - old * old)
    | none => (running, squares)
  if selected ≤ past.length + 1 then do
    let middle := running / Arith.ofNat selected
    let variance :=
      Arith.max ((squares / Arith.ofNat selected) - (middle * middle)) (Arith.ofNat 0)
    let std := Arith.sqrt variance
    let upper := middle + multiplier * std
    let lower := middle - multiplier * std
    let width ← normalizedBandWidth upper lower middle
    let values ← resultValues
      [(.upper, upper), (.middle, middle), (.lower, lower), (.width, width)]
    return ((running, squares), some values)
  else .ok ((running, squares), none)

/-! ## MACD -/

/-- The tail of `_ema` after its seed. -/
def emaFrom (alpha previous : F) : List F → List F
  | [] => [previous]
  | value :: values =>
    previous :: emaFrom alpha ((alpha * value) + ((Arith.ofNat 1 - alpha) * previous)) values

/-- An EMA series seeded by the first period's SMA. -/
def ema (values : List F) (period : ℕ) : Except CalculationError (List (Option F)) := do
  let seed := (← Arith.fsum (values.take period)) / Arith.ofNat period
  let alpha := Arith.ofNat 2 / (Arith.ofNat period + Arith.ofNat 1)
  return List.replicate (period - 1) none ++ (emaFrom alpha seed (values.drop period)).map some

def macdValues (diff : F) : Option F → Except CalculationError (Option (Values F))
  | none => .ok none
  | some dea => some <$> resultValues [(.diff, diff), (.dea, dea), (.histogram, diff - dea)]

/-- `fast_values[index] - slow_values[index]` from `index == slow - 1` on, where both exist. -/
def macdDiffs (slow : ℕ) (fastValues slowValues : List (Option F)) : List F :=
  List.zipWith (· - ·) ((fastValues.drop (slow - 1)).filterMap id)
    ((slowValues.drop (slow - 1)).filterMap id)

/-- `MACDIndicator.calculate_series`. -/
def macdSeries (fast slow signal : ℕ) (closes : List F) :
    Except CalculationError (List (Option (Values F))) :=
  if slow ≤ fast then .error .indicatorError
  else if closes.length < slow then .ok (closes.map fun _ => none)
  else do
    let fastValues ← ema closes fast
    let slowValues ← ema closes slow
    let diffs := macdDiffs slow fastValues slowValues
    if diffs.length < signal then return closes.map fun _ => none
    let signalValues ← ema diffs signal
    let output ← (diffs.zip signalValues).mapM fun (diff, dea) => macdValues diff dea
    return List.replicate (slow - 1) none ++ output

/-! ## The registry -/

/-- `registry.calculate_series` for the canonical parameters of a request. -/
def calculateSeries (request : IndicatorRequest F) (candles : List (Candle F)) :
    Except CalculationError (List (Option (Values F))) :=
  let closes := candles.map (·.close)
  match request with
  | .ma periods => maSeries periods.periods closes
  | .projectedMa period => scanPast (projectedMaStep period) () [] closes
  | .rsi period => scanPast (rsiStep period) none [] closes
  | .kdj period kPeriod dPeriod => kdjSeries period kPeriod dPeriod candles
  | .boll period multiplier =>
    if Arith.isFinite multiplier && Arith.lt (Arith.ofNat 0) multiplier then
      scanPast (bollStep period multiplier) (Arith.ofNat 0, Arith.ofNat 0) [] closes
    else .error .indicatorError
  | .macd fast slow signal => macdSeries fast slow signal closes

/-- `_series_for_request`: an `IndicatorError` blanks the whole series, except for MA, which is
calculated outside the `try`. -/
def seriesForRequest (request : IndicatorRequest F) (candles : List (Candle F)) :
    Except CalculationError (List (Option (Values F))) :=
  match request, calculateSeries request candles with
  | .ma _, result => result
  | _, .error .indicatorError => .ok (candles.map fun _ => none)
  | _, result => result

/-! ## Causality -/

theorem smaSeries_causal (selected : Period) : Causal (smaSeries (F := F) selected) :=
  scanPast_causal ..

theorem maValues_causal (periods : List Period) : Causal (maValues (F := F) periods) := by
  induction periods with
  | nil => exact .const []
  | cons period periods ih => exact (smaSeries_causal period).zipWith ih _

omit [Arith F] in
theorem requireOhlc_eq_ok {candles : List (Candle F)} :
    requireOhlc candles = .ok () ↔ ∀ candle ∈ candles, candle.HasRange := by
  unfold requireOhlc
  split <;> simp_all [Candle.HasRange]

theorem kdjSeries_eq_ok {selected kp dp : ℕ} {candles : List (Candle F)}
    {out : List (Option (Values F))} :
    kdjSeries selected kp dp candles = .ok out ↔
      (∀ candle ∈ candles, candle.HasRange) ∧
        scanPast (kdjStep selected kp dp) ⟨[], [], Arith.ofNat 50, Arith.ofNat 50⟩ [] candles =
          .ok out := by
  rw [kdjSeries, Except.bind_eq_ok, ← requireOhlc_eq_ok]
  exact ⟨fun ⟨_, hohlc, h⟩ => ⟨hohlc, h⟩, fun ⟨hohlc, h⟩ => ⟨(), hohlc, h⟩⟩

theorem kdjSeries_causal (selected kp dp : ℕ) : Causal (kdjSeries (F := F) selected kp dp) where
  length h := (scanPast_causal ..).length (kdjSeries_eq_ok.mp h).2
  take h := by
    obtain ⟨hohlc, h⟩ := kdjSeries_eq_ok.mp h
    exact kdjSeries_eq_ok.mpr
      ⟨fun candle hc => hohlc candle (List.mem_append_left _ hc), (scanPast_causal ..).take h⟩

theorem emaFrom_length (alpha previous : F) (values : List F) :
    (emaFrom alpha previous values).length = values.length + 1 := by
  induction values generalizing previous with
  | nil => rfl
  | cons value values ih => simp [emaFrom, ih]

theorem emaFrom_take (alpha previous : F) (values more : List F) :
    (emaFrom alpha previous (values ++ more)).take (values.length + 1) =
      emaFrom alpha previous values := by
  induction values generalizing previous with
  | nil => cases more <;> simp [emaFrom]
  | cons value values ih => simp [emaFrom, ih]

theorem ema_eq_ok {values : List F} {period : ℕ} {out : List (Option F)} :
    ema values period = .ok out ↔ ∃ total, Arith.fsum (values.take period) = .ok total ∧
      out = List.replicate (period - 1) none ++
        (emaFrom (Arith.ofNat 2 / (Arith.ofNat period + Arith.ofNat 1))
          (total / Arith.ofNat period) (values.drop period)).map some := by
  simp only [ema, Except.bind_eq_ok]
  refine exists_congr fun total => and_congr_right fun _ => ?_
  exact ⟨fun h => (Except.ok.inj h).symm, fun h => congrArg _ h.symm⟩

theorem ema_length {values : List F} {period : ℕ} {out : List (Option F)} (h0 : 0 < period)
    (hp : period ≤ values.length) (h : ema values period = .ok out) :
    out.length = values.length := by
  obtain ⟨total, -, rfl⟩ := ema_eq_ok.mp h
  simp [emaFrom_length]
  omega

theorem ema_take {values more : List F} {period : ℕ} {out : List (Option F)} (h0 : 0 < period)
    (hp : period ≤ values.length) (h : ema (values ++ more) period = .ok out) :
    ema values period = .ok (out.take values.length) := by
  obtain ⟨total, ht, rfl⟩ := ema_eq_ok.mp h
  rw [List.take_append_of_le_length hp] at ht
  refine ema_eq_ok.mpr ⟨total, ht, ?_⟩
  have hlen : values.length - (period - 1) = (values.drop period).length + 1 := by
    simp only [List.length_drop]; omega
  rw [List.take_append, List.length_replicate, List.take_of_length_le (by simp; omega), hlen,
    ← List.map_take, List.drop_append_of_le_length hp, emaFrom_take]

/-- From `index == n` on, `n` at least the period, an EMA has a value at every index. -/
theorem ema_drop {values : List F} {period n : ℕ} {out : List (Option F)} (hn : period ≤ n + 1)
    (h : ema values period = .ok out) : ∃ tail, out.drop n = List.map some tail := by
  obtain ⟨total, -, rfl⟩ := ema_eq_ok.mp h
  rw [List.drop_append, List.drop_of_length_le (by simp; omega), List.nil_append, ← List.map_drop]
  exact ⟨_, rfl⟩

theorem macdDiffs_take {slow n : ℕ} {fastValues slowValues : List (Option F)}
    (hf : ∃ tail, fastValues.drop (slow - 1) = List.map some tail)
    (hs : ∃ tail, slowValues.drop (slow - 1) = List.map some tail) :
    macdDiffs slow (fastValues.take n) (slowValues.take n) =
      (macdDiffs slow fastValues slowValues).take (n - (slow - 1)) := by
  obtain ⟨f, hf⟩ := hf
  obtain ⟨s, hs⟩ := hs
  simp only [macdDiffs, List.drop_take, hf, hs, ← List.map_take]
  simp [List.filterMap_map, List.take_zipWith]

theorem macdDiffs_length {slow : ℕ} {fastValues slowValues : List (Option F)}
    (hf : ∃ tail, fastValues.drop (slow - 1) = List.map some tail)
    (hs : ∃ tail, slowValues.drop (slow - 1) = List.map some tail)
    (hlen : fastValues.length = slowValues.length) :
    (macdDiffs slow fastValues slowValues).length = slowValues.length - (slow - 1) := by
  obtain ⟨f, hf⟩ := hf
  obtain ⟨s, hs⟩ := hs
  have hfl := congrArg List.length hf
  have hsl := congrArg List.length hs
  simp only [List.length_drop, List.length_map] at hfl hsl
  simp only [macdDiffs, hf, hs]
  simp [List.filterMap_map]
  omega

theorem macdDiffs_length_of_ema {fast slow : ℕ} (hfast0 : 0 < fast) (hfast : fast < slow)
    {closes : List F} (hlen : slow ≤ closes.length) {fastValues slowValues : List (Option F)}
    (hf : ema closes fast = .ok fastValues) (hs : ema closes slow = .ok slowValues) :
    (macdDiffs slow fastValues slowValues).length = closes.length - (slow - 1) := by
  have hfl := ema_length hfast0 (by omega) hf
  have hsl := ema_length (by omega) hlen hs
  rw [macdDiffs_length (ema_drop (by omega) hf) (ema_drop (by omega) hs) (by omega), hsl]

/-- Before the signal line is seeded there is no output. -/
theorem mapM_macdValues_none (diffs : List F) :
    ((diffs.zip (List.replicate diffs.length none)).mapM fun p => macdValues p.1 p.2) =
      .ok (diffs.map fun _ => none) := by
  induction diffs with
  | nil => rfl
  | cons diff diffs ih =>
    exact mapM_cons_eq_ok.mpr ⟨none, _, rfl, ih, rfl⟩

/-- A successful MACD run over at least `slow` closes. -/
theorem macdSeries_eq_ok {fast slow signal : ℕ} (hfast : fast < slow) {closes : List F}
    (hlen : slow ≤ closes.length) {out : List (Option (Values F))} :
    macdSeries fast slow signal closes = .ok out ↔
      ∃ fastValues slowValues, ema closes fast = .ok fastValues ∧
        ema closes slow = .ok slowValues ∧
        ((macdDiffs slow fastValues slowValues).length < signal ∧
            out = closes.map (fun _ => none) ∨
          signal ≤ (macdDiffs slow fastValues slowValues).length ∧
            ∃ signalValues output, ema (macdDiffs slow fastValues slowValues) signal =
              .ok signalValues ∧
            (((macdDiffs slow fastValues slowValues).zip signalValues).mapM fun p =>
              macdValues p.1 p.2) = .ok output ∧
            out = List.replicate (slow - 1) none ++ output) := by
  rw [macdSeries, if_neg (by omega), if_neg (by omega), Except.bind_eq_ok]
  refine exists_congr fun fastValues => ?_
  rw [Except.bind_eq_ok, ← exists_and_left]
  refine exists_congr fun slowValues => and_congr_right fun _ => and_congr_right fun _ => ?_
  by_cases hd : (macdDiffs slow fastValues slowValues).length < signal
  · rw [if_pos hd]
    simp only [hd, true_and, not_le.mpr hd, false_and, or_false]
    exact ⟨fun h => (Except.ok.inj h).symm, fun h => congrArg _ h.symm⟩
  · rw [if_neg hd, Except.bind_eq_ok]
    simp only [hd, false_and, not_lt.mp hd, true_and, false_or]
    refine exists_congr fun signalValues => ?_
    rw [Except.bind_eq_ok, ← exists_and_left]
    refine exists_congr fun output => and_congr_right fun _ => and_congr_right fun _ => ?_
    exact ⟨fun h => (Except.ok.inj h).symm, fun h => congrArg _ h.symm⟩

/-- An MACD run over fewer than `slow + signal - 1` closes has no output. -/
theorem macdSeries_short {fast slow signal : ℕ} (hfast : fast < slow) (hfast0 : 0 < fast)
    {closes more : List F} (hlen : closes.length < slow + signal - 1)
    {out : List (Option (Values F))} (h : macdSeries fast slow signal (closes ++ more) = .ok out) :
    macdSeries fast slow signal closes = .ok (closes.map fun _ => none) := by
  by_cases hs : closes.length < slow
  · rw [macdSeries, if_neg (by omega), if_pos hs]
  have hle : slow ≤ closes.length := by omega
  obtain ⟨fv, sv, hf, hs, -⟩ :=
    (macdSeries_eq_ok (by omega) (by simp; omega)).mp h
  refine (macdSeries_eq_ok hfast hle).mpr ⟨_, _, ema_take hfast0 (by omega) hf,
    ema_take (by omega) hle hs, .inl ⟨?_, rfl⟩⟩
  have hdl := macdDiffs_length_of_ema hfast0 hfast (by simp; omega) hf hs
  rw [List.length_append] at hdl
  rw [macdDiffs_take (ema_drop (by omega) hf) (ema_drop (by omega) hs), List.length_take]
  omega

theorem macd_output_take {diffs : List F} {signal m : ℕ} (hm : m < signal)
    (hml : m ≤ diffs.length) {signalValues : List (Option F)} {output : List (Option (Values F))}
    (hsig : ema diffs signal = .ok signalValues)
    (hout : ((diffs.zip signalValues).mapM fun p => macdValues p.1 p.2) = .ok output) :
    output.take m = List.replicate m none := by
  obtain ⟨total, -, rfl⟩ := ema_eq_ok.mp hsig
  have hlen : (diffs.take m).length = m := by simp [hml]
  rw [← List.take_append_drop m (diffs.zip _)] at hout
  have htake := (Causal.mapM fun p : F × Option F => macdValues p.1 p.2).take hout
  rw [List.zip, List.take_zipWith, List.length_zipWith, List.take_append_of_le_length (by simp; omega), List.take_replicate,
    min_eq_left (by omega), hlen, List.length_replicate, min_self] at htake
  have hnone := mapM_macdValues_none (diffs.take m)
  rw [hlen, List.zip, htake, List.map_const', hlen] at hnone
  exact Except.ok.inj hnone

theorem macdSeries_length {fast slow signal : ℕ} (hfast0 : 0 < fast) (hsignal : 0 < signal)
    {closes : List F} {out : List (Option (Values F))}
    (h : macdSeries fast slow signal closes = .ok out) : out.length = closes.length := by
  by_cases hfast : slow ≤ fast
  · rw [macdSeries, if_pos hfast] at h; cases h
  by_cases hlen : closes.length < slow
  · rw [macdSeries, if_neg hfast, if_pos hlen] at h; cases h; simp
  obtain ⟨fv, sv, hf, hs, ⟨-, rfl⟩ | ⟨hd, signalValues, output, hsig, hout, rfl⟩⟩ :=
    (macdSeries_eq_ok (by omega) (by omega)).mp h
  · simp
  have hdl := macdDiffs_length_of_ema hfast0 (by omega) (by omega) hf hs
  have hgl := ema_length hsignal hd hsig
  have hol := (Causal.mapM _).length hout
  rw [List.length_append, List.length_replicate, hol, List.length_zip, hgl, hdl]
  omega

theorem macdSeries_causal {fast slow signal : ℕ} (hfast0 : 0 < fast) (hsignal : 0 < signal) :
    Causal (macdSeries (F := F) fast slow signal) where
  length h := macdSeries_length hfast0 hsignal h
  take {xs zs ys} h := by
    by_cases hfast : slow ≤ fast
    · rw [macdSeries, if_pos hfast] at h; cases h
    by_cases hall : (xs ++ zs).length < slow
    · rw [macdSeries, if_neg hfast, if_pos hall] at h
      cases h
      rw [List.length_append] at hall
      rw [macdSeries, if_neg hfast, if_pos (by omega)]
      simp
    obtain ⟨fv, sv, hf, hs, hcase⟩ := (macdSeries_eq_ok (by omega) (by omega)).mp h
    have hdl := macdDiffs_length_of_ema hfast0 (by omega) (by omega) hf hs
    rw [List.length_append] at hall hdl
    by_cases hshort : xs.length < slow + signal - 1
    · rw [macdSeries_short (by omega) hfast0 hshort h]
      -- the longer run has no output either before its signal line is seeded
      obtain ⟨-, rfl⟩ | ⟨hd, signalValues, output, hsig, hout, rfl⟩ := hcase
      · simp
      have hnone := macd_output_take (m := xs.length - (slow - 1)) (by omega) (by omega) hsig hout
      rw [List.take_append, List.length_replicate, hnone, List.take_replicate,
        List.replicate_append_replicate, List.map_const']
      congr 2
      omega
    · obtain ⟨hd, -⟩ | ⟨hd, signalValues, output, hsig, hout, rfl⟩ := hcase
      · omega
      have hdiffs : macdDiffs slow (fv.take xs.length) (sv.take xs.length) =
          (macdDiffs slow fv sv).take (xs.length - (slow - 1)) :=
        macdDiffs_take (ema_drop (by omega) hf) (ema_drop (by omega) hs)
      refine (macdSeries_eq_ok (by omega) (by omega)).mpr ⟨_, _, ema_take hfast0 (by omega) hf,
        ema_take (by omega) (by omega) hs, .inr ?_⟩
      have hm : ((macdDiffs slow fv sv).take (xs.length - (slow - 1))).length =
          xs.length - (slow - 1) := by rw [List.length_take]; omega
      rw [← List.take_append_drop (xs.length - (slow - 1)) (macdDiffs slow fv sv)] at hsig
      have hsig' := ema_take hsignal (by omega) hsig
      rw [hm] at hsig'
      rw [← List.take_append_drop (xs.length - (slow - 1)) (List.zip _ _)] at hout
      have hout' := (Causal.mapM _).take hout
      have hlen : ((macdDiffs slow fv sv).zip signalValues).length =
          (macdDiffs slow fv sv).length := by
        rw [List.take_append_drop] at hsig
        rw [List.length_zip, ema_length hsignal hd hsig, min_self]
      rw [List.length_take, hlen, min_eq_left (by omega), List.zip, List.take_zipWith] at hout'
      rw [hdiffs]
      refine ⟨by omega, _, _, hsig', hout', ?_⟩
      rw [List.take_append, List.length_replicate, List.take_of_length_le (by simp; omega)]

theorem calculateSeries_causal (request : IndicatorRequest F) :
    Causal (calculateSeries request) := by
  cases request with
  | ma periods => exact ((maValues_causal _).map _).contramap _
  | projectedMa period => exact (scanPast_causal ..).contramap _
  | rsi period => exact (scanPast_causal ..).contramap _
  | kdj period kPeriod dPeriod => exact kdjSeries_causal ..
  | boll period multiplier =>
    unfold calculateSeries
    by_cases h : (Arith.isFinite multiplier && Arith.lt (Arith.ofNat 0) multiplier) = true
    · simp only [if_pos h]
      exact (scanPast_causal ..).contramap _
    · simp only [if_neg h]
      exact .error _
  | macd fast slow signal => exact (macdSeries_causal fast.2.1 signal.2.1).contramap _

theorem seriesForRequest_length {request : IndicatorRequest F} {candles : List (Candle F)}
    {out : List (Option (Values F))} (h : seriesForRequest request candles = .ok out) :
    out.length = candles.length := by
  unfold seriesForRequest at h
  split at h
  · exact (calculateSeries_causal _).length h
  · cases h
    exact List.length_map _
  · exact (calculateSeries_causal _).length h

end Formulas

end Apanel
