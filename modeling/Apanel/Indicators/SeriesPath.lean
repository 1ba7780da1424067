import Apanel.Indicators.Exact
import Apanel.Indicators.Plain
import Apanel.Library.MonotoneDeque

/-!
# The series path equals the plain path

In exact arithmetic, every element of `calculate_series` is the result of `calculate` on the candles
up to it (`BuiltIn.seriesIsPlain`).
-/

namespace Apanel

/-- A plain calculation that only lacks data: `value`, once there are `required` inputs. -/
def plainResult {α β : Type} (indicator : IndicatorType) (required : ℕ) (value : List α → β)
    (xs : List α) : Except CalculateError β :=
  if xs.length < required then .error (.insufficientData indicator required xs.length)
  else .ok (value xs)

/-- The element of the series for the same calculation. -/
def seriesResult {α β : Type} (required : ℕ) (value : List α → β) (xs : List α) : Option β :=
  if xs.length < required then none else some (value xs)

theorem BuiltIn.seriesIsPlain_of {F : Type} [Arith F] {indicator : BuiltIn F}
    {candles : List (Candle F)} {name : IndicatorType} {required : ℕ}
    {value : List (Candle F) → Values F}
    (hplain : ∀ i, indicator.calculate (candles.take i) =
      plainResult name required value (candles.take i))
    (hseries : indicator.calculateSeries candles =
      .ok (onPrefixes (seriesResult required value) candles)) : indicator.SeriesIsPlain candles := by
  refine ⟨_, hseries, onPrefixes_length .., fun i h => ?_⟩
  rw [onPrefixes_getElem, hplain, plainResult, seriesResult]
  split
  · exact ⟨fun values => by simp, by simp⟩
  · exact ⟨fun values => by simp, by simp⟩

variable {sqrt : ℚ → ℚ}

theorem liftM_ok {α : Type} (a : α) :
    (liftM (Except.ok a : Except CalculationError α) : Except CalculateError α) = .ok a := rfl

@[simp] theorem resultValues_exact (values : Values (Exact sqrt)) :
    resultValues values = .ok values := by
  simp [resultValues]

/-! ## Windows -/

theorem sum_rtake_concat {n : ℕ} (hn : 0 < n) (xs : List (Exact sqrt)) (x : Exact sqrt) :
    ((xs ++ [x]).rtake n).sum = (xs.rtake n).sum + x - (xs.reverse[n - 1]?).getD 0 := by
  obtain ⟨m, rfl⟩ : ∃ m, n = m + 1 := ⟨n - 1, by omega⟩
  rw [List.rtake_concat_succ, List.sum_append, List.sum_singleton, List.rtake_eq_reverse_take_reverse,
    List.rtake_eq_reverse_take_reverse, List.take_add_one, List.reverse_append, List.sum_append,
    Nat.add_sub_cancel]
  cases xs.reverse[m]? with
  | none => simp
  | some y => simp; ring

/-! ## Moving averages -/

def smaValue (period : ℕ) (closes : List (Exact sqrt)) : Exact sqrt :=
  (closes.rtake period).sum / (period : Exact sqrt)

theorem calculateSma_eq (period : ℕ) (closes : List (Exact sqrt)) :
    calculateSma period closes =
      plainResult .ma period (fun closes => [(.value, smaValue period closes)]) closes := by
  unfold calculateSma requireLength plainResult
  split <;> rfl

/-- The running sum is the sum of the window. -/
theorem smaStep_eq {period : ℕ} (h0 : 0 < period) (past : List (Exact sqrt)) (close : Exact sqrt) :
    smaStep period (past.rtake period).sum past.reverse close =
      .ok (((past ++ [close]).rtake period).sum,
        seriesResult period (smaValue period) (past ++ [close])) := by
  simp only [seriesResult, smaValue, sum_rtake_concat h0, smaStep]
  by_cases hwarm : past.length + 1 < period
  · have hlen : ¬ period ≤ past.length + 1 := not_le.mpr hwarm
    cases past.reverse[period - 1]? <;> simp [hlen, hwarm]
  · have hlen : period ≤ past.length + 1 := not_lt.mp hwarm
    cases past.reverse[period - 1]? <;> simp [hlen]

theorem smaSeries_eq {period : ℕ} (h0 : 0 < period) (closes : List (Exact sqrt)) :
    scanPast (smaStep period) (Arith.ofNat 0) [] closes =
      .ok (onPrefixes (seriesResult period (smaValue period)) closes) := by
  refine scanPast_eq_onPrefixes (Q := fun _ => True) (fun running past => running = (past.rtake period).sum)
    ?_ (by simp) (by simp)
  rintro _ past close - rfl
  exact ⟨_, smaStep_eq h0 past close, rfl⟩

def projectedMaResult (period : ℕ) (closes : List (Exact sqrt)) : Values (Exact sqrt) :=
  let projectedClose := closes.getLastD 0
  [(.value, ((closes.rtake (period - 1)).sum + projectedClose) / (period : Exact sqrt)),
    (.projectedClose, projectedClose)]

theorem calculateProjectedMa_eq {period : ℕ} (h0 : 0 < period) (closes : List (Exact sqrt)) :
    calculateProjectedMa period closes =
      plainResult .projectedMa period (projectedMaResult period) closes := by
  unfold calculateProjectedMa requireLength plainResult
  split
  · rfl
  next hlen =>
  obtain ⟨closes, close, rfl⟩ : ∃ front close, closes = front ++ [close] :=
    ⟨_, _, (List.dropLast_append_getLast (List.ne_nil_of_length_pos (by omega))).symm⟩
  by_cases hone : period = 1
  · subst hone
    simp [projectedMaResult]
    rfl
  · simp [projectedMaResult, hone]
    rfl

theorem projectedMaSeries_eq {period : ℕ} (h0 : 0 < period) (closes : List (Exact sqrt)) :
    scanPast (projectedMaStep period) () [] closes =
      .ok (onPrefixes (seriesResult period (projectedMaResult period)) closes) := by
  refine scanPast_eq_onPrefixes (Q := fun _ => True) (fun _ _ => True) ?_ trivial (by simp)
  intro _ past close _ _
  refine ⟨(), ?_, trivial⟩
  have hwindow : ((close :: past.reverse).take (period - 1)).reverse =
      (past ++ [close]).rtake (period - 1) := by
    rw [List.rtake_eq_reverse_take_reverse, List.reverse_append, List.reverse_singleton,
      List.singleton_append]
  simp only [projectedMaStep, projectedMaValue, seriesResult, projectedMaResult, hwindow]
  by_cases hwarm : past.length + 1 < period
  · simp [not_le.mpr hwarm, hwarm]
  · by_cases hone : period = 1
    · subst hone
      simp
      rfl
    · simp [not_lt.mp hwarm, hwarm, hone, Except.ok_bind]

/-! ## RSI -/

/-- The averages of the smoothing loop over `changes`. -/
def rsiAveragesOf (period : ℕ) (changes : List (Exact sqrt)) : Exact sqrt × Exact sqrt :=
  let initialChanges := changes.take period
  (changes.drop period).foldl (rsiSmooth period)
    ((initialChanges.map (max · 0)).sum / (period : Exact sqrt),
      (initialChanges.map fun change => max (-change) 0).sum / (period : Exact sqrt))

def rsiValue (averages : Exact sqrt × Exact sqrt) : Exact sqrt :=
  if averages.2 = 0 then if averages.1 = 0 then 50 else 100
  else if averages.1 = 0 then 0
  else 100 - 100 / (1 + averages.1 / averages.2)

def rsiResult (period : ℕ) (closes : List (Exact sqrt)) : Values (Exact sqrt) :=
  let averages := rsiAveragesOf period (changesOf closes.reverse)
  [(.value, rsiValue averages), (.averageGain, averages.1), (.averageLoss, averages.2)]

theorem rsiValues_exact (averages : Exact sqrt × Exact sqrt) :
    rsiValues averages.1 averages.2 = .ok [(.value, rsiValue averages),
      (.averageGain, averages.1), (.averageLoss, averages.2)] := by
  simp [rsiValues, rsiValue]

theorem calculateRsi_eq (period : ℕ) (closes : List (Exact sqrt)) :
    calculateRsi period closes =
      plainResult .rsi (period + 1) (rsiResult period) closes := by
  unfold calculateRsi requireLength plainResult
  split
  · rfl
  · simp [rsiValues_exact, rsiResult, rsiAveragesOf, changesOf]
    rfl

theorem changesOf_concat {past : List (Exact sqrt)} (close : Exact sqrt) (h : past ≠ []) :
    changesOf (past ++ [close]).reverse =
      changesOf past.reverse ++ [close - past.reverse.headD close] := by
  obtain ⟨first, rest, rfl⟩ := List.exists_cons_of_ne_nil h
  rw [List.headD_eq_head?_getD, List.head?_reverse]
  simp only [changesOf, List.reverse_reverse, List.cons_append, List.tail_cons]
  induction rest generalizing first with
  | nil => rfl
  | cons second rest ih => simpa using ih second (by simp)

theorem changesOf_length (closes : List (Exact sqrt)) :
    (changesOf closes).length = closes.length - 1 := by
  simp [changesOf]

/-- The variables `avg_gain` and `avg_loss` after the closes. -/
def rsiState (period : ℕ) (closes : List (Exact sqrt)) : Option (Exact sqrt × Exact sqrt) :=
  if closes.length ≤ period then none
  else some (rsiAveragesOf period (changesOf closes.reverse))

theorem rsiState_concat {period : ℕ} {past : List (Exact sqrt)} (close : Exact sqrt)
    (h : period ≤ past.length) : rsiState period (past ++ [close]) =
      some (rsiAveragesOf period (changesOf (past ++ [close]).reverse)) :=
  if_neg (by rw [List.length_append, List.length_singleton]; omega)

theorem rsiAveragesOf_concat {period : ℕ} {changes : List (Exact sqrt)} (change : Exact sqrt)
    (h : period ≤ changes.length) : rsiAveragesOf period (changes ++ [change]) =
      rsiSmooth period (rsiAveragesOf period changes) change := by
  rw [rsiAveragesOf, List.take_append_of_le_length h, List.drop_append_of_le_length h,
    List.foldl_append]
  rfl

theorem rsiAverages_eq (period : ℕ) (past : List (Exact sqrt)) (close : Exact sqrt) :
    rsiAverages period (rsiState period past) past.reverse close =
      .ok (rsiState period (past ++ [close])) := by
  have hlen := changesOf_length past.reverse
  rw [List.length_reverse] at hlen
  obtain hshort | hseed | hsmooth := lt_trichotomy past.length period
  · simp [rsiState, rsiAverages, hshort.le, hshort.ne, Nat.succ_le_of_lt hshort]
  · -- the seed takes all the changes
    have hall : (changesOf (past ++ [close]).reverse).length ≤ period := by
      rw [changesOf_length, List.length_reverse, List.length_append, List.length_singleton]
      omega
    have hreverse : close :: past.reverse = (past ++ [close]).reverse := by simp
    have hnone : rsiState period past = none := if_pos hseed.le
    rw [hnone, rsiState_concat close hseed.ge, rsiAverages, hreverse, rsiAveragesOf,
      List.take_of_length_le hall, List.drop_of_length_le hall]
    simp only [List.length_reverse, hseed, if_true, Exact.fsum_eq, Exact.max_eq, Exact.ofNat_eq,
      Nat.cast_zero, Except.ok_bind]
    rfl
  · -- the new change is smoothed in
    have hne : past ≠ [] := List.ne_nil_of_length_pos (by omega)
    have hsome : rsiState period past = some (rsiAveragesOf period (changesOf past.reverse)) :=
      if_neg (by omega)
    rw [hsome, rsiState_concat close hsmooth.le, changesOf_concat close hne,
      rsiAveragesOf_concat _ (by omega)]
    rfl

theorem rsiSeries_eq (period : ℕ) (closes : List (Exact sqrt)) :
    scanPast (rsiStep period) none [] closes =
      .ok (onPrefixes (seriesResult (period + 1) (rsiResult period)) closes) := by
  refine scanPast_eq_onPrefixes (Q := fun _ => True)
    (fun averages past => averages = rsiState period past) ?_ (by simp [rsiState]) (by simp)
  rintro _ past close - rfl
  refine ⟨_, ?_, rfl⟩
  rw [rsiStep, rsiAverages_eq, Except.ok_bind, seriesResult]
  by_cases hwarm : period ≤ past.length
  · have hlen : ¬ (past ++ [close]).length < period + 1 := by simpa using hwarm
    rw [rsiState_concat close hwarm, if_neg hlen]
    dsimp only
    rw [rsiValues_exact]
    rfl
  · have hlen : (past ++ [close]).length < period + 1 := by simpa using hwarm
    have hnone : rsiState period (past ++ [close]) = none := if_pos (Nat.lt_succ_iff.mp hlen)
    rw [hnone, if_pos hlen]
    rfl

/-! ## BOLL -/

def bollValues (multiplier middle variance : Exact sqrt) : Values (Exact sqrt) :=
  let standardDeviation : Exact sqrt := Arith.sqrt (max variance 0)
  let upper := middle + multiplier * standardDeviation
  let lower := middle - multiplier * standardDeviation
  let width := if middle = 0 then 0 else (upper - lower) / middle
  [(.upper, upper), (.middle, middle), (.lower, lower), (.width, width)]

def bollResult (period : ℕ) (multiplier : Exact sqrt) (closes : List (Exact sqrt)) :
    Values (Exact sqrt) :=
  let window := closes.rtake period
  let middle := window.sum / (period : Exact sqrt)
  bollValues multiplier middle
    ((window.map fun close => (close - middle) * (close - middle)).sum / (period : Exact sqrt))

theorem normalizedBandWidth_exact (upper lower middle : Exact sqrt) :
    normalizedBandWidth upper lower middle =
      .ok (if middle = 0 then 0 else (upper - lower) / middle) := by
  by_cases h : middle = 0 <;> simp [normalizedBandWidth, h]

theorem calculateBollinger_eq (period : ℕ) (multiplier : Exact sqrt) (closes : List (Exact sqrt)) :
    calculateBollinger period multiplier closes =
      plainResult .boll period (bollResult period multiplier) closes := by
  unfold calculateBollinger requireLength plainResult
  split
  · rfl
  · simp only [Exact.fsum_eq, Exact.ofNat_eq, Exact.max_eq, normalizedBandWidth_exact,
      resultValues_exact, Nat.cast_zero]
    rfl

theorem sum_sq_sub (window : List (Exact sqrt)) (center : Exact sqrt) :
    (window.map fun close => (close - center) * (close - center)).sum =
      (window.map fun close => close * close).sum - 2 * center * window.sum +
        window.length * (center * center) := by
  induction window with
  | nil => simp
  | cons close window ih =>
    simp only [List.map_cons, List.sum_cons, List.length_cons, Nat.cast_succ, ih]
    ring

/-- The mean squared deviation is the mean square less the squared mean. -/
theorem variance_eq {window : List (Exact sqrt)} {period : ℕ} (h0 : 0 < period)
    (hlen : window.length = period) :
    let middle := window.sum / (period : Exact sqrt)
    (window.map fun close => (close - middle) * (close - middle)).sum / (period : Exact sqrt) =
      (window.map fun close => close * close).sum / (period : Exact sqrt) - middle * middle := by
  have hne : (period : Exact sqrt) ≠ 0 := Nat.cast_ne_zero.mpr h0.ne'
  dsimp only
  rw [sum_sq_sub, hlen]
  field_simp
  ring

/-- The variables `running` and `squares` after the closes. -/
def bollSums (period : ℕ) (closes : List (Exact sqrt)) : Exact sqrt × Exact sqrt :=
  ((closes.rtake period).sum, ((closes.map fun close => close * close).rtake period).sum)

theorem rtake_map {α β : Type} (f : α → β) (xs : List α) (n : ℕ) :
    (xs.map f).rtake n = (xs.rtake n).map f := by
  rw [List.rtake, List.rtake, List.length_map, List.map_drop]

theorem rtake_length {α : Type} {xs : List α} {n : ℕ} (h : n ≤ xs.length) :
    (xs.rtake n).length = n := by
  rw [List.rtake, List.length_drop]
  omega

/-- Above the warm-up, the result is computed from the sums. -/
theorem bollResult_eq {period : ℕ} (h0 : 0 < period) (multiplier : Exact sqrt)
    {closes : List (Exact sqrt)} (h : period ≤ closes.length) :
    let middle := (bollSums period closes).1 / (period : Exact sqrt)
    bollResult period multiplier closes = bollValues multiplier middle
      ((bollSums period closes).2 / (period : Exact sqrt) - middle * middle) := by
  dsimp only [bollResult, bollSums]
  rw [rtake_map, variance_eq h0 (rtake_length h)]

theorem bollSums_concat {period : ℕ} (h0 : 0 < period) (past : List (Exact sqrt))
    (close : Exact sqrt) :
    bollSums period (past ++ [close]) =
      ((bollSums period past).1 + close - (past.reverse[period - 1]?).getD 0,
        (bollSums period past).2 + close * close -
          ((past.reverse[period - 1]?).map fun old => old * old).getD 0) := by
  have hold : (past.map fun close => close * close).reverse[period - 1]? =
      (past.reverse[period - 1]?).map fun old => old * old := by
    rw [← List.map_reverse, List.getElem?_map]
  rw [bollSums, bollSums, List.map_append, List.map_singleton, sum_rtake_concat h0,
    sum_rtake_concat h0, hold]

theorem bollStep_eq {period : ℕ} (h0 : 0 < period) (multiplier : Exact sqrt)
    (past : List (Exact sqrt)) (close : Exact sqrt) :
    bollStep period multiplier (bollSums period past) past.reverse close =
      .ok (bollSums period (past ++ [close]),
        seriesResult period (bollResult period multiplier) (past ++ [close])) := by
  by_cases hwarm : past.length + 1 < period
  · have hlen : ¬ period ≤ past.length + 1 := not_le.mpr hwarm
    rw [bollSums_concat h0, bollStep]
    cases past.reverse[period - 1]? <;> simp [seriesResult, hlen, hwarm]
  · have hlen : period ≤ past.length + 1 := not_lt.mp hwarm
    have hclosed : period ≤ (past ++ [close]).length := by simpa using hlen
    rw [seriesResult, if_neg hclosed.not_gt, bollResult_eq h0 multiplier hclosed, bollSums_concat h0,
      bollStep]
    cases past.reverse[period - 1]? <;>
      simp [bollValues, hlen, normalizedBandWidth_exact, Except.ok_bind]

theorem bollSeries_eq {period : ℕ} (h0 : 0 < period) (multiplier : Exact sqrt)
    (closes : List (Exact sqrt)) :
    scanPast (bollStep period multiplier) (Arith.ofNat 0, Arith.ofNat 0) [] closes =
      .ok (onPrefixes (seriesResult period (bollResult period multiplier)) closes) := by
  refine scanPast_eq_onPrefixes (Q := fun _ => True)
    (fun sums past => sums = bollSums period past) ?_ (by simp [bollSums]) (by simp)
  rintro _ past close - rfl
  exact ⟨_, bollStep_eq h0 multiplier past close, rfl⟩

/-! ## MACD -/

/-- What `_ema` returns. -/
def emaValues (values : List (Exact sqrt)) (period : ℕ) : List (Option (Exact sqrt)) :=
  List.replicate (period - 1) none ++
    (emaFrom (2 / ((period : Exact sqrt) + 1)) ((values.take period).sum / (period : Exact sqrt))
      (values.drop period)).map some

theorem ema_exact (values : List (Exact sqrt)) (period : ℕ) :
    ema values period = .ok (emaValues values period) := by
  simp [ema, emaValues]

def macdDiffsOf (fast slow : ℕ) (closes : List (Exact sqrt)) : List (Exact sqrt) :=
  macdDiffs slow (emaValues closes fast) (emaValues closes slow)

def macdResult (fast slow signal : ℕ) (closes : List (Exact sqrt)) : Values (Exact sqrt) :=
  let diffs := macdDiffsOf fast slow closes
  match diffs.getLast?, (emaValues diffs signal).getLast? with
  | some diff, some (some dea) => [(.diff, diff), (.dea, dea), (.histogram, diff - dea)]
  | _, _ => []

theorem macdDiffsOf_length {fast slow : ℕ} (hfast0 : 0 < fast) (hfast : fast < slow)
    {closes : List (Exact sqrt)} (hlen : slow ≤ closes.length) :
    (macdDiffsOf fast slow closes).length = closes.length - (slow - 1) :=
  macdDiffs_length_of_ema hfast0 hfast hlen (ema_exact ..) (ema_exact ..)

/-- The last values of the two lines, once the signal line is seeded. -/
theorem exists_macd_last {fast slow signal : ℕ} (hfast0 : 0 < fast) (hfast : fast < slow)
    (hsignal : 0 < signal) {closes : List (Exact sqrt)}
    (hlen : slow + signal - 1 ≤ closes.length) :
    ∃ diffs diff signals dea, macdDiffsOf fast slow closes = diffs ++ [diff] ∧
      emaValues (macdDiffsOf fast slow closes) signal = signals ++ [some dea] ∧
      diffs.length = signals.length := by
  have hdl := macdDiffsOf_length hfast0 hfast (show slow ≤ closes.length by omega)
  obtain ⟨diffs, diff, hdiffs⟩ : ∃ diffs diff, macdDiffsOf fast slow closes = diffs ++ [diff] :=
    ⟨_, _, (List.dropLast_append_getLast (List.ne_nil_of_length_pos (by omega))).symm⟩
  have hline := emaFrom_length (2 / ((signal : Exact sqrt) + 1))
    (((macdDiffsOf fast slow closes).take signal).sum / (signal : Exact sqrt))
    ((macdDiffsOf fast slow closes).drop signal)
  obtain ⟨line, dea, hdea⟩ : ∃ line dea, emaFrom (2 / ((signal : Exact sqrt) + 1))
      (((macdDiffsOf fast slow closes).take signal).sum / (signal : Exact sqrt))
      ((macdDiffsOf fast slow closes).drop signal) = line ++ [dea] :=
    ⟨_, _, (List.dropLast_append_getLast (List.ne_nil_of_length_pos (by omega))).symm⟩
  have hsignals : emaValues (macdDiffsOf fast slow closes) signal =
      List.replicate (signal - 1) none ++ line.map some ++ [some dea] := by
    rw [emaValues, hdea, List.map_append, List.append_assoc, List.map_singleton]
  have hel : (emaValues (macdDiffsOf fast slow closes) signal).length =
      (macdDiffsOf fast slow closes).length := ema_length hsignal (by omega) (ema_exact ..)
  refine ⟨diffs, diff, _, dea, hdiffs, hsignals, ?_⟩
  rw [hsignals, hdiffs] at hel
  simp only [List.length_append, List.length_singleton] at hel ⊢
  omega

theorem macdResult_eq {fast slow signal : ℕ} {closes diffs : List (Exact sqrt)}
    {diff dea : Exact sqrt} {signals : List (Option (Exact sqrt))}
    (hdiffs : macdDiffsOf fast slow closes = diffs ++ [diff])
    (hsignals : emaValues (macdDiffsOf fast slow closes) signal = signals ++ [some dea]) :
    macdResult fast slow signal closes =
      [(.diff, diff), (.dea, dea), (.histogram, diff - dea)] := by
  rw [macdResult, hsignals, hdiffs, List.getLast?_concat, List.getLast?_concat]

theorem calculateMacd_eq {fast slow signal : ℕ} (hfast0 : 0 < fast) (hfast : fast < slow)
    (hsignal : 0 < signal) (closes : List (Exact sqrt)) :
    calculateMacd fast slow signal closes =
      plainResult .macd (slow + signal - 1) (macdResult fast slow signal) closes := by
  unfold calculateMacd requireLength plainResult
  rw [if_neg (not_le.mpr hfast)]
  by_cases hlen : closes.length < slow + signal - 1
  · rw [if_pos hlen, if_pos hlen]
    rfl
  · obtain ⟨diffs, diff, signals, dea, hdiffs, hsignals, -⟩ :=
      exists_macd_last hfast0 hfast hsignal (not_lt.mp hlen)
    rw [if_neg hlen, if_neg hlen, macdResult_eq hdiffs hsignals]
    simp only [ema_exact, liftM_ok, Except.ok_bind]
    rw [← macdDiffsOf, hsignals, hdiffs, List.getLast?_concat, List.getLast?_concat]
    rfl

theorem macdSeries_total {fast slow signal : ℕ} (hfast : fast < slow)
    (closes : List (Exact sqrt)) : ∃ out, macdSeries fast slow signal closes = .ok out := by
  by_cases hlen : closes.length < slow
  · exact ⟨_, by rw [macdSeries, if_neg (not_le.mpr hfast), if_pos hlen]⟩
  by_cases hd : (macdDiffsOf fast slow closes).length < signal
  · exact ⟨_, (macdSeries_eq_ok hfast (not_lt.mp hlen)).mpr
      ⟨_, _, ema_exact .., ema_exact .., .inl ⟨hd, rfl⟩⟩⟩
  · obtain ⟨output, houtput⟩ := mapM_total
      (f := fun p : Exact sqrt × Option (Exact sqrt) => macdValues p.1 p.2)
      (fun p => by
        obtain ⟨diff, dea⟩ := p
        cases dea <;> exact ⟨_, rfl⟩)
      ((macdDiffsOf fast slow closes).zip (emaValues (macdDiffsOf fast slow closes) signal))
    exact ⟨_, (macdSeries_eq_ok hfast (not_lt.mp hlen)).mpr ⟨_, _, ema_exact .., ema_exact ..,
      .inr ⟨not_lt.mp hd, _, output, ema_exact .., houtput, rfl⟩⟩⟩

theorem macdSeries_eq {fast slow signal : ℕ} (hfast0 : 0 < fast) (hfast : fast < slow)
    (hsignal : 0 < signal) (closes : List (Exact sqrt)) :
    macdSeries fast slow signal closes =
      .ok (onPrefixes (seriesResult (slow + signal - 1) (macdResult fast slow signal)) closes) := by
  obtain ⟨out, hout⟩ := macdSeries_total hfast closes
  rw [hout, (macdSeries_causal hfast0 hsignal).eq_onPrefixes ?_ hout]
  intro closes out h y hy
  by_cases hlen : closes.length < slow + signal - 1
  · rw [← List.append_nil closes] at h
    have hshort := macdSeries_short hfast hfast0 hlen h
    rw [← List.append_nil closes, h] at hshort
    cases hshort
    rw [seriesResult, if_pos hlen]
    obtain ⟨_, -, rfl⟩ := List.mem_map.mp (List.mem_of_getLast? hy)
    rfl
  · obtain ⟨diffs, diff, signals, dea, hdiffs, hsignals, hdl⟩ :=
      exists_macd_last hfast0 hfast hsignal (not_lt.mp hlen)
    rw [seriesResult, if_neg hlen, macdResult_eq hdiffs hsignals]
    obtain ⟨fv, sv, hf, hs, hcase⟩ := (macdSeries_eq_ok hfast (by omega)).mp h
    rw [ema_exact] at hf hs
    cases hf
    cases hs
    obtain ⟨hd, -⟩ | ⟨-, signalValues, output, hsig, houtput, rfl⟩ := hcase
    · have hlength := macdDiffsOf_length hfast0 hfast (show slow ≤ closes.length by omega)
      rw [macdDiffsOf] at hlength
      omega
    · rw [ema_exact] at hsig
      cases hsig
      rw [← macdDiffsOf, hsignals, hdiffs, List.zip_append hdl] at houtput
      have hne : output ≠ [] := by
        refine List.ne_nil_of_length_pos ?_
        rw [(Causal.mapM _).length houtput, List.length_append]
        exact Nat.lt_add_left _ Nat.one_pos
      rw [List.getLast?_append_of_ne_nil _ hne] at hy
      obtain ⟨p, hp, hpy⟩ := forall₂_getLast? (forall₂_mapM houtput) y hy
      obtain rfl : (diff, some dea) = p := by simpa using hp
      cases hpy
      rfl

/-! ## KDJ -/

def highsOf (candles : List (Candle (Exact sqrt))) : List (Exact sqrt) :=
  candles.map (·.high.getD 0)

def lowsOf (candles : List (Candle (Exact sqrt))) : List (Exact sqrt) :=
  candles.map (·.low.getD 0)

theorem filterMap_eq_map_getD {α β : Type} {f : α → Option β} (default : β) {xs : List α}
    (h : ∀ x ∈ xs, (f x).isSome) : xs.filterMap f = xs.map fun x => (f x).getD default := by
  induction xs with
  | nil => rfl
  | cons x xs ih =>
    obtain ⟨hx, hxs⟩ := List.forall_mem_cons.mp h
    obtain ⟨y, hy⟩ := Option.isSome_iff_exists.mp hx
    rw [List.filterMap_cons_some hy, List.map_cons, ih hxs, hy, Option.getD_some]

theorem maxOf_exact {prices : List (Exact sqrt)} {price : Exact sqrt}
    (h : prices.max? = some price) : maxOf prices = .ok price := by
  cases prices with
  | nil => cases h
  | cons first rest =>
    have hmax : (Arith.max : Exact sqrt → Exact sqrt → Exact sqrt) = max := funext₂ Exact.max_eq
    rw [maxOf, hmax]
    exact congrArg _ (Option.some.inj h)

theorem minOf_exact {prices : List (Exact sqrt)} {price : Exact sqrt}
    (h : prices.min? = some price) : minOf prices = .ok price := by
  cases prices with
  | nil => cases h
  | cons first rest =>
    have hmin : (fun a b : Exact sqrt => if Arith.lt b a then b else a) = min :=
      funext₂ fun a b => by rw [min_comm, min_def_lt, Exact.lt_eq]; simp
    rw [minOf, hmin]
    exact congrArg _ (Option.some.inj h)

/-- The deques hold the maxima and the minima of the window. -/
theorem pushDeque_highs (selected : ℕ) (prices : List (Exact sqrt)) (price : Exact sqrt) :
    pushDeque (fun back => Arith.le back price) selected prices.length price
      (windowMaxima selected prices) = windowMaxima selected (prices ++ [price]) :=
  pushMaxima_windowMaxima prices price

theorem pushDeque_lows (selected : ℕ) (prices : List (Exact sqrt)) (price : Exact sqrt) :
    pushDeque (fun back => Arith.le price back) selected prices.length price
      (windowMinima selected prices) = windowMinima selected (prices ++ [price]) :=
  pushMinima_windowMinima prices price

/-- The loop of `calculate_kdj`. -/
def kdjFold (period kp dp : ℕ) (candles : List (Candle (Exact sqrt))) :
    Except CalculateError (KdjValues (Exact sqrt)) :=
  (List.range' (period - 1) (candles.length - (period - 1))).foldlM (kdjSmooth period kp dp candles)
    { rsv := 50, k := 50, d := 50 }

/-- What one iteration computes from the range of its window. -/
def kdjNext (kp dp : ℕ) (values : KdjValues (Exact sqrt)) (highest lowest close : Exact sqrt) :
    KdjValues (Exact sqrt) :=
  let spread := highest - lowest
  let rsv := if spread = 0 then 50 else ((close - lowest) / spread) * 100
  let k := ((values.k * ((kp - 1 : ℕ) : Exact sqrt)) + rsv) / (kp : Exact sqrt)
  let d := ((values.d * ((dp - 1 : ℕ) : Exact sqrt)) + k) / (dp : Exact sqrt)
  { rsv, k, d }

def kdjValues (values : KdjValues (Exact sqrt)) : Values (Exact sqrt) :=
  [(.rsv, values.rsv), (.k, values.k), (.d, values.d), (.j, 3 * values.k - 2 * values.d)]

def kdjResult (period kp dp : ℕ) (candles : List (Candle (Exact sqrt))) : Values (Exact sqrt) :=
  ((kdjFold period kp dp candles).toOption.map kdjValues).getD []

theorem kdjSmooth_append (period kp dp : ℕ) {candles more : List (Candle (Exact sqrt))}
    (values : KdjValues (Exact sqrt)) {index : ℕ} (h : index < candles.length) :
    kdjSmooth period kp dp (candles ++ more) values index =
      kdjSmooth period kp dp candles values index := by
  rw [kdjSmooth, kdjSmooth, List.take_append_of_le_length h, List.getElem?_append_left h]

theorem kdjFold_of_lt (period kp dp : ℕ) {past : List (Candle (Exact sqrt))}
    (h : past.length < period) : kdjFold period kp dp past = .ok ⟨50, 50, 50⟩ := by
  have hrange : past.length - (period - 1) = 0 := by omega
  rw [kdjFold, hrange]
  rfl

theorem foldlM_congr {ε α β : Type} {f g : β → α → Except ε β} {xs : List α}
    (h : ∀ x ∈ xs, ∀ b, f b x = g b x) (b : β) : xs.foldlM f b = xs.foldlM g b := by
  induction xs generalizing b with
  | nil => rfl
  | cons x xs ih =>
    obtain ⟨hx, hxs⟩ := List.forall_mem_cons.mp h
    rw [List.foldlM_cons, List.foldlM_cons, hx]
    exact congrArg _ (funext fun b => ih hxs b)

/-- The last iteration, on the loop over the candles before it. -/
theorem kdjFold_concat {period : ℕ} (kp dp : ℕ) {past : List (Candle (Exact sqrt))}
    (candle : Candle (Exact sqrt)) (h0 : 0 < period) (h : period ≤ past.length + 1) :
    kdjFold period kp dp (past ++ [candle]) = kdjFold period kp dp past >>= fun values =>
      kdjSmooth period kp dp (past ++ [candle]) values past.length := by
  have hrange : (past ++ [candle]).length - (period - 1) = past.length - (period - 1) + 1 := by
    rw [List.length_append, List.length_singleton]
    omega
  have hindex : period - 1 + (past.length - (period - 1)) = past.length := by omega
  rw [kdjFold, hrange, List.range'_1_concat, List.foldlM_append, hindex]
  congr 1
  · refine foldlM_congr (fun index hmem values => ?_) _
    have hlt := (List.mem_range'_1.mp hmem).2
    exact kdjSmooth_append period kp dp values (by omega)
  · funext values
    rw [List.foldlM_cons]
    simp

/-- The iteration at the last candle takes its range from the fronts of the deques. -/
theorem kdjSmooth_last {period : ℕ} (kp dp : ℕ) {candles : List (Candle (Exact sqrt))}
    {candle : Candle (Exact sqrt)} (h0 : 0 < period)
    (hrange : ∀ candle' ∈ candles ++ [candle], candle'.HasRange)
    (values : KdjValues (Exact sqrt)) :
    ∃ highest lowest,
      (windowMaxima period (highsOf (candles ++ [candle]))).head?.map (·.2) = some highest ∧
      (windowMinima period (lowsOf (candles ++ [candle]))).head?.map (·.2) =
        some lowest ∧
      kdjSmooth period kp dp (candles ++ [candle]) values candles.length =
        .ok (kdjNext kp dp values highest lowest candle.close) := by
  have hwindow : ((candles ++ [candle]).take (candles.length + 1)).drop (candles.length + 1 - period) =
      (candles ++ [candle]).rtake period := by
    rw [List.take_of_length_le (by simp), List.rtake, List.length_append, List.length_singleton]
  have hmem : ∀ candle' ∈ (candles ++ [candle]).rtake period, candle'.HasRange :=
    fun candle' h => hrange candle' (List.mem_of_mem_drop h)
  have hne {α : Type} (f : Candle (Exact sqrt) → α) :
      ((candles ++ [candle]).map f).rtake period ≠ [] := by
    refine List.ne_nil_of_length_pos ?_
    rw [List.rtake, List.length_drop, List.length_map, List.length_append, List.length_singleton]
    omega
  obtain ⟨highest, hhighest⟩ : ∃ highest, ((highsOf (candles ++ [candle])).rtake period).max? =
      some highest := Option.ne_none_iff_exists'.mp (mt List.max?_eq_none_iff.mp (hne _))
  obtain ⟨lowest, hlowest⟩ : ∃ lowest, ((lowsOf (candles ++ [candle])).rtake period).min? =
      some lowest := Option.ne_none_iff_exists'.mp (mt List.min?_eq_none_iff.mp (hne _))
  refine ⟨highest, lowest, ?_, ?_, ?_⟩
  · rw [windowMaxima_head?, hhighest]
  · rw [windowMinima_head?, hlowest]
  · rw [kdjSmooth]
    dsimp only
    rw [hwindow, filterMap_eq_map_getD 0 fun c hc => (hmem c hc).1,
      filterMap_eq_map_getD 0 fun c hc => (hmem c hc).2, ← rtake_map, ← rtake_map, ← highsOf,
      ← lowsOf, maxOf_exact hhighest, minOf_exact hlowest, List.getElem?_concat_length]
    simp [kdjNext, liftM_ok, Except.ok_bind]

/-- The variables of the loop of `calculate_series` after the candles. -/
structure KdjCarried (period kp dp : ℕ) (s : KdjState (Exact sqrt))
    (past : List (Candle (Exact sqrt))) : Prop where
  ranges : ∀ candle ∈ past, candle.HasRange
  highs : s.highs = windowMaxima period (highsOf past)
  lows : s.lows = windowMinima period (lowsOf past)
  values : ∃ rsv, kdjFold period kp dp past = .ok ⟨rsv, s.k, s.d⟩

theorem kdjStep_eq {period kp dp : ℕ} (h0 : 0 < period) {s : KdjState (Exact sqrt)}
    {past : List (Candle (Exact sqrt))} {candle : Candle (Exact sqrt)} (hrange : candle.HasRange)
    (hs : KdjCarried period kp dp s past) :
    ∃ s', kdjStep period kp dp s past.reverse candle =
        .ok (s', seriesResult period (kdjResult period kp dp) (past ++ [candle])) ∧
      KdjCarried period kp dp s' (past ++ [candle]) := by
  obtain ⟨high, hhigh⟩ := Option.isSome_iff_exists.mp hrange.1
  obtain ⟨low, hlow⟩ := Option.isSome_iff_exists.mp hrange.2
  have hranges : ∀ candle' ∈ past ++ [candle], candle'.HasRange := by
    intro candle' hmem
    obtain hmem | hmem := List.mem_append.mp hmem
    · exact hs.ranges candle' hmem
    · exact List.mem_singleton.mp hmem ▸ hrange
  have hhighs : pushDeque (fun back => Arith.le back high) period past.length high s.highs =
      windowMaxima period (highsOf (past ++ [candle])) := by
    have hpush := pushDeque_highs period (highsOf past) high
    rw [highsOf, List.length_map] at hpush
    rw [hs.highs, highsOf, highsOf, hpush, List.map_append, List.map_singleton, hhigh]
    rfl
  have hlows : pushDeque (fun back => Arith.le low back) period past.length low s.lows =
      windowMinima period (lowsOf (past ++ [candle])) := by
    have hpush := pushDeque_lows period (lowsOf past) low
    rw [lowsOf, List.length_map] at hpush
    rw [hs.lows, lowsOf, lowsOf, hpush, List.map_append, List.map_singleton, hlow]
    rfl
  obtain ⟨rsv, hfold⟩ := hs.values
  unfold kdjStep
  rw [hhigh, hlow]
  dsimp only [kdjStepOf]
  rw [List.length_reverse, hhighs, hlows]
  by_cases hwarm : past.length + 1 < period
  · have hlen : (past ++ [candle]).length < period := by simpa using hwarm
    rw [if_pos (by omega), seriesResult, if_pos hlen]
    refine ⟨_, rfl, hranges, rfl, rfl, rsv, ?_⟩
    rw [kdjFold_of_lt period kp dp hlen, ← hfold, kdjFold_of_lt period kp dp (by omega)]
  · have hlen : ¬ (past ++ [candle]).length < period := by simpa using hwarm
    obtain ⟨highest, lowest, hhighest, hlowest, hsmooth⟩ :=
      kdjSmooth_last kp dp h0 hranges ⟨rsv, s.k, s.d⟩
    have hnext : kdjFold period kp dp (past ++ [candle]) =
        .ok (kdjNext kp dp ⟨rsv, s.k, s.d⟩ highest lowest candle.close) := by
      rw [kdjFold_concat kp dp candle h0 (by omega), hfold, Except.ok_bind, hsmooth]
    have hresult : kdjResult period kp dp (past ++ [candle]) =
        kdjValues (kdjNext kp dp ⟨rsv, s.k, s.d⟩ highest lowest candle.close) := by
      rw [kdjResult, hnext]
      rfl
    rw [if_neg (by omega), hhighest, hlowest, seriesResult, if_neg hlen, hresult]
    refine ⟨⟨_, _, _, _⟩, ?_, hranges, rfl, rfl, _, hnext⟩
    simp [kdjNext, kdjValues]
    rfl

theorem kdjSeries_eq {period : ℕ} (h0 : 0 < period) (kp dp : ℕ)
    {candles : List (Candle (Exact sqrt))} (hrange : ∀ candle ∈ candles, candle.HasRange) :
    kdjSeries period kp dp candles =
      .ok (onPrefixes (seriesResult period (kdjResult period kp dp)) candles) := by
  refine kdjSeries_eq_ok.mpr ⟨hrange, scanPast_eq_onPrefixes (KdjCarried period kp dp)
    (fun s past candle hcandle hs => kdjStep_eq h0 hcandle hs) ?_ hrange⟩
  exact ⟨nofun, by simp [highsOf], by simp [lowsOf], 50,
    kdjFold_of_lt period kp dp h0⟩

theorem exists_kdjFold {period : ℕ} (h0 : 0 < period) (kp dp : ℕ)
    {candles : List (Candle (Exact sqrt))} (hrange : ∀ candle ∈ candles, candle.HasRange) :
    ∃ values, kdjFold period kp dp candles = .ok values := by
  induction candles using List.reverseRecOn with
  | nil => exact ⟨_, kdjFold_of_lt period kp dp h0⟩
  | append_singleton past candle ih =>
    by_cases hwarm : past.length + 1 < period
    · exact ⟨_, kdjFold_of_lt period kp dp (by simpa using hwarm)⟩
    · obtain ⟨values, hvalues⟩ := ih fun c hc => hrange c (List.mem_append_left _ hc)
      obtain ⟨_, _, -, -, hsmooth⟩ := kdjSmooth_last kp dp h0 hrange values
      rw [kdjFold_concat kp dp candle h0 (by omega), hvalues, Except.ok_bind, hsmooth]
      exact ⟨_, rfl⟩

theorem calculateKdj_eq {period : ℕ} (h0 : 0 < period) (kp dp : ℕ)
    {candles : List (Candle (Exact sqrt))} (hrange : ∀ candle ∈ candles, candle.HasRange) :
    calculateKdj period kp dp candles =
      plainResult .kdj period (kdjResult period kp dp) candles := by
  obtain ⟨values, hvalues⟩ := exists_kdjFold h0 kp dp hrange
  have hresult : kdjResult period kp dp candles = kdjValues values := by
    rw [kdjResult, hvalues]
    rfl
  rw [calculateKdj, plainResult, hresult]
  unfold requireLength
  split
  · rfl
  · rw [requireOhlc_eq_ok.mpr hrange]
    change (Except.ok () >>= fun _ => kdjFold period kp dp candles >>= fun values =>
      liftM (resultValues (kdjValues values))) = _
    rw [hvalues, Except.ok_bind, Except.ok_bind, resultValues_exact, liftM_ok]

/-! ## The built-in indicators -/

theorem plainResult_map {α β γ : Type} (f : α → β) (name : IndicatorType) (required : ℕ)
    (value : List β → γ) (xs : List α) :
    plainResult name required value (xs.map f) =
      plainResult name required (fun xs => value (xs.map f)) xs := by
  simp [plainResult]

theorem seriesResult_map {α β γ : Type} (f : α → β) (required : ℕ) (value : List β → γ) :
    (fun xs : List α => seriesResult required value (xs.map f)) =
      seriesResult required fun xs => value (xs.map f) := by
  funext xs
  simp [seriesResult]

/-- An indicator that reads only the closes. -/
theorem BuiltIn.seriesIsPlain_of_closes {indicator : BuiltIn (Exact sqrt)}
    {candles : List (Candle (Exact sqrt))} {name : IndicatorType} {required : ℕ}
    {value : List (Exact sqrt) → Values (Exact sqrt)}
    (hplain : ∀ candles, indicator.calculate candles =
      plainResult name required value (candles.map (·.close)))
    (hseries : indicator.calculateSeries candles =
      .ok (onPrefixes (seriesResult required value) (candles.map (·.close)))) :
    indicator.SeriesIsPlain candles := by
  refine seriesIsPlain_of (fun i => (hplain _).trans (plainResult_map ..)) ?_
  rw [hseries, onPrefixes_map, seriesResult_map]

/-- Every element of a series is the plain result on the candles up to it. -/
theorem BuiltIn.seriesIsPlain_of_supplied {indicator : BuiltIn (Exact sqrt)}
    {candles : List (Candle (Exact sqrt))} (h : indicator.Supplied candles) :
    indicator.SeriesIsPlain candles := by
  cases indicator with
  | ma period =>
    refine seriesIsPlain_of_closes (fun candles => calculateSma_eq ..) ?_
    rw [calculateSeries, smaSeries_eq period.pos]
    refine congrArg Except.ok ((map_onPrefixes ..).trans (congrArg (onPrefixes · _) ?_))
    funext closes
    rw [seriesResult, seriesResult]
    split <;> rfl
  | projectedMa period =>
    exact seriesIsPlain_of_closes (fun candles => calculateProjectedMa_eq period.pos _)
      (projectedMaSeries_eq period.pos _)
  | rsi period =>
    exact seriesIsPlain_of_closes (fun candles => calculateRsi_eq ..) (rsiSeries_eq ..)
  | kdj period kPeriod dPeriod =>
    exact seriesIsPlain_of
      (fun i => calculateKdj_eq period.pos _ _ fun c hc => h c (List.mem_of_mem_take hc))
      (kdjSeries_eq period.pos _ _ h)
  | boll period multiplier positive =>
    exact seriesIsPlain_of_closes (fun candles => calculateBollinger_eq ..)
      (bollSeries_eq period.pos multiplier _)
  | macd fastPeriod slowPeriod signalPeriod lt =>
    exact seriesIsPlain_of_closes
      (fun candles => calculateMacd_eq fastPeriod.pos lt signalPeriod.pos _)
      (macdSeries_eq fastPeriod.pos lt signalPeriod.pos _)

/-- The series path equals the plain path exactly where the candles have what the indicator needs:
`calculate_series` raises for the whole series where one candle lacks it. -/
theorem BuiltIn.seriesIsPlain_iff (indicator : BuiltIn (Exact sqrt))
    (candles : List (Candle (Exact sqrt))) :
    indicator.SeriesIsPlain candles ↔ indicator.Supplied candles := by
  refine ⟨fun ⟨out, hout, _⟩ => ?_, seriesIsPlain_of_supplied⟩
  cases indicator with
  | kdj period kPeriod dPeriod => exact (kdjSeries_eq_ok.mp hout).1
  | _ => trivial

/-- KDJ of period 1 over a candle with a range and a candle with a close only: `calculate` succeeds
on the first, `calculate_series` raises. -/
theorem BuiltIn.not_seriesIsPlain_closeOnly :
    ¬ (BuiltIn.kdj 1 1 1 : BuiltIn (Exact id)).SeriesIsPlain
      [⟨none, some 2, some 1, 2, none⟩, ⟨none, none, none, 3, none⟩] := by
  rintro ⟨out, hout, -⟩
  obtain ⟨hrange, -⟩ := kdjSeries_eq_ok.mp hout
  exact absurd (hrange _ (List.mem_cons_of_mem _ List.mem_cons_self)).1 (by decide)

end Apanel
