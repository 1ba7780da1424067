import Apanel.Indicators.SeriesPath
import Apanel.Indicators.TypedRequests
import Apanel.Indicators.WarmUp

/-!
# The required history

`required_history_bars` (`app/indicators/parameters.py`) is the number of bars from which on all
requested indicators are complete (`requiredHistoryBars_exact`): one bar less leaves at least one of
them without a value, for every arithmetic.
-/

namespace Apanel

section Required

variable {F : Type} [Arith F]

/-- One iteration of the loop of `required_history_bars`. -/
def requiredStep (required : ℕ) : IndicatorRequest F → ℕ
  | .ma periods => (periods.periods.map (·.1)).foldl max required
  | .projectedMa period => max required period
  | .rsi period => max required (period + 1)
  | .kdj period _ _ => max required period
  | .boll period _ => max required period
  | .macd _ slowPeriod signalPeriod => max required (slowPeriod + signalPeriod - 1)

/-- `required_history_bars`. -/
def requiredHistoryBars [LinearOrder (IndicatorRequest F)] (requests : List (IndicatorRequest F)) :
    ℕ :=
  (mergeIndicatorRequests requests).foldl requiredStep 1

/-- The number of bars after which the request has all its values. -/
def IndicatorRequest.historyBars : IndicatorRequest F → ℕ := requiredStep 0

theorem foldl_max_le_iff {α : Type} {f : ℕ → α → ℕ} {g : α → ℕ}
    (hf : ∀ m a, f m a = max m (g a)) {as : List α} {m n : ℕ} :
    as.foldl f m ≤ n ↔ m ≤ n ∧ ∀ a ∈ as, g a ≤ n := by
  induction as generalizing m with
  | nil => simp
  | cons a as ih => rw [List.foldl_cons, ih, hf, List.forall_mem_cons, max_le_iff, and_assoc]

omit [Arith F] in
theorem historyBars_ma_le {periods : MaPeriods} {n : ℕ} :
    (IndicatorRequest.ma (F := F) periods).historyBars ≤ n ↔
      ∀ period ∈ periods.periods, period.1 ≤ n := by
  rw [IndicatorRequest.historyBars, requiredStep, foldl_max_le_iff (f := max) (g := id) fun _ _ => rfl]
  simp only [List.forall_mem_map, id, Nat.zero_le, true_and]

omit [Arith F] in
theorem requiredStep_eq (required : ℕ) (request : IndicatorRequest F) :
    requiredStep required request = max required request.historyBars := by
  cases request with
  | ma periods =>
    refine eq_of_forall_ge_iff fun n => ?_
    rw [max_le_iff, historyBars_ma_le, requiredStep, foldl_max_le_iff (f := max) (g := id) fun _ _ => rfl]
    simp only [List.forall_mem_map, id]
  | projectedMa | rsi | kdj | boll | macd =>
    simp only [IndicatorRequest.historyBars, requiredStep, Nat.zero_max]

/-- Enough bars are enough for every merged request. -/
theorem requiredHistoryBars_le_iff [LinearOrder (IndicatorRequest F)]
    {requests : List (IndicatorRequest F)} {n : ℕ} : requiredHistoryBars requests ≤ n ↔
      1 ≤ n ∧ ∀ request ∈ mergeIndicatorRequests requests, request.historyBars ≤ n :=
  foldl_max_le_iff requiredStep_eq

omit [Arith F] in
theorem historyBars_pos (request : IndicatorRequest F) : 0 < request.historyBars := by
  cases request with
  | ma periods =>
    obtain ⟨period, hperiod⟩ := List.exists_mem_of_ne_nil _ periods.nonempty
    have hle := historyBars_ma_le.mp (le_refl (IndicatorRequest.ma (F := F) periods).historyBars)
    exact lt_of_lt_of_le period.2.1 (hle period hperiod)
  | projectedMa period | rsi period | kdj period | boll period =>
    have := period.2
    simp only [IndicatorRequest.historyBars, requiredStep]
    omega
  | macd fastPeriod slowPeriod signalPeriod =>
    have := slowPeriod.2
    have := signalPeriod.2
    simp only [IndicatorRequest.historyBars, requiredStep]
    omega

end Required

/-! ## The series -/

section Series

variable {F : Type} [Arith F]

theorem smaSeries_startsAt {selected : Period} {closes : List F} {out : List (Option F)}
    (h : smaSeries selected closes = .ok out) : StartsAt selected out := by
  refine scanPast_startsAt (fun _ _ => True) (fun s past x s' y _ hstep => ⟨?_, trivial⟩) trivial h
  unfold smaStep at hstep
  dsimp only at hstep
  split at hstep
  · next hle =>
    obtain ⟨_, -, hstep⟩ := Except.bind_eq_ok.mp hstep
    cases hstep
    exact iff_of_true rfl hle
  · next hgt =>
    cases hstep
    exact iff_of_false nofun hgt

/-- The value map of an MA request has the periods that have warmed up. -/
theorem mem_maValues {periods : List Period} {closes : List F} {out : List (Values F)}
    (h : maValues periods closes = .ok out) {i : ℕ} (hi : i < out.length) (period : Period) :
    (∃ x, (Field.ma period, x) ∈ out[i]) ↔ period ∈ periods ∧ period.1 ≤ i + 1 := by
  induction periods generalizing out with
  | nil =>
    cases h
    simp
  | cons first periods ih =>
    obtain ⟨series, hseries, h⟩ := Except.bind_eq_ok.mp h
    obtain ⟨values, hvalues, rfl⟩ := Except.map_eq_ok.mp h
    rw [List.length_zipWith, lt_min_iff] at hi
    have hfirst := smaSeries_startsAt hseries i hi.1
    have hrest := ih hvalues hi.2
    simp only [List.getElem_zipWith, List.mem_append, Option.mem_toList, Option.map_eq_some_iff,
      Prod.mk.injEq, Field.ma.injEq, exists_or, hrest, List.mem_cons]
    have hfirst' : (∃ x x', series[i] = some x' ∧ first.1 = period.1 ∧ x' = x) ↔
        period = first ∧ period.1 ≤ i + 1 := by
      constructor
      · rintro ⟨x, x', hsome, heq, rfl⟩
        exact ⟨(Subtype.ext heq).symm, heq ▸ hfirst.mp (Option.isSome_of_eq_some hsome)⟩
      · rintro ⟨rfl, hle⟩
        obtain ⟨x, hx⟩ := Option.isSome_iff_exists.mp (hfirst.mpr hle)
        exact ⟨x, x, hx, rfl, rfl⟩
    rw [hfirst', or_and_right]

theorem projectedMaSeries_startsAt {selected : ℕ} {closes : List F} {out : List (Option (Values F))}
    (h : scanPast (projectedMaStep selected) () [] closes = .ok out) : StartsAt selected out := by
  refine scanPast_startsAt (fun _ _ => True) (fun s past x s' y _ hstep => ⟨?_, trivial⟩) trivial h
  unfold projectedMaStep at hstep
  split at hstep
  · next hle =>
    obtain ⟨_, -, hstep⟩ := Except.bind_eq_ok.mp hstep
    obtain ⟨_, -, hstep⟩ := Except.bind_eq_ok.mp hstep
    cases hstep
    exact iff_of_true rfl hle
  · next hgt =>
    cases hstep
    exact iff_of_false nofun hgt

theorem rsiSeries_startsAt {selected : ℕ} {closes : List F} {out : List (Option (Values F))}
    (h : scanPast (rsiStep selected) none [] closes = .ok out) : StartsAt (selected + 1) out := by
  refine scanPast_startsAt (fun averages past => averages.isSome ↔ selected < past.length)
    (fun averages past close averages' y hinv hstep => ?_) (iff_of_false nofun (Nat.not_lt_zero _)) h
  obtain ⟨result, haverages, hstep⟩ := Except.bind_eq_ok.mp hstep
  have hresult : result.isSome ↔ selected < past.length + 1 := by
    unfold rsiAverages at haverages
    cases averages with
    | some averages =>
      cases haverages
      have := hinv.mp rfl
      exact iff_of_true rfl (by omega)
    | none =>
      have hle : ¬ selected < past.length := fun h => nomatch hinv.mpr h
      dsimp only at haverages
      split at haverages
      · next heq =>
        obtain ⟨_, -, haverages⟩ := Except.bind_eq_ok.mp haverages
        obtain ⟨_, -, haverages⟩ := Except.bind_eq_ok.mp haverages
        cases haverages
        exact iff_of_true rfl (by omega)
      · next hne =>
        cases haverages
        exact iff_of_false nofun (by omega)
  cases result with
  | some result =>
    obtain ⟨_, -, hstep⟩ := Except.bind_eq_ok.mp hstep
    cases hstep
    exact ⟨iff_of_true rfl (hresult.mp rfl), hresult⟩
  | none =>
    cases hstep
    exact ⟨iff_of_false nofun fun h => (nomatch hresult.mpr h), hresult⟩

theorem kdjSeries_startsAt {selected kp dp : ℕ} {candles : List (Candle F)}
    {out : List (Option (Values F))} (h : kdjSeries selected kp dp candles = .ok out) :
    StartsAt selected out := by
  refine scanPast_startsAt (fun _ _ => True) (fun s past candle s' y _ hstep => ⟨?_, trivial⟩) trivial
    (kdjSeries_eq_ok.mp h).2
  obtain ⟨high, low, -, -, hstep⟩ := kdjStep_eq_ok.mp hstep
  unfold kdjStepOf at hstep
  dsimp only at hstep
  split at hstep
  · next hlt =>
    cases hstep
    exact iff_of_false nofun (by omega)
  · next hge =>
    obtain ⟨_, -, hstep⟩ := Except.bind_eq_ok.mp hstep
    cases hstep
    exact iff_of_true rfl (by omega)

theorem bollSeries_startsAt {selected : ℕ} {multiplier : F} {sums : F × F} {closes : List F}
    {out : List (Option (Values F))}
    (h : scanPast (bollStep selected multiplier) sums [] closes = .ok out) :
    StartsAt selected out := by
  refine scanPast_startsAt (fun _ _ => True) (fun s past x s' y _ hstep => ⟨?_, trivial⟩) trivial h
  unfold bollStep at hstep
  dsimp only at hstep
  split at hstep
  · next hle =>
    obtain ⟨_, -, hstep⟩ := Except.bind_eq_ok.mp hstep
    obtain ⟨_, -, hstep⟩ := Except.bind_eq_ok.mp hstep
    cases hstep
    exact iff_of_true rfl hle
  · next hgt =>
    cases hstep
    exact iff_of_false nofun hgt

theorem ema_startsAt {values : List F} {period : ℕ} (h0 : 0 < period) {out : List (Option F)}
    (h : ema values period = .ok out) : StartsAt period out := by
  obtain ⟨total, -, rfl⟩ := ema_eq_ok.mp h
  have hstarts := (StartsAt.map_some (emaFrom (Arith.ofNat 2 / (Arith.ofNat period + Arith.ofNat 1))
    (total / Arith.ofNat period) (values.drop period))).replicate_append Nat.zero_lt_one (period - 1)
  rwa [Nat.sub_add_cancel h0] at hstarts

theorem macdSeries_startsAt {fast slow signal : ℕ} (hfast0 : 0 < fast) (hsignal : 0 < signal)
    {closes : List F} {out : List (Option (Values F))}
    (h : macdSeries fast slow signal closes = .ok out) : StartsAt (slow + signal - 1) out := by
  by_cases hfast : slow ≤ fast
  · rw [macdSeries, if_pos hfast] at h
    cases h
  by_cases hlen : closes.length < slow
  · rw [macdSeries, if_neg hfast, if_pos hlen] at h
    cases h
    exact .const_none (by omega)
  obtain ⟨fastValues, slowValues, hf, hs, ⟨hshort, rfl⟩ |
    ⟨-, signalValues, output, hsig, houtput, rfl⟩⟩ := (macdSeries_eq_ok (by omega) (by omega)).mp h
  · rw [macdDiffs_length_of_ema hfast0 (by omega) (by omega) hf hs] at hshort
    exact .const_none (by omega)
  have hsignalStarts := ema_startsAt hsignal hsig
  -- the histogram has a value where the signal line has one
  have hpairs := forall₂_mapM houtput
  have houtputStarts : StartsAt signal output := by
    intro i hi
    have hzip : i < ((macdDiffs slow fastValues slowValues).zip signalValues).length :=
      hpairs.length_eq ▸ hi
    have hsignalLen : i < signalValues.length := by
      rw [List.length_zip] at hzip
      omega
    have hpair := hpairs.get hzip hi
    rw [List.get_eq_getElem, List.get_eq_getElem, List.getElem_zip] at hpair
    rw [← hsignalStarts i hsignalLen]
    cases hdea : signalValues[i] with
    | none =>
      rw [hdea] at hpair
      have heq : none = output[i] := Except.ok.inj hpair
      rw [← heq]
      rfl
    | some dea =>
      rw [hdea] at hpair
      obtain ⟨values, -, heq⟩ := Except.map_eq_ok.mp hpair
      rw [← heq]
      rfl
  have hstarts := houtputStarts.replicate_append hsignal (slow - 1)
  rwa [show slow - 1 + signal = slow + signal - 1 by omega] at hstarts

/-- What a bar shows of a request: for MA a value for each of its periods. -/
def Complete (request : IndicatorRequest F) (values : Option (Values F)) : Prop :=
  match request with
  | .ma periods => ∃ entries, values = some entries ∧
      ∀ period ∈ periods.periods, ∃ x, (Field.ma period, x) ∈ entries
  | _ => values.isSome

theorem complete_iff {request : IndicatorRequest F} {candles : List (Candle F)}
    {out : List (Option (Values F))} (h : calculateSeries request candles = .ok out) {i : ℕ}
    (hi : i < out.length) : Complete request out[i] ↔ request.historyBars ≤ i + 1 := by
  have hstarts {n : ℕ} (hout : StartsAt n out) (hbars : request.historyBars = n) :
      out[i].isSome ↔ request.historyBars ≤ i + 1 := by
    rw [hout i hi, hbars]
  cases request with
  | ma periods =>
    obtain ⟨values, hvalues, rfl⟩ := Except.map_eq_ok.mp h
    rw [List.length_map] at hi
    have hmem := mem_maValues hvalues hi
    rw [historyBars_ma_le, List.getElem_map]
    constructor
    · rintro ⟨entries, hentries, hall⟩ period hperiod
      split at hentries
      · cases hentries
      · cases hentries
        exact ((hmem period).mp (hall period hperiod)).2
    · intro hall
      have hentries : ∀ period ∈ periods.periods, ∃ x, (Field.ma period, x) ∈ values[i] :=
        fun period hperiod => (hmem period).mpr ⟨hperiod, hall period hperiod⟩
      obtain ⟨period, hperiod⟩ := List.exists_mem_of_ne_nil _ periods.nonempty
      obtain ⟨x, hx⟩ := hentries period hperiod
      refine ⟨values[i], if_neg ?_, hentries⟩
      rw [List.isEmpty_iff]
      exact List.ne_nil_of_mem hx
  | projectedMa period => exact hstarts (projectedMaSeries_startsAt h) (Nat.zero_max _)
  | rsi period => exact hstarts (rsiSeries_startsAt h) (Nat.zero_max _)
  | kdj period kPeriod dPeriod => exact hstarts (kdjSeries_startsAt h) (Nat.zero_max _)
  | boll period multiplier =>
    unfold calculateSeries at h
    dsimp only at h
    split at h
    · exact hstarts (bollSeries_startsAt h) (Nat.zero_max _)
    · cases h
  | macd fastPeriod slowPeriod signalPeriod =>
    exact hstarts (macdSeries_startsAt fastPeriod.2.1 signalPeriod.2.1 h) (Nat.zero_max _)

omit [Arith F] in
theorem not_complete_none (request : IndicatorRequest F) : ¬ Complete request none := by
  cases request with
  | ma => rintro ⟨entries, hnone, -⟩; cases hnone
  | projectedMa | rsi | kdj | boll | macd => nofun

/-- The request is complete at the last candle of a history. -/
def CompleteAtLast (request : IndicatorRequest F) (candles : List (Candle F)) : Prop :=
  ∃ out values, seriesForRequest request candles = .ok out ∧ out.getLast? = some values ∧
    Complete request values

/-- The calculation of the series does not fail. -/
def Calculates (request : IndicatorRequest F) (candles : List (Candle F)) : Prop :=
  ∃ out, calculateSeries request candles = .ok out

theorem seriesForRequest_of_ok {request : IndicatorRequest F} {candles : List (Candle F)}
    {out : List (Option (Values F))} (h : calculateSeries request candles = .ok out) :
    seriesForRequest request candles = .ok out := by
  unfold seriesForRequest
  rw [h]
  cases request <;> rfl

theorem completeAtLast {request : IndicatorRequest F} {candles : List (Candle F)}
    (hcalculates : Calculates request candles) (hbars : request.historyBars ≤ candles.length) :
    CompleteAtLast request candles := by
  obtain ⟨out, hout⟩ := hcalculates
  have hlen := (calculateSeries_causal request).length hout
  have hpos := historyBars_pos request
  have hne : out ≠ [] := List.ne_nil_of_length_pos (by omega)
  refine ⟨out, out.getLast hne, seriesForRequest_of_ok hout, List.getLast?_eq_some_getLast hne, ?_⟩
  rw [List.getLast_eq_getElem, complete_iff hout]
  omega

/-- One bar less is not enough, whatever the series is. -/
theorem not_completeAtLast {request : IndicatorRequest F} {candles : List (Candle F)}
    (hbars : candles.length < request.historyBars) : ¬ CompleteAtLast request candles := by
  rintro ⟨out, values, hout, hlast, hcomplete⟩
  have hcalculates (h : calculateSeries request candles = .ok out) : False := by
    have hlen := (calculateSeries_causal request).length h
    have hne : out ≠ [] := fun hnil => by
      rw [hnil] at hlast
      cases hlast
    rw [List.getLast?_eq_some_getLast hne] at hlast
    cases hlast
    rw [List.getLast_eq_getElem, complete_iff h] at hcomplete
    have := List.length_pos_of_ne_nil hne
    omega
  unfold seriesForRequest at hout
  split at hout
  · exact hcalculates hout
  · cases hout
    have hmem := List.mem_of_getLast? hlast
    obtain ⟨-, -, rfl⟩ := List.mem_map.mp hmem
    exact not_complete_none _ hcomplete
  · exact hcalculates hout

/-- The checks on the parameters of a typed request. -/
def Admissible : IndicatorRequest F → Prop
  | .boll _ multiplier => Arith.isFinite multiplier ∧ Arith.lt (Arith.ofNat 0) multiplier
  | .macd fastPeriod slowPeriod _ => fastPeriod < slowPeriod
  | _ => True

end Series

/-- In exact arithmetic no calculation fails. -/
theorem calculates_exact {sqrt : ℚ → ℚ} {request : IndicatorRequest (Exact sqrt)}
    (hadmissible : Admissible request) {candles : List (Candle (Exact sqrt))}
    (hrange : ∀ candle ∈ candles, candle.HasRange) : Calculates request candles := by
  cases request with
  | ma periods =>
    have hvalues : ∃ values, maValues periods.periods (candles.map (·.close)) = .ok values := by
      generalize periods.periods = periods
      induction periods with
      | nil => exact ⟨_, rfl⟩
      | cons period periods ih =>
        obtain ⟨values, hvalues⟩ := ih
        exact ⟨_, Except.bind_eq_ok.mpr ⟨_, smaSeries_eq period.2.1 _,
          Except.map_eq_ok.mpr ⟨values, hvalues, rfl⟩⟩⟩
    obtain ⟨values, hvalues⟩ := hvalues
    exact ⟨_, Except.map_eq_ok.mpr ⟨values, hvalues, rfl⟩⟩
  | projectedMa period => exact ⟨_, projectedMaSeries_eq period.2.1 _⟩
  | rsi period => exact ⟨_, rsiSeries_eq _ _⟩
  | kdj period kPeriod dPeriod => exact ⟨_, kdjSeries_eq period.2.1 _ _ hrange⟩
  | boll period multiplier =>
    unfold Calculates calculateSeries
    dsimp only
    rw [if_pos (Bool.and_eq_true_iff.mpr hadmissible)]
    exact ⟨_, bollSeries_eq period.2.1 multiplier _⟩
  | macd fastPeriod slowPeriod signalPeriod =>
    exact ⟨_, macdSeries_eq fastPeriod.2.1 hadmissible signalPeriod.2.1 _⟩

section Exactness

variable {F : Type} [Arith F] [LinearOrder (IndicatorRequest F)]

/-- From the required number of bars on, every merged request is complete at the last bar, unless
its own calculation fails, which in exact arithmetic it never does. With one bar less at least one
of them is not, for every arithmetic. -/
theorem requiredHistoryBars_exact (requests : List (IndicatorRequest F)) :
    (∀ candles : List (Candle F), requiredHistoryBars requests ≤ candles.length →
      ∀ request ∈ mergeIndicatorRequests requests,
        Calculates request candles → CompleteAtLast request candles) ∧
    (∀ candles : List (Candle F), candles.length + 1 = requiredHistoryBars requests →
      ∃ request ∈ mergeIndicatorRequests requests, ¬ CompleteAtLast request candles) ∧
    ∀ (sqrt : ℚ → ℚ) (request : IndicatorRequest (Exact sqrt)) (candles : List (Candle (Exact sqrt))),
      Admissible request → (∀ candle ∈ candles, candle.HasRange) → Calculates request candles := by
  refine ⟨fun candles hbars request hrequest hcalculates => ?_, fun candles hbars => ?_,
    fun sqrt request candles hadmissible hrange => calculates_exact hadmissible hrange⟩
  · exact completeAtLast hcalculates ((requiredHistoryBars_le_iff.mp hbars).2 request hrequest)
  · have hshort : ¬ requiredHistoryBars requests ≤ candles.length := by omega
    by_contra hall
    push Not at hall
    have hbarsLe (request : IndicatorRequest F) (hrequest : request ∈ mergeIndicatorRequests requests) :
        request.historyBars ≤ candles.length :=
      not_lt.mp fun hlt => not_completeAtLast hlt (hall request hrequest)
    have hdefault : defaultParameters .rsi ∈ mergeIndicatorRequests requests :=
      mem_mergeIndicatorRequests.mpr (.inl (List.mem_map_of_mem (by decide)))
    exact hshort (requiredHistoryBars_le_iff.mpr
      ⟨(historyBars_pos _).trans_le (hbarsLe _ hdefault), hbarsLe⟩)

end Exactness

/-! ## Failing calculations -/

/-- A candle of one price. -/
def flatCandle (price : ℚ) : Candle Ranged :=
  ⟨some (some price), some (some price), some (some price), some price, some (some 1)⟩

/-- The closes go up and down between 8 and 12. -/
def alternating : List (Candle Ranged) := (List.replicate 17 [flatCandle 8, flatCandle 12]).flatten

/-- A multiplier at which the bands leave the range of the floats. -/
def wideBands : IndicatorRequest Ranged := .boll (Period.of 2) (some (2 ^ 1023))

/-- On 34 candles, as many as are required, the series of the wide bands is blank. -/
theorem not_requiredHistoryBars_exact :
    ¬ ∀ (requests : List (IndicatorRequest Ranged)) (candles : List (Candle Ranged)),
      (∀ request ∈ requests, Admissible request) → (∀ candle ∈ candles, candle.HasRange) →
      requiredHistoryBars requests ≤ candles.length →
        ∀ request ∈ mergeIndicatorRequests requests, CompleteAtLast request candles := by
  intro h
  have hadmissible : ∀ request ∈ [wideBands], Admissible request := by
    intro request hrequest
    rw [List.mem_singleton.mp hrequest]
    exact ⟨by decide +kernel, by decide +kernel⟩
  have hbars : requiredHistoryBars [wideBands] ≤ alternating.length := by decide +kernel
  have hmem : wideBands ∈ mergeIndicatorRequests [wideBands] :=
    mem_mergeIndicatorRequests.mpr (.inr (List.mem_singleton_self _))
  obtain ⟨out, values, hout, hlast, hcomplete⟩ :=
    h [wideBands] alternating hadmissible (by decide +kernel) hbars wideBands hmem
  have hblank : seriesForRequest wideBands alternating = .ok (alternating.map fun _ => none) := by
    decide +kernel
  rw [hblank] at hout
  cases hout
  obtain ⟨-, -, rfl⟩ := List.mem_map.mp (List.mem_of_getLast? hlast)
  exact not_complete_none _ hcomplete

/-! ## Over dictionaries -/

namespace Canonical

section Dictionaries

variable {F : Type} [PyFloat F]

/-- `int(parameters.get(key, default))`. Canonical parameters hold integers there. -/
def integerAt (parameters : Parameters F) (key : List Char) (default : ℤ) : ℤ :=
  ((parameters.lookup key).bind integerOf).getD default

/-- One iteration of the loop of `required_history_bars`, for canonical parameters. -/
def requiredOf (required : ℤ) (indicatorType : List Char) (parameters : Parameters F) : ℤ :=
  match typeNames.lookup indicatorType with
  | some .ma => (maPeriods parameters).foldl max required
  | some .projectedMa => max required (integerAt parameters "period".toList 5)
  | some .rsi => max required (integerAt parameters "period".toList 14 + 1)
  | some .kdj => max required (integerAt parameters "period".toList 9)
  | some .boll => max required (integerAt parameters "period".toList 20)
  | some .macd => max required (integerAt parameters "slow_period".toList 26 +
      integerAt parameters "signal_period".toList 9 - 1)
  | none => required

def requiredHistoryBars (tables : CaseTables) (digest : List Char → List Char)
    (requests : List (Request F)) : Except ParameterFailure ℤ :=
  mergeIndicatorRequests tables digest requests >>= fun merged =>
    merged.foldlM (fun required request =>
      normalizeIndicatorType tables request.indicatorType >>= fun indicatorType =>
        canonicalizeParameters tables true indicatorType (.object request.parameters) >>=
          fun parameters => .ok (requiredOf required indicatorType parameters)) 1

omit [PyFloat F] in
theorem requiredOf_mapping (required : ℕ) (request : IndicatorRequest F) :
    requiredOf required (mapping request).indicatorType (mapping request).parameters =
      requiredStep required request := by
  cases request with
  | ma periods =>
    have hfoldl (ps : List Period) (m : ℕ) :
        (ps.map fun p => (p.1 : ℤ)).foldl max (m : ℤ) = (ps.map (·.1)).foldl max m := by
      induction ps generalizing m with
      | nil => rfl
      | cons p ps ih =>
        rw [List.map_cons, List.map_cons, List.foldl_cons, List.foldl_cons, ← Nat.cast_max, ih]
    change (maPeriods (mapping (.ma periods : IndicatorRequest F)).parameters).foldl max _ = _
    rw [mapping, maPeriods_periodsValue]
    exact hfoldl periods.periods required
  | projectedMa period | kdj period | boll period => exact (Nat.cast_max _ _).symm
  | rsi period =>
    change max (required : ℤ) ((period.1 : ℤ) + 1) = (max required (period + 1) : ℕ)
    omega
  | macd fastPeriod slowPeriod signalPeriod =>
    have := slowPeriod.2
    change max (required : ℤ) ((slowPeriod.1 : ℤ) + signalPeriod.1 - 1) =
      (max required (slowPeriod + signalPeriod - 1) : ℕ)
    omega

variable [LawfulPyFloat F] {tables : CaseTables} {digest : List Char → List Char} [Arith F]
  [LinearOrder (IndicatorRequest F)]

/-- The required history of accepted requests for indicators with a known formula is that of the
typed requests. -/
theorem requiredHistoryBars_eq (hdigest : DigestInjective F digest)
    (htwo : (Arith.ofNat 2 : F) = PyFloat.two) (horder : OrderedByKey F digest)
    {requests : List (Request F)} (hrequests : ∀ request ∈ requests, ∃ known c,
      normalizeIndicatorType tables request.indicatorType = .ok (typeName known) ∧
        canonicalizeParameters tables true request.indicatorType (.object request.parameters) =
          .ok c) :
    ∃ typed : List (IndicatorRequest F), (∀ request ∈ typed, Accepted request) ∧
      requests.mapM (normalizeRequest tables) = .ok (typed.map mapping) ∧
        requiredHistoryBars tables digest requests = .ok (Apanel.requiredHistoryBars typed) := by
  obtain ⟨typed, haccepted, hnormalized, hmerge⟩ :=
    exists_typedRequests hdigest htwo horder hrequests
  refine ⟨typed, haccepted, hnormalized, Except.bind_eq_ok.mpr ⟨_, hmerge, ?_⟩⟩
  have hmerged : ∀ request ∈ Apanel.mergeIndicatorRequests typed, Accepted request := by
    intro request hrequest
    rw [Apanel.mem_mergeIndicatorRequests, defaultRequests_eq htwo] at hrequest
    exact hrequest.elim (accepted_typedDefaults request) (haccepted request)
  rw [Apanel.requiredHistoryBars]
  generalize Apanel.mergeIndicatorRequests typed = merged at hmerged
  suffices h : ∀ required : ℕ, (merged.map mapping).foldlM (fun required request =>
      normalizeIndicatorType tables request.indicatorType >>= fun indicatorType =>
        canonicalizeParameters tables true indicatorType (.object request.parameters) >>=
          fun parameters => .ok (requiredOf required indicatorType parameters)) (required : ℤ) =
      .ok ((merged.foldl requiredStep required : ℕ) : ℤ) from h 1
  induction merged with
  | nil => exact fun _ => rfl
  | cons request merged ih =>
    obtain ⟨haccepted, hmerged⟩ := List.forall_mem_cons.mp hmerged
    intro required
    have hmapping : Merged tables (mapping request) := merged_mapping haccepted
    have hname := hmapping.typeName.normalize_eq
    rw [List.map_cons, List.foldlM_cons, hname, Except.ok_bind,
      hmapping.canonical.canonicalizeParameters_eq hname id, Except.ok_bind, Except.ok_bind,
      requiredOf_mapping, ih hmerged, List.foldl_cons]

end Dictionaries

theorem wholeFloat_requiredHistoryBars_eq : ∃ typed : List (IndicatorRequest WholeFloat),
    (∀ request ∈ typed, Accepted request) ∧
      [spelledRequest].mapM (normalizeRequest latinTables) = .ok (typed.map mapping) ∧
        requiredHistoryBars latinTables sha256 [spelledRequest] =
          .ok (Apanel.requiredHistoryBars typed) := by
  refine requiredHistoryBars_eq digestInjective_sha256 (by decide) (fun a b _ _ => Iff.rfl) ?_
  intro request hrequest
  rw [List.mem_singleton.mp hrequest]
  exact ⟨.rsi, wholePeriod 14, rfl, rfl⟩

end Canonical

end Apanel
