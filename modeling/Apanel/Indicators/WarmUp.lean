import Apanel.Indicators.Series

/-!
# Warming up

Every indicator has a value on all days after the first day on which it has one, whatever the bars
are.
-/

namespace Apanel

variable {F : Type} [Arith F]

theorem smaSeries_warmsUp {selected : Period} {closes : List F} {out : List (Option F)}
    (h : smaSeries selected closes = .ok out) : WarmsUp out := by
  refine scanPast_warmsUp (fun _ past => selected.val ≤ past.length + 1) ?_ h
  intro s past x s' y hstep
  unfold smaStep at hstep
  dsimp only at hstep
  split at hstep
  · next hle =>
    obtain ⟨_, -, hstep⟩ := Except.bind_eq_ok.mp hstep
    cases hstep
    exact ⟨fun _ => rfl, fun _ => by simp; omega⟩
  · next hgt =>
    cases hstep
    exact ⟨fun hle => absurd hle hgt, nofun⟩

/-- The value maps of an MA request stay non-empty. -/
theorem maValues_warmsUp {periods : List Period} {closes : List F} {out : List (Values F)}
    (h : maValues periods closes = .ok out) : out.Pairwise fun a b => a ≠ [] → b ≠ [] := by
  induction periods generalizing out with
  | nil =>
    cases h
    exact List.pairwise_map.mpr (List.pairwise_of_forall fun _ _ h => absurd rfl h)
  | cons period periods ih =>
    obtain ⟨series, hseries, h⟩ := Except.bind_eq_ok.mp h
    obtain ⟨values, hvalues, rfl⟩ := Except.map_eq_ok.mp h
    refine pairwise_zipWith _ (fun a b c d hab hcd => ?_) (smaSeries_warmsUp hseries) (ih hvalues)
    cases a <;> cases b <;> simp_all

theorem maSeries_warmsUp {periods : List Period} {closes : List F} {out : List (Option (Values F))}
    (h : maSeries periods closes = .ok out) : WarmsUp out := by
  obtain ⟨values, hvalues, rfl⟩ := Except.map_eq_ok.mp h
  refine List.pairwise_map.mpr ((maValues_warmsUp hvalues).imp fun {a b} hab hsome => ?_)
  cases a with
  | nil => cases hsome
  | cons value values =>
    cases b with
    | nil => exact absurd rfl (hab (List.cons_ne_nil value values))
    | cons value' values' => rfl

theorem rsiSeries_warmsUp {selected : ℕ} {averages : Option (F × F)} {past closes : List F}
    {out : List (Option (Values F))} (h : scanPast (rsiStep selected) averages past closes = .ok out) :
    WarmsUp out := by
  refine scanPast_warmsUp (fun averages _ => averages.isSome) ?_ h
  intro averages past close averages' y hstep
  obtain ⟨result, haverages, hstep⟩ := Except.bind_eq_ok.mp hstep
  cases result with
  | some result =>
    obtain ⟨values, -, hstep⟩ := Except.bind_eq_ok.mp hstep
    cases hstep
    exact ⟨fun _ => rfl, fun _ => rfl⟩
  | none =>
    cases hstep
    refine ⟨fun hsome => ?_, nofun⟩
    obtain ⟨⟨gain, loss⟩, rfl⟩ := Option.isSome_iff_exists.mp hsome
    cases haverages

theorem projectedMaSeries_warmsUp {selected : ℕ} {past closes : List F}
    {out : List (Option (Values F))}
    (h : scanPast (projectedMaStep selected) () past closes = .ok out) : WarmsUp out := by
  refine scanPast_warmsUp (fun _ past => selected ≤ past.length + 1) ?_ h
  intro _ past close _ y hstep
  unfold projectedMaStep at hstep
  split at hstep
  · next hle =>
    obtain ⟨_, -, hstep⟩ := Except.bind_eq_ok.mp hstep
    obtain ⟨_, -, hstep⟩ := Except.bind_eq_ok.mp hstep
    cases hstep
    exact ⟨fun _ => rfl, fun _ => by simp; omega⟩
  · next hgt =>
    cases hstep
    exact ⟨fun hle => absurd hle hgt, nofun⟩

theorem kdjStep_eq_ok {selected kp dp : ℕ} {s : KdjState F} {past : List (Candle F)}
    {candle : Candle F} {result : KdjState F × Option (Values F)} :
    kdjStep selected kp dp s past candle = .ok result ↔
      ∃ high low, candle.high = some high ∧ candle.low = some low ∧
        kdjStepOf selected kp dp s past.length high low candle.close = .ok result := by
  unfold kdjStep
  split <;> simp_all

theorem kdjSeries_warmsUp {selected kp dp : ℕ} {candles : List (Candle F)}
    {out : List (Option (Values F))} (h : kdjSeries selected kp dp candles = .ok out) :
    WarmsUp out := by
  refine scanPast_warmsUp (fun _ past => ¬ past.length < selected - 1) ?_ (kdjSeries_eq_ok.mp h).2
  intro s past candle s' y hstep
  obtain ⟨high, low, -, -, hstep⟩ := kdjStep_eq_ok.mp hstep
  unfold kdjStepOf at hstep
  dsimp only at hstep
  split at hstep
  · next hlt =>
    cases hstep
    exact ⟨fun hge => absurd hlt hge, nofun⟩
  · next hge =>
    obtain ⟨_, -, hstep⟩ := Except.bind_eq_ok.mp hstep
    cases hstep
    exact ⟨fun _ => rfl, fun _ => by rw [List.length_cons]; omega⟩

theorem bollSeries_warmsUp {selected : ℕ} {multiplier : F} {sums : F × F} {past closes : List F}
    {out : List (Option (Values F))}
    (h : scanPast (bollStep selected multiplier) sums past closes = .ok out) : WarmsUp out := by
  refine scanPast_warmsUp (fun _ past => selected ≤ past.length + 1) ?_ h
  intro sums past close sums' y hstep
  unfold bollStep at hstep
  dsimp only at hstep
  split at hstep
  · next hle =>
    obtain ⟨_, -, hstep⟩ := Except.bind_eq_ok.mp hstep
    obtain ⟨_, -, hstep⟩ := Except.bind_eq_ok.mp hstep
    cases hstep
    exact ⟨fun _ => rfl, fun _ => by simp; omega⟩
  · next hgt =>
    cases hstep
    exact ⟨fun hle => absurd hle hgt, nofun⟩

theorem ema_warmsUp {values : List F} {period : ℕ} {out : List (Option F)}
    (h : ema values period = .ok out) : WarmsUp out := by
  obtain ⟨total, -, rfl⟩ := ema_eq_ok.mp h
  exact (WarmsUp.map_some _).replicate_append _

theorem macdSeries_warmsUp {fast slow signal : ℕ} {closes : List F} {out : List (Option (Values F))}
    (h : macdSeries fast slow signal closes = .ok out) : WarmsUp out := by
  by_cases hfast : slow ≤ fast
  · rw [macdSeries, if_pos hfast] at h
    cases h
  by_cases hlen : closes.length < slow
  · rw [macdSeries, if_neg hfast, if_pos hlen] at h
    cases h
    exact .const_none closes
  obtain ⟨fastValues, slowValues, -, -, ⟨-, rfl⟩ | ⟨-, signalValues, output, hsignal, houtput, rfl⟩⟩ :=
    (macdSeries_eq_ok (by omega) (by omega)).mp h
  · exact .const_none closes
  -- the histogram has a value where the signal line does
  have hany : (macdDiffs slow fastValues slowValues).Pairwise fun _ _ => True :=
    List.pairwise_of_forall fun _ _ => trivial
  have hpairs : ((macdDiffs slow fastValues slowValues).zip signalValues).Pairwise
      fun p p' => p.2.isSome → p'.2.isSome :=
    pairwise_zipWith Prod.mk (fun _ _ _ _ _ hwarm => hwarm) hany (ema_warmsUp hsignal)
  refine WarmsUp.replicate_append ?_ _
  refine pairwise_of_forall₂ ?_ (forall₂_mapM houtput) hpairs
  rintro ⟨diff, dea⟩ ⟨diff', dea'⟩ y y' hy hy' hwarm hsome
  cases dea with
  | none => cases hy; cases hsome
  | some dea =>
    obtain ⟨dea', rfl⟩ := Option.isSome_iff_exists.mp (hwarm rfl)
    obtain ⟨values, -, rfl⟩ := Except.map_eq_ok.mp hy'
    rfl

/-- Once a request has values, it has values on every later bar. -/
theorem calculateSeries_warmsUp {request : IndicatorRequest F} {candles : List (Candle F)}
    {out : List (Option (Values F))} (h : calculateSeries request candles = .ok out) : WarmsUp out := by
  cases request with
  | ma periods => exact maSeries_warmsUp h
  | projectedMa period => exact projectedMaSeries_warmsUp h
  | rsi period => exact rsiSeries_warmsUp h
  | kdj period kPeriod dPeriod => exact kdjSeries_warmsUp h
  | boll period multiplier =>
    unfold calculateSeries at h
    dsimp only at h
    split at h
    · exact bollSeries_warmsUp h
    · cases h
  | macd fast slow signal => exact macdSeries_warmsUp h

theorem seriesForRequest_warmsUp {request : IndicatorRequest F} {candles : List (Candle F)}
    {out : List (Option (Values F))} (h : seriesForRequest request candles = .ok out) :
    WarmsUp out := by
  unfold seriesForRequest at h
  split at h
  · next hcalc => exact calculateSeries_warmsUp h
  · cases h
    exact .const_none candles
  · exact calculateSeries_warmsUp h

end Apanel
