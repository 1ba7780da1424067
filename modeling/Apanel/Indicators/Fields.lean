import Apanel.Indicators.RequiredHistory

/-!
# Indicator fields

The fields of the value maps (`app/indicators/metadata.py`). From the bars on that a field needs, the
series of its request has finite values for it (`calculateSeries_field`).
-/

namespace Apanel

/-- `_STATIC_FIELDS`. The fields of MA depend on its periods. -/
def staticFields : IndicatorType → List Field
  | .ma => []
  | .projectedMa => [.value]
  | .rsi => [.value]
  | .kdj => [.rsv, .k, .d, .j]
  | .boll => [.upper, .middle, .lower, .width]
  | .macd => [.diff, .dea, .histogram]

/-- The keys of the value maps. -/
def fieldName : Field → List Char
  | .ma period => "MA".toList ++ Nat.toDigits 10 period
  | .value => "value".toList
  | .projectedClose => "projected_close".toList
  | .averageGain => "average_gain".toList
  | .averageLoss => "average_loss".toList
  | .rsv => "rsv".toList
  | .k => "k".toList
  | .d => "d".toList
  | .j => "j".toList
  | .upper => "upper".toList
  | .middle => "middle".toList
  | .lower => "lower".toList
  | .width => "width".toList
  | .diff => "diff".toList
  | .dea => "dea".toList
  | .histogram => "histogram".toList

/-- The fields that a condition on the values of a request may name. -/
def IndicatorRequest.fields {F : Type} (request : IndicatorRequest F) : List Field :=
  if request.isMa then request.maPeriods.map fun period => .ma period.1
  else staticFields request.indicatorType

/-- The number of bars from which on a field has a value: an average of MA needs those of its own
period. -/
def fieldBars {F : Type} : IndicatorRequest F → Field → ℕ
  | .ma _, .ma period => period
  | request, _ => request.historyBars

/-! ## Value maps -/

section Values

variable {F : Type} [Arith F]

/-- Finite values for these fields. -/
def HasFields (fields : List Field) (values : Values F) : Prop :=
  ∀ field ∈ fields, ∃ x, values.lookup field = some x ∧ Arith.isFinite x

theorem HasFields.mono {fields fields' : List Field} {values : Values F} (h : HasFields fields values)
    (hsub : fields' ⊆ fields) : HasFields fields' values := fun field hfield => h field (hsub hfield)

omit [Arith F] in
theorem exists_lookup {values : Values F} {field : Field} {x : F} (h : (field, x) ∈ values) :
    ∃ y, values.lookup field = some y ∧ (field, y) ∈ values := by
  cases hlookup : values.lookup field with
  | none => simpa using List.lookup_eq_none_iff.mp hlookup _ h
  | some y => exact ⟨y, rfl, Canonical.mem_of_lookup hlookup⟩

theorem resultValues_eq_ok {values out : Values F} :
    resultValues values = .ok out ↔ out = values ∧ ∀ m ∈ values, Arith.isFinite m.2 := by
  rw [resultValues]
  split
  · next hall =>
    rw [List.all_eq_true] at hall
    constructor
    · intro h
      cases h
      exact ⟨rfl, hall⟩
    · rintro ⟨rfl, -⟩
      rfl
  · next hall =>
    rw [List.all_eq_true] at hall
    constructor
    · intro h
      cases h
    · intro h
      exact absurd h.2 hall

theorem resultValues_hasFields {values out : Values F} (h : resultValues values = .ok out) :
    HasFields (values.map (·.1)) out := by
  obtain ⟨rfl, hfinite⟩ := resultValues_eq_ok.mp h
  intro field hfield
  obtain ⟨⟨_, x⟩, hx, rfl⟩ := List.mem_map.mp hfield
  obtain ⟨y, hlookup, hy⟩ := exists_lookup hx
  exact ⟨y, hlookup, hfinite _ hy⟩

omit [Arith F] in
theorem forall_scanPast {ε σ α β : Type} {step : σ → List α → α → Except ε (σ × β)} {P : β → Prop}
    (hstep : ∀ s past x s' y, step s past x = .ok (s', y) → P y) {s : σ} {past xs : List α}
    {ys : List β} (h : scanPast step s past xs = .ok ys) : ∀ y ∈ ys, P y := by
  induction xs generalizing s past ys with
  | nil =>
    cases h
    exact List.forall_mem_nil _
  | cons x xs ih =>
    obtain ⟨s', y, ys, hx, hs, rfl⟩ := scanPast_cons.mp h
    exact List.forall_mem_cons.mpr ⟨hstep s past x s' y hx, ih hs⟩

theorem projectedMaStep_fields {selected : ℕ} {u u' : Unit} {past : List F} {close : F}
    {y : Option (Values F)} (h : projectedMaStep selected u past close = .ok (u', y)) :
    ∀ values ∈ y, HasFields (staticFields .projectedMa) values := by
  unfold projectedMaStep at h
  split at h
  · obtain ⟨_, -, h⟩ := Except.bind_eq_ok.mp h
    obtain ⟨values, hvalues, h⟩ := Except.bind_eq_ok.mp h
    cases h
    rintro _ ⟨⟩
    exact (resultValues_hasFields hvalues).mono (by simp [staticFields])
  · cases h
    rintro _ ⟨⟩

theorem rsiStep_fields {selected : ℕ} {averages averages' : Option (F × F)} {past : List F} {close : F}
    {y : Option (Values F)} (h : rsiStep selected averages past close = .ok (averages', y)) :
    ∀ values ∈ y, HasFields (staticFields .rsi) values := by
  obtain ⟨result, -, h⟩ := Except.bind_eq_ok.mp h
  cases result with
  | some result =>
    obtain ⟨values, hvalues, h⟩ := Except.bind_eq_ok.mp h
    cases h
    rintro _ ⟨⟩
    exact (resultValues_hasFields hvalues).mono (by simp [staticFields])
  | none =>
    cases h
    rintro _ ⟨⟩

theorem kdjStep_fields {selected kp dp : ℕ} {s s' : KdjState F} {past : List (Candle F)}
    {candle : Candle F} {y : Option (Values F)}
    (h : kdjStep selected kp dp s past candle = .ok (s', y)) :
    ∀ values ∈ y, HasFields (staticFields .kdj) values := by
  obtain ⟨high, low, -, -, h⟩ := kdjStep_eq_ok.mp h
  unfold kdjStepOf at h
  dsimp only at h
  split at h
  · cases h
    rintro _ ⟨⟩
  · obtain ⟨values, hvalues, h⟩ := Except.bind_eq_ok.mp h
    cases h
    rintro _ ⟨⟩
    exact (resultValues_hasFields hvalues).mono (by simp [staticFields])

theorem bollStep_fields {selected : ℕ} {multiplier : F} {sums sums' : F × F} {past : List F}
    {close : F} {y : Option (Values F)}
    (h : bollStep selected multiplier sums past close = .ok (sums', y)) :
    ∀ values ∈ y, HasFields (staticFields .boll) values := by
  unfold bollStep at h
  dsimp only at h
  split at h
  · obtain ⟨_, -, h⟩ := Except.bind_eq_ok.mp h
    obtain ⟨values, hvalues, h⟩ := Except.bind_eq_ok.mp h
    cases h
    rintro _ ⟨⟩
    exact (resultValues_hasFields hvalues).mono (by simp [staticFields])
  · cases h
    rintro _ ⟨⟩

theorem macdSeries_fields {fast slow signal : ℕ} {closes : List F} {out : List (Option (Values F))}
    (h : macdSeries fast slow signal closes = .ok out) :
    ∀ y ∈ out, ∀ values ∈ y, HasFields (staticFields .macd) values := by
  have hnone : ∀ y ∈ closes.map fun _ => (none : Option (Values F)), ∀ values ∈ y,
      HasFields (staticFields .macd) values := by
    intro y hy
    obtain ⟨_, -, rfl⟩ := List.mem_map.mp hy
    rintro _ ⟨⟩
  by_cases hfast : slow ≤ fast
  · rw [macdSeries, if_pos hfast] at h
    cases h
  by_cases hlen : closes.length < slow
  · rw [macdSeries, if_neg hfast, if_pos hlen] at h
    cases h
    exact hnone
  obtain ⟨fastValues, slowValues, -, -, ⟨-, rfl⟩ | ⟨-, signalValues, output, -, houtput, rfl⟩⟩ :=
    (macdSeries_eq_ok (by omega) (by omega)).mp h
  · exact hnone
  intro y hy
  rcases List.mem_append.mp hy with hy | hy
  · rw [List.eq_of_mem_replicate hy]
    rintro _ ⟨⟩
  · obtain ⟨⟨diff, dea⟩, -, hvalues⟩ := (mem_of_mapM houtput).mp hy
    cases dea with
    | none =>
      cases hvalues
      rintro _ ⟨⟩
    | some dea =>
      obtain ⟨values, hresult, rfl⟩ := Except.map_eq_ok.mp hvalues
      rintro _ ⟨⟩
      exact (resultValues_hasFields hresult).mono (by simp [staticFields])

theorem calculateSeries_fields {request : IndicatorRequest F} (hother : request.indicatorType ≠ .ma)
    {candles : List (Candle F)} {out : List (Option (Values F))}
    (h : calculateSeries request candles = .ok out) :
    ∀ y ∈ out, ∀ values ∈ y, HasFields (staticFields request.indicatorType) values := by
  cases request with
  | ma periods => exact absurd rfl hother
  | projectedMa period => exact forall_scanPast (fun _ _ _ _ _ => projectedMaStep_fields) h
  | rsi period => exact forall_scanPast (fun _ _ _ _ _ => rsiStep_fields) h
  | kdj period kPeriod dPeriod =>
    exact forall_scanPast (fun _ _ _ _ _ => kdjStep_fields) (kdjSeries_eq_ok.mp h).2
  | boll period multiplier =>
    unfold calculateSeries at h
    dsimp only at h
    split at h
    · exact forall_scanPast (fun _ _ _ _ _ => bollStep_fields) h
    · cases h
  | macd fast slow signal => exact macdSeries_fields h

theorem smaSeries_finite {period : Period} {closes : List F} {series : List (Option F)}
    (h : smaSeries period closes = .ok series) : ∀ y ∈ series, ∀ x ∈ y, Arith.isFinite x := by
  refine forall_scanPast (fun running past value running' y hstep => ?_) h
  unfold smaStep at hstep
  dsimp only at hstep
  split at hstep
  · obtain ⟨_, hresult, hstep⟩ := Except.bind_eq_ok.mp hstep
    cases hstep
    rintro _ ⟨⟩
    exact (resultValues_eq_ok.mp hresult).2 _ (List.mem_singleton_self _)
  · cases hstep
    rintro _ ⟨⟩

theorem maValues_finite {periods : List Period} {closes : List F} {out : List (Values F)}
    (h : maValues periods closes = .ok out) :
    ∀ values ∈ out, ∀ m ∈ values, Arith.isFinite m.2 := by
  induction periods generalizing out with
  | nil =>
    cases h
    intro values hvalues
    obtain ⟨_, -, rfl⟩ := List.mem_map.mp hvalues
    nofun
  | cons period periods ih =>
    obtain ⟨series, hseries, h⟩ := Except.bind_eq_ok.mp h
    obtain ⟨rest, hrest, rfl⟩ := Except.map_eq_ok.mp h
    intro values hvalues m hm
    obtain ⟨i, hi⟩ := List.mem_iff_getElem?.mp hvalues
    obtain ⟨result, values, hresult, hrestValues, rfl⟩ := List.getElem?_zipWith_eq_some.mp hi
    rcases List.mem_append.mp hm with hm | hm
    · obtain ⟨x, rfl, rfl⟩ := Option.map_eq_some_iff.mp (Option.mem_toList.mp hm)
      exact smaSeries_finite hseries _ (List.mem_of_getElem? hresult) x rfl
    · exact ih hrest _ (List.mem_of_getElem? hrestValues) m hm

theorem maSeries_field {periods : List Period} {closes : List F} {out : List (Option (Values F))}
    (h : maSeries periods closes = .ok out) {period : Period} (hperiod : period ∈ periods) {i : ℕ}
    (hi : i < out.length) (hbars : period.1 ≤ i + 1) :
    ∃ values, out[i]? = some (some values) ∧ HasFields [.ma period] values := by
  obtain ⟨maps, hmaps, rfl⟩ := Except.map_eq_ok.mp h
  rw [List.length_map] at hi
  obtain ⟨x, hmem⟩ := (mem_maValues hmaps hi period).mpr ⟨hperiod, hbars⟩
  have hne : ¬ maps[i].isEmpty := by
    rw [List.isEmpty_iff]
    exact List.ne_nil_of_mem hmem
  refine ⟨maps[i], ?_, ?_⟩
  · rw [List.getElem?_map, List.getElem?_eq_getElem hi, Option.map_some, if_neg hne]
  · intro field hfield
    cases List.mem_singleton.mp hfield
    obtain ⟨y, hlookup, hy⟩ := exists_lookup hmem
    exact ⟨y, hlookup, maValues_finite hmaps _ (List.getElem_mem hi) _ hy⟩

/-- From the bars on that a field needs, there are finite values for it. -/
theorem calculateSeries_field {request : IndicatorRequest F} {field : Field}
    (hfield : field ∈ request.fields) {candles : List (Candle F)} {out : List (Option (Values F))}
    (h : calculateSeries request candles = .ok out) {i : ℕ} (hi : i < out.length)
    (hbars : fieldBars request field ≤ i + 1) :
    ∃ values, out[i]? = some (some values) ∧ HasFields [field] values := by
  cases request with
  | ma periods =>
    obtain ⟨period, hperiod, rfl⟩ := List.mem_map.mp hfield
    exact maSeries_field h hperiod hi hbars
  | projectedMa | rsi | kdj | boll | macd =>
    obtain ⟨values, hvalues⟩ := Option.isSome_iff_exists.mp ((complete_iff h hi).mpr hbars)
    have hall := calculateSeries_fields (fun hma => by cases hma) h
      _ (List.getElem_mem hi) values hvalues
    refine ⟨values, ?_, hall.mono (List.cons_subset.mpr ⟨hfield, List.nil_subset _⟩)⟩
    rw [List.getElem?_eq_getElem hi, hvalues]

end Values

end Apanel
