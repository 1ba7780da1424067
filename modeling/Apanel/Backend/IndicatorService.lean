import Apanel.Indicators.WarmUp

/-!
# Indicator snapshots

`IndicatorService._materialize` (`app/services/indicator_service.py`). The snapshot rows of one date,
one for each indicator type, are kept together: they are always written and deleted together, and a
date has a row of a type exactly when it has a variant of that type.
-/

namespace Apanel

/-- The errors a Backend service raises; each aborts the transaction it is raised in. -/
inductive ApiError
  | indicatorDataNotFound
  | staleAnalysisTarget
  | stateDataNotFound
  | stateEventsNotReady
  | analysisRebuildPending
  | historyResultTooLarge
  | historyRangeTooLarge
  | invalidDateRange
  | calculation (error : CalculationError)
  deriving DecidableEq

/-- One logical parameterized result of a snapshot; its parameters are its key. -/
structure Variant (F : Type) where
  values : Values F
  previousValues : Option (Values F)
  delta : Option (Values F)

/-- The `_source` entry of a snapshot's parameters. -/
structure SourceMarker where
  revision : ℤ
  restatedThrough : Option Date
  deriving DecidableEq

abbrev Variants (F : Type) [LinearOrder (IndicatorRequest F)] := Table (IndicatorRequest F) (Variant F)

/-- The snapshot rows of one date. -/
structure SnapshotRow (F : Type) [LinearOrder (IndicatorRequest F)] where
  source : Option SourceMarker
  variants : Variants F

abbrev Snapshots (F : Type) [LinearOrder (IndicatorRequest F)] := Table Date (SnapshotRow F)

variable {F : Type} [Arith F] [LinearOrder (IndicatorRequest F)]

/-- `_delta`: the change of every value the previous map also has. -/
def delta (values : Values F) (previous : Option (Values F)) : Option (Values F) :=
  match previous with
  | none => none
  | some previous =>
    let result := values.filterMap fun (key, value) =>
      (previous.lookup key).map fun old => (key, value - old)
    if result.isEmpty then none else some result

/-- The items calculated for each bar, in request order. `series` is `_series_for_request`, or the
series without its `except` clause. -/
def itemsByBar
    (series : IndicatorRequest F → List (Candle F) →
      Except CalculationError (List (Option (Values F)))) :
    List (IndicatorRequest F) → List (Candle F) →
      Except CalculationError (List (List (IndicatorRequest F × Values F)))
  | [], candles => .ok (candles.map fun _ => [])
  | request :: requests, candles => do
    let results ← series request candles
    (List.zipWith (fun values items => (values.map (request, ·)).toList ++ items) results ·)
      <$> itemsByBar series requests candles

/-- The loop over the target dates: the variants of one date, each with the values of the previous
date on which it had any. -/
def variantsStep (previousValues : Table (IndicatorRequest F) (Values F))
    (_ : List (List (IndicatorRequest F × Values F)))
    (items : List (IndicatorRequest F × Values F)) :
    Except CalculationError (Table (IndicatorRequest F) (Values F) × Variants F) :=
  let variants := Table.ofList <| items.map fun (request, values) =>
    let prior := previousValues.get? request
    (request, { values, previousValues := prior, delta := delta values prior })
  .ok (previousValues.insertMany items, variants)

/-- The variants of every bar. -/
def variantsByBar
    (series : IndicatorRequest F → List (Candle F) →
      Except CalculationError (List (Option (Values F))))
    (requests : List (IndicatorRequest F)) (candles : List (Candle F)) :
    Except CalculationError (List (Variants F)) :=
  itemsByBar series requests candles >>= scanPast variantsStep ∅ []

/-- The bars given and their variants, for the dates that have any. -/
def recompute (requests : List (IndicatorRequest F)) (bars : Bars) :
    Except CalculationError (Table Date (Variants F)) := do
  let candles ← (bars.rows.map (·.2)).mapM Candle.ofBar
  let variants ← variantsByBar seriesForRequest requests candles
  return (bars.zipKeys variants).filterMap fun _ variants =>
    if variants.rows.isEmpty then none else some variants

/-- `IndicatorService._materialize` with `only_latest=False`, as `rebuild_history` calls it: the
payloads written and the snapshot table afterwards. -/
def rebuildIndicators (snapshots : Snapshots F) (bars : Bars)
    (requests : List (IndicatorRequest F)) (persistFrom last : Option Date)
    (source : Option SourceMarker) : Except ApiError (Table Date (Variants F) × Snapshots F) :=
  let bars := bars.window none last
  match bars.maxKey? with
  | none => .error .indicatorDataNotFound
  | some latestDate =>
    match recompute requests bars with
    | .error error => .error (.calculation error)
    | .ok variants =>
      let payloads := variants.window persistFrom none
      let kept := snapshots.filter fun day =>
        !(day ≤ last.getD latestDate && persistFrom.all (· ≤ day))
      .ok (payloads, kept.insertMany (payloads.rows.map fun row => (row.1, ⟨source, row.2⟩)))

theorem recompute_eq_ok {requests : List (IndicatorRequest F)} {bars : Bars}
    {t : Table Date (Variants F)} :
    recompute requests bars = .ok t ↔
      ∃ candles variants, (bars.rows.map (·.2)).mapM Candle.ofBar = .ok candles ∧
        variantsByBar seriesForRequest requests candles = .ok variants ∧
        t = (bars.zipKeys variants).filterMap fun _ variants =>
          if variants.rows.isEmpty then none else some variants := by
  rw [recompute, Except.bind_eq_ok]
  refine exists_congr fun candles => ?_
  rw [Except.bind_eq_ok, ← exists_and_left]
  refine exists_congr fun variants => and_congr_right fun _ => and_congr_right fun _ => ?_
  exact ⟨fun h => (Except.ok.inj h).symm, fun h => congrArg _ h.symm⟩

/-- A recomputed row belongs to a bar. -/
theorem recompute_keys {requests : List (IndicatorRequest F)} {bars : Bars}
    {t : Table Date (Variants F)} (h : recompute requests bars = .ok t) {day : Date}
    {variants : Variants F} (hday : t.get? day = some variants) : day ∈ bars.keys := by
  obtain ⟨_, _, -, -, rfl⟩ := recompute_eq_ok.mp h
  obtain ⟨_, hzip, -⟩ := Option.bind_eq_some_iff.mp ((Table.get?_filterMap ..).symm.trans hday)
  exact Table.mem_keys_of_zipKeys hzip

/-- What a rebuild writes: the recomputed variants in its range, and nothing outside of it. -/
theorem rebuildIndicators_eq_ok {snapshots snapshots' : Snapshots F} {bars : Bars}
    {requests : List (IndicatorRequest F)} {start : Option Date} {latest : Date}
    {source : Option SourceMarker} {payloads : Table Date (Variants F)}
    (h : rebuildIndicators snapshots bars requests start (some latest) source =
      .ok (payloads, snapshots')) :
    ∃ variants, recompute requests (bars.upTo latest) = .ok variants ∧
      payloads = variants.window start none ∧
      ∀ day, snapshots'.get? day =
        if day ≤ latest ∧ start.all (· ≤ day) then (variants.get? day).map (⟨source, ·⟩)
        else snapshots.get? day := by
  rw [rebuildIndicators, Table.window_none_some] at h
  split at h
  · cases h
  split at h
  · cases h
  next variants hvariants =>
  cases h
  refine ⟨variants, hvariants, rfl, fun day => ?_⟩
  have hlate (hday : ¬ day ≤ latest) : variants.get? day = none :=
    Option.eq_none_iff_forall_ne_some.mpr fun _ hv =>
      hday (Table.le_of_mem_upTo_keys (recompute_keys hvariants hv))
  rw [Table.get?_insertMany_rows, Table.get?_filter, Table.get?_window]
  by_cases hstart : start.all (· ≤ day) <;> by_cases hday : day ≤ latest <;>
    simp [hstart, hday, hlate]

/-! ## Causality -/

omit [Arith F] [LinearOrder (IndicatorRequest F)] in
theorem itemsByBar_causal
    {series : IndicatorRequest F → List (Candle F) →
      Except CalculationError (List (Option (Values F)))}
    (h : ∀ request, Causal (series request)) (requests : List (IndicatorRequest F)) :
    Causal (itemsByBar series requests) := by
  induction requests with
  | nil => exact .const []
  | cons request requests ih => exact (h request).zipWith ih _

theorem variantsByBar_causal (requests : List (IndicatorRequest F)) :
    Causal (variantsByBar calculateSeries requests) :=
  (itemsByBar_causal calculateSeries_causal requests).comp (scanPast_causal ..)

/-- No requested series over these bars is abandoned with an `IndicatorError`; those of MA never
are. -/
def Calculable (requests : List (IndicatorRequest F)) (bars : Bars) : Prop :=
  ∀ candles, (bars.rows.map (·.2)).mapM Candle.ofBar = .ok candles → ∀ request ∈ requests,
    ¬request.isMa → calculateSeries (F := F) request candles ≠ .error .indicatorError

instance [DecidableEq F] (requests : List (IndicatorRequest F)) (bars : Bars) :
    Decidable (Calculable requests bars) :=
  match h : (bars.rows.map (·.2)).mapM (m := Except CalculationError) Candle.ofBar with
  | .error _ => .isTrue <| by rw [Calculable, h]; nofun
  | .ok candles => decidable_of_iff
      (∀ request ∈ requests, request.isMa ∨
        calculateSeries (F := F) request candles ≠ .error .indicatorError) <| by
        simp [Calculable, h, or_iff_not_imp_left]

omit [LinearOrder (IndicatorRequest F)] in
theorem seriesForRequest_eq {request : IndicatorRequest F} {candles : List (Candle F)}
    (h : ¬request.isMa → calculateSeries request candles ≠ .error .indicatorError) :
    seriesForRequest request candles = calculateSeries request candles := by
  cases request with
  | ma periods => rfl
  | projectedMa | rsi | kdj | boll | macd =>
    have hcalculable := h Bool.false_ne_true
    unfold seriesForRequest
    split
    · rfl
    · next heq _ => exact absurd heq hcalculable
    · rfl

omit [LinearOrder (IndicatorRequest F)] in
/-- Where no series is abandoned, `_series_for_request` is the series itself. -/
theorem itemsByBar_eq {requests : List (IndicatorRequest F)} {candles : List (Candle F)}
    (h : ∀ request ∈ requests, ¬request.isMa →
      calculateSeries request candles ≠ .error .indicatorError) :
    itemsByBar seriesForRequest requests candles = itemsByBar calculateSeries requests candles := by
  induction requests with
  | nil => rfl
  | cons request requests ih =>
    have hreq := seriesForRequest_eq (h request List.mem_cons_self)
    rw [itemsByBar, itemsByBar, hreq, ih fun r hr => h r (List.mem_cons_of_mem _ hr)]

omit [LinearOrder (IndicatorRequest F)] in
/-- A calculation that succeeds leaves no series abandoned. -/
theorem itemsByBar_calculable {requests : List (IndicatorRequest F)} {candles : List (Candle F)}
    {items : List (List (IndicatorRequest F × Values F))}
    (h : itemsByBar calculateSeries requests candles = .ok items) :
    ∀ request ∈ requests, calculateSeries request candles ≠ .error .indicatorError := by
  induction requests generalizing items with
  | nil => simp
  | cons request requests ih =>
    obtain ⟨results, hr, h⟩ := Except.bind_eq_ok.mp h
    obtain ⟨items, hi, -⟩ := Except.map_eq_ok.mp h
    exact List.forall_mem_cons.mpr ⟨by rw [hr]; nofun, ih hi⟩

/-- The recomputation of an initial part of the bars is the initial part of the recomputation. -/
theorem recompute_upTo {requests : List (IndicatorRequest F)} {bars : Bars}
    {t : Table Date (Variants F)} (hcalc : Calculable requests bars)
    (h : recompute requests bars = .ok t) (last : Date) :
    Calculable requests (bars.upTo last) ∧
      recompute requests (bars.upTo last) = .ok (t.upTo last) := by
  obtain ⟨candles, variants, hcandles, hvariants, rfl⟩ := recompute_eq_ok.mp h
  have hsplit := bars.rows_eq_upTo_append last
  have hcandles' := hcandles
  rw [hsplit, List.map_append] at hcandles'
  replace hcandles' := (Causal.mapM _).take hcandles'
  rw [List.length_map] at hcandles'
  have hstrict : variantsByBar calculateSeries requests candles = .ok variants := by
    rwa [variantsByBar, ← itemsByBar_eq (hcalc _ hcandles)]
  rw [← List.take_append_drop (bars.upTo last).rows.length candles] at hstrict
  have htake := (variantsByBar_causal requests).take hstrict
  obtain ⟨items, hitems, -⟩ := Except.bind_eq_ok.mp htake
  have hcalc' : Calculable requests (bars.upTo last) := fun candles' hc request hrequest _ => by
    rw [hcandles'] at hc
    cases hc
    exact itemsByBar_calculable hitems request hrequest
  have hlen : (candles.take (bars.upTo last).rows.length).length =
      (bars.upTo last).rows.length := by
    rw [(Causal.mapM _).length hcandles', List.length_map]
  have hvariants' : variantsByBar seriesForRequest requests
      (candles.take (bars.upTo last).rows.length) =
        .ok (variants.take (bars.upTo last).rows.length) := by
    rw [variantsByBar,
      itemsByBar_eq fun request hrequest _ => itemsByBar_calculable hitems request hrequest]
    rwa [hlen] at htake
  refine ⟨hcalc', recompute_eq_ok.mpr ⟨_, _, hcandles', hvariants', ?_⟩⟩
  rw [← Table.upTo_zipKeys]
  exact Table.filter_filterMap _ _ _

/-! ## Persistence -/

omit [LinearOrder (IndicatorRequest F)] in
theorem itemsByBar_length {requests : List (IndicatorRequest F)} {candles : List (Candle F)}
    {out : List (List (IndicatorRequest F × Values F))}
    (h : itemsByBar seriesForRequest requests candles = .ok out) : out.length = candles.length := by
  induction requests generalizing out with
  | nil =>
    cases h
    exact List.length_map _
  | cons request requests ih =>
    obtain ⟨results, hresults, h⟩ := Except.bind_eq_ok.mp h
    obtain ⟨items, hitems, rfl⟩ := Except.map_eq_ok.mp h
    rw [List.length_zipWith, seriesForRequest_length hresults, ih hitems, min_self]

omit [LinearOrder (IndicatorRequest F)] in
theorem itemsByBar_grows {requests : List (IndicatorRequest F)} {candles : List (Candle F)}
    {out : List (List (IndicatorRequest F × Values F))}
    (h : itemsByBar seriesForRequest requests candles = .ok out) :
    out.Pairwise fun a b => ∀ request ∈ a.map (·.1), request ∈ b.map (·.1) := by
  induction requests generalizing out with
  | nil =>
    cases h
    exact List.pairwise_map.mpr (List.pairwise_of_forall fun _ _ _ hrequest => hrequest)
  | cons request requests ih =>
    obtain ⟨results, hresults, h⟩ := Except.bind_eq_ok.mp h
    obtain ⟨items, hitems, rfl⟩ := Except.map_eq_ok.mp h
    refine pairwise_zipWith _ (fun a b c d hab hcd => ?_) (seriesForRequest_warmsUp hresults)
      (ih hitems)
    intro r hr
    rw [List.map_append, List.mem_append] at hr ⊢
    refine hr.imp (fun hr => ?_) (hcd r)
    cases a with
    | none => cases hr
    | some values =>
      obtain ⟨values', rfl⟩ := Option.isSome_iff_exists.mp (hab rfl)
      exact hr

/-- The variants of a bar are those of its items, with their values. -/
theorem variantsByBar_items {previousValues : Table (IndicatorRequest F) (Values F)}
    {past items : List (List (IndicatorRequest F × Values F))} {out : List (Variants F)}
    (h : scanPast variantsStep previousValues past items = .ok out) :
    List.Forall₂ (fun items variants =>
      (∀ request, request ∈ variants.keys ↔ request ∈ items.map (·.1)) ∧
        ∀ request variant, variants.get? request = some variant → (request, variant.values) ∈ items)
      items out := by
  refine forall₂_scanPast (fun previousValues _ items _ variants hstep => ?_) h
  cases hstep
  refine ⟨fun request => ?_, fun request variant hvariant => ?_⟩
  · rw [Table.mem_keys_ofList, List.map_map]
    rfl
  · have hmem := (Table.of_get?_insertMany hvariant).resolve_right nofun
    obtain ⟨⟨_, values⟩, hitem, heq⟩ := List.mem_map.mp hmem
    cases heq
    exact hitem

theorem variantsByBar_length {requests : List (IndicatorRequest F)} {candles : List (Candle F)}
    {out : List (Variants F)} (h : variantsByBar seriesForRequest requests candles = .ok out) :
    out.length = candles.length := by
  obtain ⟨items, hitems, h⟩ := Except.bind_eq_ok.mp h
  rw [← (variantsByBar_items h).length_eq, itemsByBar_length hitems]

/-- A variant, once present, is present on every later bar. -/
theorem variantsByBar_grows {requests : List (IndicatorRequest F)} {candles : List (Candle F)}
    {out : List (Variants F)} (h : variantsByBar seriesForRequest requests candles = .ok out) :
    out.Pairwise fun a b => ∀ request ∈ a.keys, request ∈ b.keys := by
  obtain ⟨items, hitems, h⟩ := Except.bind_eq_ok.mp h
  refine pairwise_of_forall₂ (fun a b c d hac hbd hab request hrequest => ?_)
    (variantsByBar_items h) (itemsByBar_grows hitems)
  exact (hbd.1 request).mpr (hab request ((hac.1 request).mp hrequest))

/-- The variants of a recomputation persist: they are present on every later bar. -/
theorem recompute_persists {requests : List (IndicatorRequest F)} {bars : Bars}
    {t : Table Date (Variants F)} (h : recompute requests bars = .ok t) {day day' : Date}
    (hday : day < day') (hbar : day' ∈ bars.keys) {variants : Variants F}
    (hvariants : t.get? day = some variants) :
    ∃ variants', t.get? day' = some variants' ∧
      ∀ request ∈ variants.keys, request ∈ variants'.keys := by
  obtain ⟨candles, out, hcandles, hout, rfl⟩ := recompute_eq_ok.mp h
  rw [Table.get?_filterMap, Option.bind_eq_some_iff] at hvariants
  obtain ⟨v, hv, hsome⟩ := hvariants
  split at hsome
  · cases hsome
  next hne =>
  cases hsome
  have hgrows : (bars.keys.zip out).Pairwise fun r s =>
      r.1 < s.1 ∧ ∀ request ∈ r.2.keys, request ∈ s.2.keys :=
    pairwise_zipWith Prod.mk (fun _ _ _ _ hlt hsub => ⟨hlt, hsub⟩) bars.keys_sorted
      (variantsByBar_grows hout)
  -- every bar has its variants
  have hlen : out.length = bars.keys.length := by
    rw [variantsByBar_length hout, (Causal.mapM _).length hcandles, List.length_map, Table.keys,
      List.length_map]
  obtain ⟨v', hv'⟩ : ∃ v', (day', v') ∈ bars.keys.zip out := by
    have hmap : (bars.keys.zip out).map (·.1) = bars.keys := List.map_fst_zip hlen.ge
    rw [← hmap] at hbar
    obtain ⟨r, hr, rfl⟩ := List.mem_map.mp hbar
    exact ⟨r.2, hr⟩
  have hsub : ∀ request ∈ variants.keys, request ∈ v'.keys := by
    have hordered : ∀ r ∈ bars.keys.zip out, ∀ s ∈ bars.keys.zip out, r.1 < s.1 →
        ∀ request ∈ r.2.keys, request ∈ s.2.keys :=
      List.Pairwise.forall_of_forall_of_flip (fun r _ hlt => absurd hlt (lt_irrefl _))
        (hgrows.imp fun hrs _ => hrs.2) (hgrows.imp fun hrs hlt => absurd (hrs.1.trans hlt) (lt_irrefl _))
    exact hordered (day, variants) (Table.get?_eq_some.mp hv) (day', v') hv' hday
  refine ⟨v', ?_, hsub⟩
  rw [Table.get?_filterMap, Table.get?_eq_some.mpr hv', Option.bind_some]
  rw [if_neg]
  intro hempty
  obtain ⟨row, hrow⟩ := List.exists_mem_of_ne_nil variants.rows (by simpa using hne)
  have hmem := hsub row.1 (List.mem_map_of_mem hrow)
  rw [Table.keys, List.isEmpty_iff.mp hempty] at hmem
  cases hmem

/-! ## Presence -/

/-- The series of a request has these values on a bar. -/
def ValueAt (request : IndicatorRequest F) (candles : List (Candle F)) (i : ℕ) (values : Values F) :
    Prop :=
  ∃ out, seriesForRequest request candles = .ok out ∧ out[i]? = some (some values)

/-- The series of a request over these bars has these values on a date. -/
def ValueOn (request : IndicatorRequest F) (bars : Bars) (day : Date) (values : Values F) : Prop :=
  ∃ candles i bar, (bars.rows.map (·.2)).mapM Candle.ofBar = .ok candles ∧
    bars.rows[i]? = some (day, bar) ∧ ValueAt request candles i values

omit [LinearOrder (IndicatorRequest F)] in
theorem ValueAt.unique {request : IndicatorRequest F} {candles : List (Candle F)} {i : ℕ}
    {values values' : Values F} (h : ValueAt request candles i values)
    (h' : ValueAt request candles i values') : values = values' := by
  obtain ⟨out, hout, hvalues⟩ := h
  obtain ⟨out', hout', hvalues'⟩ := h'
  cases hout.symm.trans hout'
  cases hvalues.symm.trans hvalues'
  rfl

omit [LinearOrder (IndicatorRequest F)] in
theorem mem_itemsByBar {requests : List (IndicatorRequest F)} {candles : List (Candle F)}
    {out : List (List (IndicatorRequest F × Values F))}
    (h : itemsByBar seriesForRequest requests candles = .ok out) {i : ℕ}
    {items : List (IndicatorRequest F × Values F)} (hitems : out[i]? = some items)
    (request : IndicatorRequest F) (values : Values F) :
    (request, values) ∈ items ↔ request ∈ requests ∧ ValueAt request candles i values := by
  induction requests generalizing out items with
  | nil =>
    cases h
    rw [List.getElem?_map, Option.map_eq_some_iff] at hitems
    obtain ⟨_, -, rfl⟩ := hitems
    simp
  | cons first requests ih =>
    obtain ⟨results, hresults, h⟩ := Except.bind_eq_ok.mp h
    obtain ⟨rest, hrest, rfl⟩ := Except.map_eq_ok.mp h
    obtain ⟨result, items, hresult, hrestItems, rfl⟩ := List.getElem?_zipWith_eq_some.mp hitems
    have hfirst : (request, values) ∈ (result.map (first, ·)).toList ↔
        request = first ∧ ValueAt request candles i values := by
      cases result with
      | none =>
        refine iff_of_false nofun ?_
        rintro ⟨rfl, out, hout, hvalue⟩
        cases hresults.symm.trans hout
        cases hresult.symm.trans hvalue
      | some result =>
        rw [Option.map_some, Option.toList_some, List.mem_singleton]
        constructor
        · intro heq
          cases heq
          exact ⟨rfl, results, hresults, hresult⟩
        · rintro ⟨rfl, hvalue⟩
          rw [hvalue.unique ⟨results, hresults, hresult⟩]
    rw [List.mem_append, hfirst, ih hrest hrestItems, List.mem_cons, or_and_right]

theorem mem_variantsByBar {requests : List (IndicatorRequest F)} {candles : List (Candle F)}
    {out : List (Variants F)} (h : variantsByBar seriesForRequest requests candles = .ok out) {i : ℕ}
    {variants : Variants F} (hvariants : out[i]? = some variants) (request : IndicatorRequest F)
    (values : Values F) :
    (∃ variant, variants.get? request = some variant ∧ variant.values = values) ↔
      request ∈ requests ∧ ValueAt request candles i values := by
  obtain ⟨items, hitems, hscan⟩ := Except.bind_eq_ok.mp h
  have hall := variantsByBar_items hscan
  obtain ⟨hi, rfl⟩ := List.getElem?_eq_some_iff.mp hvariants
  have hi' : i < items.length := hall.length_eq ▸ hi
  obtain ⟨hkeys, hvalues⟩ := hall.get hi' hi
  have hmem := mem_itemsByBar hitems (List.getElem?_eq_getElem hi') request
  constructor
  · rintro ⟨variant, hvariant, rfl⟩
    exact (hmem _).mp (hvalues request variant hvariant)
  · intro hrequest
    have hkey : request ∈ items[i].map (·.1) := List.mem_map_of_mem ((hmem values).mpr hrequest)
    obtain ⟨variant, hvariant⟩ := Table.mem_keys.mp ((hkeys request).mpr hkey)
    have hvalue := ((hmem _).mp (hvalues request variant hvariant)).2
    exact ⟨variant, hvariant, hvalue.unique hrequest.2⟩

/-- A recomputation has a variant exactly where the series of its request has values. -/
theorem mem_recompute {requests : List (IndicatorRequest F)} {bars : Bars}
    {t : Table Date (Variants F)} (h : recompute requests bars = .ok t) {request : IndicatorRequest F}
    {day : Date} {values : Values F} :
    (∃ variants variant, t.get? day = some variants ∧ variants.get? request = some variant ∧
      variant.values = values) ↔ request ∈ requests ∧ ValueOn request bars day values := by
  obtain ⟨candles, out, hcandles, hout, rfl⟩ := recompute_eq_ok.mp h
  constructor
  · rintro ⟨variants, variant, hvariants, hvariant⟩
    rw [Table.get?_filterMap, Option.bind_eq_some_iff] at hvariants
    obtain ⟨_, hzip, hsome⟩ := hvariants
    split at hsome
    · cases hsome
    cases hsome
    obtain ⟨i, hi⟩ := List.mem_iff_getElem?.mp (Table.get?_eq_some.mp hzip)
    obtain ⟨hday, hi⟩ := List.getElem?_zip_eq_some.mp hi
    rw [Table.keys, List.getElem?_map, Option.map_eq_some_iff] at hday
    obtain ⟨⟨_, bar⟩, hbar, rfl⟩ := hday
    obtain ⟨hmem, hvalue⟩ := (mem_variantsByBar hout hi request values).mp ⟨variant, hvariant⟩
    exact ⟨hmem, candles, i, bar, hcandles, hbar, hvalue⟩
  · rintro ⟨hrequest, candles', i, bar, hcandles', hbar, hvalue⟩
    cases hcandles.symm.trans hcandles'
    have hi : i < out.length := by
      rw [variantsByBar_length hout, (Causal.mapM _).length hcandles, List.length_map]
      exact (List.getElem?_eq_some_iff.mp hbar).1
    have hout' : out[i]? = some out[i] := List.getElem?_eq_getElem hi
    obtain ⟨variant, hvariant⟩ :=
      (mem_variantsByBar hout hout' request values).mpr ⟨hrequest, hvalue⟩
    have hzip : (bars.zipKeys out).get? day = some out[i] := by
      refine Table.get?_eq_some.mpr (List.mem_iff_getElem?.mpr ⟨i, ?_⟩)
      refine List.getElem?_zip_eq_some.mpr ⟨?_, hout'⟩
      rw [Table.keys, List.getElem?_map, hbar]
      rfl
    refine ⟨out[i], variant, ?_, hvariant⟩
    rw [Table.get?_filterMap, hzip, Option.bind_some, if_neg]
    intro hempty
    have hrow := Table.get?_eq_some.mp hvariant.1
    rw [List.isEmpty_iff.mp hempty] at hrow
    cases hrow

end Apanel
