import Apanel.Backend.Analysis

/-!
# Freshness of the published indicators

`dirty_from` is a lower bound of every day whose bar changed since the last publication, and the
stored snapshots are the recomputation of the bars as they were then. A rebuild from a date at or
before the changes therefore leaves the recomputation of the current bars, as long as no calculation
is abandoned: an `IndicatorError` blanks the days a rebuild writes and leaves the older ones.
-/

namespace Apanel

variable {F R : Type} [Arith F] [DecidableEq F] [LinearOrder (IndicatorRequest F)]
  [LinearOrder (Target F)] [DecidableEq R]

/-- The snapshots of a store are the recomputation of some bars, without provenance. -/
def Snapshots.variants (snapshots : Snapshots F) : Table Date (Variants F) :=
  snapshots.filterMap fun _ row => some row.variants

@[simp] theorem Snapshots.get?_variants (snapshots : Snapshots F) (day : Date) :
    snapshots.variants.get? day = (snapshots.get? day).map (·.variants) := by
  simp [Snapshots.variants, Option.map_eq_bind]

/-- What a published stream says about its snapshots: they are the recomputation of the bars
published last, for the requests its demand key stands for. -/
structure PublishedSnapshots (published : Bars) (s : Series F R)
    (effective : List (IndicatorRequest F)) (through : Date) : Prop where
  indicatorThrough : s.store.stream.indicatorThrough = some through
  stateThrough : s.store.stream.stateThrough = some through
  demandKey : s.store.stream.demandKey = some (demandKey effective)
  merged : ∃ requests, effective = mergeIndicatorRequests requests
  demanded : s.store.stream.publishedDemandGeneration = s.store.stream.demandGeneration →
    effective = mergeIndicatorRequests s.demanded
  through_le : ∀ day ∈ published.keys, day ≤ through
  calculable : Calculable effective published
  recomputed : recompute effective published = .ok s.store.snapshots.variants

/-- The invariant of a run: the bars differ from those published last only where the stream is
dirty. -/
structure Fresh (published : Bars) (s : Series F R) : Prop where
  latest : ∀ day ∈ s.store.bars.keys, ∃ l, s.store.stream.latestBarDate = some l ∧ day ≤ l
  agrees (day) : s.store.bars.get? day = published.get? day ∨
    ∃ dirtyFrom, s.store.stream.dirtyFrom = some dirtyFrom ∧ dirtyFrom ≤ day
  revision : 0 ≤ s.store.stream.sourceRevision
  generation : s.store.stream.publishedDemandGeneration ≤ s.store.stream.demandGeneration
  unpublished : s.store.stream.publishedRevision < 0 → published = ∅ ∧ s.store.snapshots = ∅
  published : 0 ≤ s.store.stream.publishedRevision →
    ∃ effective through, PublishedSnapshots published s effective through

/-- The materializations a run may contain: no demanded calculation over the bars up to the cutoff
is abandoned with an `IndicatorError`. -/
def calculableStep (s : Series F R) : SeriesAction F R → Prop
  | .materialize _ _ cutoff _ =>
    Calculable (mergeIndicatorRequests s.demanded) (s.store.bars.window none cutoff)
  | _ => True

instance (s : Series F R) (a : SeriesAction F R) : Decidable (calculableStep s a) :=
  match a with
  | .materialize _ _ cutoff _ => inferInstanceAs <| Decidable <|
    Calculable (mergeIndicatorRequests s.demanded) (s.store.bars.window none cutoff)
  | .upsert _ _ | .reconcile _ _ _ _ | .configure _ => inferInstanceAs (Decidable True)

omit [DecidableEq F] [DecidableEq R] in
theorem Fresh.initial (demanded : List (IndicatorRequest F)) :
    Fresh ∅ (Series.initial (R := R) demanded) where
  latest day h := by simp [Series.initial, Table.mem_keys] at h
  agrees day := .inl rfl
  revision := le_rfl
  generation := show (-1 : ℤ) ≤ 0 by decide
  unpublished _ := ⟨rfl, rfl⟩
  published h := absurd (show (0 : ℤ) ≤ -1 from h) (by decide)

omit [DecidableEq F] [DecidableEq R] in
/-- A fact commit leaves the published snapshots alone and marks what it changes. -/
theorem Fresh.withFacts {published : Bars} {s : Series F R} (hs : Fresh published s)
    {facts : SeriesFacts (DemandKey F) R} (h : FactsChange s.facts facts) :
    Fresh published (s.withFacts facts) := by
  obtain ⟨sourceRevision, dirtyFrom, latestBarDate, hstream⟩ := h.stream
  refine
    { latest := h.latest hs.latest
      agrees := fun day => ?_
      revision := hs.revision.trans h.revision
      generation := ?_, unpublished := ?_, published := ?_ }
  · rcases h.changed day with heq | hdirty
    · rcases hs.agrees day with hag | ⟨d, hd, hle⟩
      · exact .inl (heq.trans hag)
      · obtain ⟨d', hle', hd'⟩ := h.dirty hd
        exact .inr ⟨d', hd', hle'.trans hle⟩
    · exact .inr hdirty
  · simpa [Series.withFacts, hstream, Series.facts] using hs.generation
  · simpa [Series.withFacts, hstream, Series.facts] using hs.unpublished
  · intro hpub
    obtain ⟨effective, through, hp⟩ := hs.published (by
      simpa [Series.withFacts, hstream, Series.facts] using hpub)
    refine ⟨effective, through, ?_, ?_, ?_, hp.merged, ?_, hp.through_le, hp.calculable,
      hp.recomputed⟩
    · simpa [Series.withFacts, hstream, Series.facts] using hp.indicatorThrough
    · simpa [Series.withFacts, hstream, Series.facts] using hp.stateThrough
    · simpa [Series.withFacts, hstream, Series.facts] using hp.demandKey
    · simpa [Series.withFacts, hstream, Series.facts] using hp.demanded

/-- A configuration commit outdates the published demand. -/
theorem Fresh.configure {published : Bars} {s : Series F R} (hs : Fresh published s)
    (demanded : List (IndicatorRequest F)) :
    Fresh published (s.step (.configure demanded)) where
  latest := hs.latest
  agrees := hs.agrees
  revision := hs.revision
  generation := hs.generation.trans (Int.le_add_one le_rfl)
  unpublished := hs.unpublished
  published h := by
    obtain ⟨effective, through, hp⟩ := hs.published h
    refine ⟨effective, through, hp.indicatorThrough, hp.stateThrough, hp.demandKey, hp.merged,
      fun hgen => ?_, hp.through_le, hp.calculable, hp.recomputed⟩
    have hle := hs.generation
    simp only [Series.step, AnalysisStream.markDemandChanged] at hgen
    omega

omit [DecidableEq F] [LinearOrder (Target F)] in
/-- Where two sets of bars agree below `start` and calculations on neither are abandoned, their
recomputations agree below `start`. -/
theorem recompute_before {effective : List (IndicatorRequest F)} {bars bars' : Bars}
    {t t' : Table Date (Variants F)} (hcalc : Calculable effective bars)
    (hcalc' : Calculable effective bars') (h : recompute effective bars = .ok t)
    (h' : recompute effective bars' = .ok t') {start : Date}
    (hbars : ∀ day < start, bars.get? day = bars'.get? day) {day : Date} (hday : day < start) :
    t.get? day = t'.get? day := by
  have hupTo : bars.upTo (start - 1) = bars'.upTo (start - 1) :=
    Table.ext_get? fun d => by
      simp only [Table.get?_upTo]
      split
      · exact hbars d (by lia)
      · rfl
  have heq : t.upTo (start - 1) = t'.upTo (start - 1) := by
    have := (recompute_upTo hcalc h (start - 1)).2
    rw [hupTo, (recompute_upTo hcalc' h' (start - 1)).2] at this
    exact (Except.ok.inj this).symm
  have := congrArg (·.get? day) heq
  simpa [show day ≤ start - 1 by lia] using this

/-- The snapshots a rebuild leaves are the recomputation of the bars it read: those it did not
write are the recomputation of bars that did not change. -/
theorem recompute_of_rebuild {snapshots snapshots' : Snapshots F} {bars published : Bars}
    {effective : List (IndicatorRequest F)} {start : Option Date} {latest : Date}
    {source : Option SourceMarker} {payloads : Table Date (Variants F)}
    (h : rebuildIndicators snapshots bars effective start (some latest) source =
      .ok (payloads, snapshots'))
    (hcalc : Calculable effective (bars.upTo latest))
    (hlatest : ∀ day, latest < day → snapshots.get? day = none)
    (hold : ∀ first, start = some first → Calculable effective published ∧
      recompute effective published = .ok snapshots.variants ∧
      ∀ day < first, (bars.upTo latest).get? day = published.get? day) :
    recompute effective (bars.upTo latest) = .ok snapshots'.variants := by
  obtain ⟨variants, hvariants, -, hget⟩ := rebuildIndicators_eq_ok h
  rw [hvariants]
  refine congrArg _ (Table.ext_get? fun day => ?_)
  rw [Snapshots.get?_variants, hget]
  by_cases hday : day ≤ latest
  swap
  · have hnone : variants.get? day = none := Option.eq_none_iff_forall_ne_some.mpr fun _ hv =>
      hday (Table.le_of_mem_upTo_keys (recompute_keys hvariants hv))
    simp [hday, hnone, hlatest day (not_le.mp hday)]
  by_cases hstart : start.all (· ≤ day)
  · rw [if_pos ⟨hday, hstart⟩]
    cases variants.get? day <;> rfl
  · rw [if_neg fun h => hstart h.2]
    obtain ⟨first, rfl, hfirst⟩ : ∃ first, start = some first ∧ day < first := by
      cases start with
      | none => simp at hstart
      | some first => exact ⟨first, rfl, by simpa using hstart⟩
    obtain ⟨hcalc', hrec, hbars⟩ := hold first rfl
    rw [recompute_before hcalc hcalc' hvariants hrec hbars hfirst, Snapshots.get?_variants]

omit [Arith F] [DecidableEq F] in
/-- The plan of a materialization: an up-to-date publication is for the same demand, and a partial
rebuild starts at `dirty_from`, or anywhere when nothing is dirty. -/
theorem planMaterialize_upToDate {store : AnalysisStore F} {key : DemandKey F} {force : Bool}
    {first latest : Date} (h : planMaterialize store key force first latest = .upToDate) :
    store.stream.demandKey = some key ∧ 0 ≤ store.stream.publishedRevision ∧
      store.stream.dirtyFrom = none := by
  simp only [planMaterialize] at h
  split at h
  · cases h
  next hne =>
  simp only [Bool.or_eq_true, decide_eq_true_eq, not_or, not_lt, ne_eq, not_not] at hne
  split at h
  · cases h
  next hdirty => exact ⟨hne.1.2, hne.2, hdirty⟩

omit [Arith F] [DecidableEq F] in
theorem planMaterialize_start {store : AnalysisStore F} {key : DemandKey F} {force : Bool}
    {first latest start : Date}
    (h : planMaterialize store key force first latest = .rebuild (some start)) :
    store.stream.demandKey = some key ∧ 0 ≤ store.stream.publishedRevision ∧
      (store.stream.dirtyFrom = none ∨ store.stream.dirtyFrom = some start) := by
  simp only [planMaterialize] at h
  split at h
  · cases h
  next hne =>
  simp only [Bool.or_eq_true, decide_eq_true_eq, not_or, not_lt, ne_eq, not_not] at hne
  refine ⟨hne.1.2, hne.2, ?_⟩
  split at h
  · next dirtyFrom hdirty =>
    cases h
    exact .inr hdirty
  · next hdirty => exact .inl hdirty

omit [DecidableEq F] [DecidableEq R] in
/-- Where nothing is dirty, the bars are those published. -/
theorem Fresh.bars_eq {published : Bars} {s : Series F R} (hs : Fresh published s)
    (hclean : s.store.stream.dirtyFrom = none) : s.store.bars = published :=
  Table.ext_get? fun day => (hs.agrees day).resolve_right fun ⟨_, hd, _⟩ => by
    rw [hclean] at hd
    cases hd

omit [DecidableEq F] [DecidableEq R] in
/-- An up-to-date publication has published the bars up to its latest bar. -/
theorem Fresh.upTo_eq {published : Bars} {s : Series F R} (hs : Fresh published s)
    (hclean : s.store.stream.dirtyFrom = none) (hpub : 0 ≤ s.store.stream.publishedRevision)
    {latest : Date} (hstale : s.store.stream.stateThrough.all (· ≤ latest)) :
    s.store.bars.upTo latest = published := by
  obtain ⟨effective, through, hp⟩ := hs.published hpub
  have hle : through ≤ latest := by simpa [hp.stateThrough] using hstale
  refine Table.ext_get? fun day => ?_
  rw [hs.bars_eq hclean, Table.get?_upTo]
  split
  · rfl
  next hgt =>
  exact (Option.eq_none_iff_forall_ne_some.mpr fun _ hv =>
    hgt ((hp.through_le day (Table.mem_keys.mpr ⟨_, hv⟩)).trans hle)).symm

omit [DecidableEq R] in
/-- A materialization publishes the recomputation of the bars up to its latest bar. -/
theorem Fresh.materialize {published : Bars} {s : Series F R} (hs : Fresh published s)
    {calendar : Calendar} {withDemand : Bool} {cutoff : Option Date} {forceHistory : Bool}
    (hcalc : calculableStep s (.materialize calendar withDemand cutoff forceHistory))
    {result : AnalysisResult} {store : AnalysisStore F}
    (hok : s.materialize calendar withDemand cutoff forceHistory = .ok (result, store)) :
    Fresh (s.store.bars.window none cutoff) { s with store } := by
  obtain ⟨first, latest, -, hlatest, hstale, hplan⟩ := Series.materialize_eq_ok hok
  have hwindow := Table.window_eq_upTo hlatest
  obtain ⟨hplan, rfl⟩ | ⟨start, indicators, states, hplan, hrebuild⟩ := hplan
  · obtain ⟨hkey, hpub, hclean⟩ := planMaterialize_upToDate hplan
    obtain ⟨effective, through, hp⟩ := hs.published hpub
    rw [hwindow, hs.upTo_eq hclean hpub hstale]
    refine ⟨hs.latest, hs.agrees, hs.revision, le_rfl, hs.unpublished, fun _ =>
      ⟨effective, through, hp.indicatorThrough, hp.stateThrough, hp.demandKey, hp.merged, ?_,
        hp.through_le, hp.calculable, hp.recomputed⟩⟩
    intro _
    obtain ⟨requests, rfl⟩ := hp.merged
    exact mergeIndicatorRequests_eq_of_demandKey_eq
      (Option.some.inj (hp.demandKey.symm.trans hkey))
  obtain ⟨payloads, source, rows, persistFrom, stream, stream', hindicators, -, -, hsame, hstream,
    hbars⟩ := rebuildSeries_eq_ok hrebuild
  obtain ⟨stateGeneration, eventSequence, stateThrough, rfl⟩ := hsame
  simp only [calculableStep, hwindow] at hcalc
  -- a published stream is published at or before the latest bar read
  have hthrough (day : Date) (hday : latest < day) :
      s.store.snapshots.get? day = none ∧ published.get? day = none := by
    rcases lt_or_ge s.store.stream.publishedRevision 0 with hpub | hpub
    · obtain ⟨rfl, hsnap⟩ := hs.unpublished hpub
      simp [hsnap]
    · obtain ⟨effective, through, hp⟩ := hs.published hpub
      have hle : through ≤ latest := by simpa [hp.stateThrough] using hstale
      have hnone : published.get? day = none := Option.eq_none_iff_forall_ne_some.mpr fun _ hv => by
        have := hp.through_le day (Table.mem_keys.mpr ⟨_, hv⟩)
        order
      refine ⟨?_, hnone⟩
      cases hsnap : s.store.snapshots.get? day with
      | none => rfl
      | some row =>
        have hrow : s.store.snapshots.variants.get? day = some row.variants := by simp [hsnap]
        obtain ⟨_, hv⟩ := Table.mem_keys.mp (recompute_keys hp.recomputed hrow)
        rw [hnone] at hv
        cases hv
  have hrecomputed := recompute_of_rebuild hindicators hcalc (fun day hday => (hthrough day hday).1)
    fun start hstart => by
      subst hstart
      obtain ⟨hkey, hpub, hdirty⟩ := planMaterialize_start hplan
      obtain ⟨effective, through, hp⟩ := hs.published hpub
      obtain ⟨requests, rfl⟩ := hp.merged
      have heq := mergeIndicatorRequests_eq_of_demandKey_eq
        (Option.some.inj (hp.demandKey.symm.trans hkey))
      refine ⟨heq ▸ hp.calculable, heq ▸ hp.recomputed, fun day hday => ?_⟩
      rw [Table.get?_upTo]
      split
      · rcases hs.agrees day with hag | ⟨d, hd, hle⟩
        · exact hag
        · rcases hdirty with hnone | hsome
          · rw [hd] at hnone; cases hnone
          · rw [hd] at hsome; cases hsome; order
      · next hgt => exact (hthrough day (not_le.mp hgt)).2.symm
  have hbound (day : Date) (hday : latest < day) (hkey : day ∈ s.store.bars.keys) :
      ¬max (s.store.stream.latestBarDate.getD latest) latest ≤ latest := by
    obtain ⟨l, hl, hle⟩ := hs.latest day hkey
    rw [hl, max_le_iff]
    exact fun h => absurd (hle.trans h.1) (not_le.mpr hday)
  rw [hwindow]
  refine
    { latest := fun day hday => ?_
      agrees := fun day => ?_
      revision := ?_, generation := ?_, unpublished := fun h => ?_, published := fun _ => ?_ }
  · rw [hbars] at hday
    obtain ⟨l, hl, hle⟩ := hs.latest day hday
    exact ⟨_, by rw [hstream]; rfl, hle.trans (by simp [hl])⟩
  · rw [hbars, hstream, Table.get?_upTo]
    split
    · exact .inl rfl
    next hgt =>
    -- a day after the cutoff stays dirty
    by_cases hkey : day ∈ s.store.bars.keys
    · rcases hs.agrees day with hag | hdirty
      · rw [(hthrough day (not_le.mp hgt)).2] at hag
        exact .inl hag
      · right
        simp only [publishWatermarks]
        rw [if_neg (hbound day (not_le.mp hgt) hkey)]
        exact hdirty
    · exact .inl (Option.eq_none_iff_forall_ne_some.mpr fun _ hv =>
        hkey (Table.mem_keys.mpr ⟨_, hv⟩))
  · rw [hstream]
    exact hs.revision
  · rw [hstream]
    exact le_rfl
  · rw [hstream] at h
    exact absurd hs.revision (not_le.mpr h)
  · refine ⟨mergeIndicatorRequests s.demanded, latest, ?_, ?_, ?_, ⟨_, rfl⟩, fun _ => rfl, ?_, hcalc,
      hrecomputed⟩
    · rw [hstream]; rfl
    · rw [hstream]; rfl
    · rw [hstream]; rfl
    · exact fun day => Table.le_of_mem_upTo_keys

/-- Every admissible transaction keeps the invariant. -/
theorem Fresh.step {s : Series F R} (hs : ∃ published, Fresh published s) (a : SeriesAction F R)
    (ha : calculableStep s a) : ∃ published, Fresh published (s.step a) := by
  obtain ⟨published, hs⟩ := hs
  cases a with
  | upsert records revision =>
    simp only [Series.step]
    split
    · exact ⟨published, hs⟩
    · exact ⟨published, hs.withFacts (s.facts.applyUpsert_factsChange records revision)⟩
  | reconcile records coverageStart coverageEnd revision =>
    simp only [Series.step]
    split
    · next h => exact ⟨published, hs.withFacts (s.facts.applyReconcile_factsChange h revision)⟩
    · exact ⟨published, hs⟩
  | configure demanded => exact ⟨published, hs.configure demanded⟩
  | materialize calendar withDemand cutoff forceHistory =>
    simp only [Series.step]
    split
    · exact ⟨published, hs⟩
    · next hok => exact ⟨_, hs.materialize ha hok⟩

/-- What the publication of a stream claims: through `indicator_through`, the snapshots are one
recomputation of the current bars for the current demand. -/
def Series.PublishedFresh (s : Series F R) : Prop :=
  0 ≤ s.store.stream.publishedRevision → s.store.stream.publicationIsCurrent →
    ∃ through variants, s.store.stream.indicatorThrough = some through ∧
      recompute (mergeIndicatorRequests s.demanded) (s.store.bars.upTo through) = .ok variants ∧
      ∀ day ≤ through, (s.store.snapshots.get? day).map (·.variants) = variants.get? day

omit [DecidableEq R] in
theorem Fresh.publishedFresh {published : Bars} {s : Series F R} (hs : Fresh published s) :
    s.PublishedFresh := by
  intro hpub hcurrent
  obtain ⟨effective, through, hp⟩ := hs.published hpub
  simp only [AnalysisStream.publicationIsCurrent, not_lt.mpr hpub, and_false, ↓reduceIte,
    Bool.and_eq_true, Option.isNone_iff_eq_none, decide_eq_true_eq] at hcurrent
  obtain ⟨⟨hclean, -⟩, hgeneration⟩ := hcurrent
  have hbars : s.store.bars.upTo through = published :=
    hs.upTo_eq hclean hpub (by simp [hp.stateThrough])
  refine ⟨through, s.store.snapshots.variants, hp.indicatorThrough, ?_, fun day _ => ?_⟩
  · rw [hbars, ← hp.demanded hgeneration]
    exact hp.recomputed
  · rw [Snapshots.get?_variants]

/-- In every state a run of calculable materializations reaches, a publication that claims to be
current is the recomputation of the current bars for the current demand. -/
theorem publication_fresh (demanded : List (IndicatorRequest F)) (actions : List (SeriesAction F R))
    (h : Always Series.step calculableStep (Series.initial demanded) actions) :
    (run Series.step (Series.initial (R := R) demanded) actions).PublishedFresh := by
  have hstep (s : Series F R) (a : SeriesAction F R) (hs : ∃ published, Fresh published s)
      (ha : calculableStep s a) : ∃ published, Fresh published (s.step a) := Fresh.step hs a ha
  obtain ⟨published, hs⟩ := run_invariant hstep ⟨∅, Fresh.initial demanded⟩ h
  exact hs.publishedFresh

/-! ## An abandoned calculation

Two days are published, then a third is appended. With the band multiplier `10 ^ 308` the upper band
of the third day is not finite: the whole series is abandoned, and the variant of the second day
stays, although a recomputation has none. -/

def flatBar (price : ℚ) : DailyBar := ⟨price, price, price, price, 0, none⟩

def bollRequest (multiplier : ℚ) : IndicatorRequest Ranged := .boll (Period.of 2) (some multiplier)

def appendedRun : List (SeriesAction Ranged Unit) :=
  [.upsert (Table.ofList [(1, flatBar 10), (2, flatBar 10)]) none,
   .materialize ∅ false none false,
   .upsert (Table.ofList [(3, flatBar 14)]) none,
   .materialize ∅ false none false]

theorem publication_fresh_appendedRun :
    (run Series.step (Series.initial [bollRequest 2]) appendedRun).PublishedFresh :=
  publication_fresh [bollRequest 2] appendedRun (by decide +kernel)

theorem not_publishedFresh_abandoned :
    ¬(run Series.step (Series.initial [bollRequest (10 ^ 308)]) appendedRun).PublishedFresh := by
  intro h
  obtain ⟨through, variants, hthrough, hvariants, hsnapshots⟩ :=
    h (by decide +kernel) (by decide +kernel)
  set s := run Series.step (Series.initial (R := Unit) [bollRequest (10 ^ 308)]) appendedRun with hs
  have hday : s.store.stream.indicatorThrough = some 3 := by rw [hs]; decide +kernel
  obtain rfl : 3 = through := Option.some.inj (hday.symm.trans hthrough)
  have hrow : ((s.store.snapshots.get? 2).map (·.variants)).isSome := by rw [hs]; decide +kernel
  have hnone : (recompute (mergeIndicatorRequests s.demanded) (s.store.bars.upTo 3)).toOption.all
      fun variants => (variants.get? 2).isNone := by rw [hs]; decide +kernel
  rw [hsnapshots 2 (by decide)] at hrow
  rw [hvariants] at hnone
  cases hv : variants.get? 2 <;> simp [hv, Except.toOption] at hrow hnone

end Apanel
