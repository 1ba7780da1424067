import Apanel.Hub.RangeSync

/-!
# Rebuild of a qfq history

What a changed adjustment revision does to a stored history, with eltdx as the provider. The fetch is
bounded by a number of bars and its result is checked against days: `rebuildsHistory_iff` says when
the two agree.
-/

namespace Apanel

/-! ## The newest rows reach a key -/

namespace Table

variable {κ α : Type} [LinearOrder κ]

/-- The rows before a key, and those from it on, of which it is the first. -/
theorem rows_eq_append_cons {t : Table κ α} {key : κ} {x : α} (hx : t.get? key = some x) :
    ∃ old new, t.rows = old ++ (key, x) :: new ∧ (t.filter (key ≤ ·)).rows = (key, x) :: new ∧
      ∀ row ∈ new, key < row.1 := by
  have hsplit := t.rows_eq_filter_append (p := (· < key)) fun k k' hlt hk' =>
    decide_eq_true (hlt.trans (of_decide_eq_true hk'))
  have hfrom : t.rows.filter (fun r => !decide (r.1 < key)) = (t.filter (key ≤ ·)).rows := by
    rw [rows_filter]
    refine List.filter_congr fun r _ => ?_
    rw [← decide_not, decide_eq_decide, not_lt]
  rw [hfrom] at hsplit
  have hmem : (key, x) ∈ (t.filter (key ≤ ·)).rows := by
    rw [← get?_eq_some, get?_filter, if_pos (by simp), hx]
  have hle : ∀ row ∈ (t.filter (key ≤ ·)).rows, key ≤ row.1 := fun row hrow => by
    simpa using (List.mem_filter.mp hrow).2
  have hsorted := (t.filter (key ≤ ·)).sorted
  cases hnew : (t.filter (key ≤ ·)).rows with
  | nil =>
    rw [hnew] at hmem
    cases hmem
  | cons row new =>
    rw [hnew] at hsplit hmem hle hsorted
    obtain ⟨hfirst, -⟩ := List.pairwise_cons.mp hsorted
    rcases List.mem_cons.mp hmem with heq | hmem
    · subst heq
      exact ⟨_, new, hsplit, rfl, hfirst⟩
    · exact absurd (hle row List.mem_cons_self) (not_le.mpr (hfirst _ hmem))

/-- The newest rows reach a key if and only if there are not more rows from the key on. -/
theorem mem_keys_takeLast {t : Table κ α} {key : κ} (hkey : key ∈ t.keys) {n : ℤ} (hn : 0 ≤ n) :
    key ∈ (t.takeLast n).keys ↔ ((t.filter (key ≤ ·)).rows.length : ℤ) ≤ n := by
  obtain ⟨x, hx⟩ := mem_keys.mp hkey
  obtain ⟨old, new, hrows, hfrom, hafter⟩ := rows_eq_append_cons hx
  have hnewest := t.rows_takeLast n
  rw [hrows, List.length_append, List.drop_append] at hnewest
  rw [hfrom, keys, hnewest, List.map_append, List.mem_append]
  constructor
  · intro hmem
    by_contra hgt
    rw [List.drop_eq_nil_of_le (by omega)] at hmem
    rw [show old.length + ((key, x) :: new).length - n.toNat - old.length =
      (new.length - n.toNat) + 1 by rw [List.length_cons] at hgt ⊢; omega,
      List.drop_succ_cons] at hmem
    rcases hmem with hmem | hmem
    · cases hmem
    · obtain ⟨row, hrow, heq⟩ := List.mem_map.mp hmem
      exact (hafter row (List.mem_of_mem_drop hrow)).ne' heq
  · intro hle
    right
    rw [show old.length + ((key, x) :: new).length - n.toNat - old.length = 0 by omega,
      List.drop_zero]
    exact List.mem_map.mpr ⟨(key, x), List.mem_cons_self, rfl⟩

/-- From a key on that is reached, nothing is missing. -/
theorem get?_takeLast_of_le {t : Table κ α} {n : ℤ} {key key' : κ}
    (hkey : key ∈ (t.takeLast n).keys) (hle : key ≤ key') :
    (t.takeLast n).get? key' = t.get? key' := by
  refine Option.ext fun x => ?_
  rw [get?_eq_some, get?_eq_some, rows_takeLast]
  refine ⟨List.mem_of_mem_drop, fun hmem => ?_⟩
  have hsplit := List.take_append_drop (t.rows.length - n.toNat) t.rows
  have hsorted := t.sorted
  rw [← hsplit, List.mem_append] at hmem
  rw [← hsplit, List.pairwise_append] at hsorted
  refine hmem.resolve_left fun hold => ?_
  rw [keys, rows_takeLast] at hkey
  obtain ⟨row, hrow, rfl⟩ := List.mem_map.mp hkey
  exact absurd (hsorted.2.2 _ hold row hrow) (not_lt.mpr hle)

theorem maxKey?_takeLast (t : Table κ α) {n : ℤ} (hn : 0 < n) :
    (t.takeLast n).maxKey? = t.maxKey? := by
  unfold maxKey? keys
  rw [rows_takeLast, List.getLast?_map, List.getLast?_map, List.getLast?_drop]
  split
  · next hle =>
    have hnil : t.rows = [] := List.eq_nil_of_length_eq_zero (by omega)
    rw [hnil]
    rfl
  · rfl

end Table

section Rebuild

variable {Symbol Code δ R : Type} [DecidableEq Symbol] [DecidableEq R] [ToString Symbol]

def incompleteCoverage : HubError :=
  ⟨.invalidMarketData, "qfq revision returned incomplete coverage"⟩

namespace SyncEnvironment

/-- A provider whose series of a symbol contains all its stored days, under a stable revision that
differs from the stored one, with an end at or after the newest stored day, and within the page
budget. No database call fails, and no other transaction touches the symbol. -/
structure ChangedRevision (env : SyncEnvironment Symbol δ R) (service : DailyBarSyncService)
    (request : SyncRequest) (p : EltdxProvider Symbol Code) (upstream : Symbol → Option Bars)
    (x : Symbol) (series : SecuritySeries δ R) (bars : Bars) (oldest newest : Date) (revision : R)
    (count : ℤ) : Prop where
  serves : p.Serves request.adjustment upstream
  window : env.provider.getDailyBarsWindow = some p.getDailyBarsWindow
  tracks : env.tracksRevisions service request
  noOutage : env.NoOutage
  quiet : env.Quiet x
  count_eq : request.count = .ok count
  upstream_eq : upstream x = some bars
  stable (sample : RevisionSample) : env.sampleRevision sample x = .ok revision
  changed : (series .qfq).descriptor.all (·.revisionHash ≠ revision)
  minKey_eq : (series .qfq).bars.minKey? = some oldest
  maxKey_eq : (series .qfq).bars.maxKey? = some newest
  contained : ∀ day ∈ (series .qfq).bars.keys, day ∈ bars.keys
  last : request.last.all (newest ≤ ·)
  budget : ¬ p.OverBudget (fullCount count (series .qfq).bars) request.last bars

variable {env : SyncEnvironment Symbol δ R} {service : DailyBarSyncService} {request : SyncRequest}
  {p : EltdxProvider Symbol Code} {upstream : Symbol → Option Bars} {x : Symbol}
  {series : SecuritySeries δ R} {bars : Bars} {oldest newest : Date} {revision : R} {count : ℤ}
  {a b : SyncRun Symbol δ R}

/-- The bars that a rebuild gets. -/
def rebuiltBars (request : SyncRequest) (count : ℤ) (existing bars : Bars) : Bars :=
  (bars.window none request.last).takeLast (fullCount count existing)

theorem fullCount_pos (count : ℤ) (existing : Bars) : 0 < fullCount count existing := by
  unfold fullCount
  omega

theorem Table.length_window_eq (bars : Bars) (first : Date) (last : Option Date) :
    (bars.window (some first) last).rows.length =
      ((bars.window none last).filter (first ≤ ·)).rows.length := by
  unfold Table.window
  rw [Table.rows_filter, Table.rows_filter, Table.rows_filter, List.filter_filter]
  simp

omit [DecidableEq Symbol] [DecidableEq R] [ToString Symbol] in
theorem rebuiltBars_cutoff :
    request.cutoff (rebuiltBars request count (series .qfq).bars bars) =
      rebuiltBars request count (series .qfq).bars bars := by
  refine Table.ext_get? fun day => ?_
  unfold SyncRequest.cutoff
  rw [Table.get?_filter]
  split
  · rfl
  · next hlate =>
    symm
    rw [Table.get?_eq_none]
    intro hday
    obtain ⟨bar, hbar⟩ := Table.mem_keys.mp hday
    have hmem := Table.get?_eq_some.mp hbar
    rw [rebuiltBars, Table.rows_takeLast] at hmem
    have hdated := Table.get?_eq_some.mpr (List.mem_of_mem_drop hmem)
    exact hlate (Table.mem_keys_window.mp (Table.mem_keys.mpr ⟨bar, hdated⟩)).2.2

namespace ChangedRevision

variable (h : env.ChangedRevision service request p upstream x series bars oldest newest revision
  count)

include h

omit [ToString Symbol] in
theorem oldest_le_newest : oldest ≤ newest :=
  Table.minKey?_le h.minKey_eq (Table.mem_keys_of_maxKey? h.maxKey_eq)

omit [ToString Symbol] in
theorem dated {day : Date} (hday : day ∈ (series .qfq).bars.keys) :
    day ∈ (bars.window none request.last).keys := by
  rw [Table.mem_keys_window]
  refine ⟨h.contained day hday, rfl, ?_⟩
  have hle := Table.le_maxKey? h.maxKey_eq hday
  have hlast := h.last
  cases hend : request.last with
  | none => rfl
  | some last =>
    rw [hend, Option.all_some, decide_eq_true_eq] at hlast
    exact decide_eq_true (hle.trans hlast)

omit [ToString Symbol] in
/-- Whether the fetch reaches the oldest stored day. -/
theorem reaches_iff : oldest ∈ (rebuiltBars request count (series .qfq).bars bars).keys ↔
    ((bars.window (some oldest) request.last).rows.length : ℤ) ≤
      fullCount count (series .qfq).bars := by
  rw [rebuiltBars, Table.mem_keys_takeLast (h.dated (Table.mem_keys_of_minKey? h.minKey_eq))
    (fullCount_pos _ _).le, Table.length_window_eq]

omit [ToString Symbol] in
theorem fetchBatch_eq :
    ∃ bySymbol, env.fetchBatch request (fullCount count (series .qfq).bars) [x] = .ok bySymbol ∧
      bySymbol x = some (EltdxProvider.barRecords x request.adjustment
        (rebuiltBars request count (series .qfq).bars bars)) := by
  have hbudget : ∀ symbol ∈ [x], ∀ bars' ∈ upstream symbol,
      ¬ p.OverBudget (fullCount count (series .qfq).bars) request.last bars' := by
    intro symbol hsymbol bars' hbars'
    cases List.mem_singleton.mp hsymbol
    cases h.upstream_eq.symm.trans hbars'
    exact h.budget
  have hanswer := (EltdxProvider.getDailyBarsWindow_eq h.serves [x]
    (fullCount_pos count (series .qfq).bars) request.last).2 hbudget
  have hfetch : env.fetchBatch request (fullCount count (series .qfq).bars) [x] =
      p.getDailyBarsWindow [x] request.adjustment (fullCount count (series .qfq).bars)
        request.last := by
    unfold fetchBatch
    rw [h.window]
  rw [hfetch, hanswer]
  refine ⟨_, rfl, ?_⟩
  rw [if_pos List.mem_cons_self, h.upstream_eq]
  rfl

/-- Nothing stands between the fetch and its checks. -/
theorem planRebuild_eq_check :
    env.planRebuild request count x revision (series .qfq).bars =
      env.checkRebuild request x revision (series .qfq).bars
        (rebuiltBars request count (series .qfq).bars bars) := by
  have hcutoff : ¬ request.last.any fun last =>
      (series .qfq).bars.maxKey?.any (last < ·) := by
    have hlast := h.last
    rw [h.maxKey_eq]
    cases hend : request.last with
    | none => nofun
    | some last =>
      rw [hend, Option.all_some, decide_eq_true_eq] at hlast
      simpa using hlast
  obtain ⟨bySymbol, hfetch, hrecords⟩ := h.fetchBatch_eq
  rw [planRebuild_eq, if_neg hcutoff, hfetch, Except.ok_bind, hrecords]
  dsimp only
  rw [validatedBars_barRecords, Except.ok_bind]

omit [ToString Symbol] in
/-- The newest stored day is not missed. -/
theorem exists_maxKey? : ∃ first latest,
    (rebuiltBars request count (series .qfq).bars bars).minKey? = some first ∧
    (rebuiltBars request count (series .qfq).bars bars).maxKey? = some latest ∧ newest ≤ latest := by
  have hnewest := h.dated (Table.mem_keys_of_maxKey? h.maxKey_eq)
  obtain ⟨latest, hlatest⟩ := Table.exists_maxKey? hnewest
  have hle := Table.le_maxKey? hlatest hnewest
  rw [← Table.maxKey?_takeLast _ (fullCount_pos count (series .qfq).bars)] at hlatest
  obtain ⟨first, hfirst⟩ := Table.exists_minKey? (Table.mem_keys_of_maxKey? hlatest)
  exact ⟨first, latest, hfirst, hlatest, hle⟩

theorem planRebuild_ok
    (hreach : oldest ∈ (rebuiltBars request count (series .qfq).bars bars).keys) :
    env.planRebuild request count x revision (series .qfq).bars = .ok
      { bars := rebuiltBars request count (series .qfq).bars bars, changedFrom := some oldest
        coverage := some (oldest, newest) } := by
  obtain ⟨first, latest, hmin, hmax, hlatest⟩ := h.exists_maxKey?
  have hcontained : ¬ ((∃ day ∈ (series .qfq).bars.keys,
      (rebuiltBars request count (series .qfq).bars bars).get? day = none) ∧
      ¬ env.provider.authoritativeHistory) := by
    rintro ⟨⟨day, hday, hnone⟩, -⟩
    have hle := Table.minKey?_le h.minKey_eq hday
    rw [rebuiltBars, Table.get?_takeLast_of_le hreach hle, Table.get?_eq_none] at hnone
    exact hnone (h.dated hday)
  have hcovered : ¬ (first > oldest ∨ latest < newest) := by
    rw [not_or, not_lt, not_lt]
    exact ⟨Table.minKey?_le hmin hreach, hlatest⟩
  rw [h.planRebuild_eq_check]
  unfold checkRebuild
  dsimp only
  rw [rebuiltBars_cutoff, hmin, hmax, h.minKey_eq, h.maxKey_eq]
  dsimp only [Option.getD_some, Option.some_or]
  rw [if_neg hcovered, if_neg hcontained, h.stable .after]
  simp only [pure, Except.pure, Except.ok_bind]
  rw [if_neg (not_not.mpr rfl)]

theorem planRebuild_incomplete
    (hreach : oldest ∉ (rebuiltBars request count (series .qfq).bars bars).keys) :
    env.planRebuild request count x revision (series .qfq).bars = .error incompleteCoverage := by
  obtain ⟨first, latest, hmin, hmax, hlatest⟩ := h.exists_maxKey?
  have huncovered : first > oldest ∨ latest < newest := by
    left
    by_contra hle
    rw [gt_iff_lt, not_lt] at hle
    have hfirst := Table.mem_keys_of_minKey? hmin
    have hget := Table.get?_takeLast_of_le hfirst hle
    obtain ⟨bar, hbar⟩ := Table.mem_keys.mp (h.dated (Table.mem_keys_of_minKey? h.minKey_eq))
    exact hreach (Table.mem_keys.mpr ⟨bar, hget.trans hbar⟩)
  rw [h.planRebuild_eq_check]
  unfold checkRebuild
  dsimp only
  rw [rebuiltBars_cutoff, hmin, hmax, h.minKey_eq, h.maxKey_eq]
  dsimp only [Option.getD_some, Option.some_or]
  rw [if_pos huncovered]
  rfl

end ChangedRevision

/-! ## What a rebuild writes -/

/-- A stored history is the provider's over a range of days, under a revision. -/
def HoldsHistory (bars : Bars) (oldest newest : Date) (revision : R)
    (row : Option (SecuritySeries δ R)) : Prop :=
  ∃ series ∈ row,
    (series .qfq).bars.window (some oldest) (some newest) =
      bars.window (some oldest) (some newest) ∧
    (series .qfq).descriptor.map (·.revisionHash) = some revision

theorem window_eq_iff {t u : Bars} {oldest newest : Date} :
    t.window (some oldest) (some newest) = u.window (some oldest) (some newest) ↔
      ∀ day, oldest ≤ day → day ≤ newest → t.get? day = u.get? day := by
  constructor
  · intro heq day holdest hnewest
    have hday := congrArg (·.get? day) heq
    simpa [Table.window, holdest, hnewest] using hday
  · intro hdays
    refine Table.ext_get? fun day => ?_
    unfold Table.window
    rw [Table.get?_filter, Table.get?_filter]
    split
    · next hday =>
      simp only [Option.all_some, Bool.and_eq_true, decide_eq_true_eq] at hday
      exact hdays day hday.1 hday.2
    · rfl

/-- Bars of the provider on top of a history that is the provider's. -/
theorem HoldsHistory.applyUpsert {bars : Bars} {oldest newest : Date} {revision : R}
    {series : SecuritySeries δ R} (h : HoldsHistory bars oldest newest revision (some series))
    {records : Bars} (hrecords : ∀ day bar, records.get? day = some bar → bars.get? day = some bar) :
    HoldsHistory bars oldest newest revision (some (Function.update series .qfq
      ((series .qfq).applyUpsert records (some revision)))) := by
  obtain ⟨_, hrow, hbars, -⟩ := h
  cases hrow
  refine ⟨_, rfl, ?_, ?_⟩
  · rw [window_eq_iff] at hbars ⊢
    intro day holdest hnewest
    have hget : ((series .qfq).bars.insertMany records.rows).get? day =
        (records.get? day).or ((series .qfq).bars.get? day) := get?_upsertInSession _ records day
    rw [Function.update_self, bars_applyUpsert, hget, hbars day holdest hnewest]
    cases hrecord : records.get? day with
    | none => rfl
    | some bar => rw [Option.some_or, hrecords day bar hrecord]
  · rw [Function.update_self]
    unfold SeriesFacts.applyUpsert SeriesFacts.invalidate
    dsimp only
    split <;> rfl

omit [DecidableEq R] in
/-- The bars after a reconciliation whose records cover the replaced range. -/
theorem applyReconcile_holds {bars records : Bars} {oldest newest : Date} {revision : R}
    {series : SecuritySeries δ R}
    (hrecords : ∀ day, oldest ≤ day → day ≤ newest → records.get? day = bars.get? day) :
    HoldsHistory bars oldest newest revision (some (Function.update series .qfq
      ((series .qfq).applyReconcile records oldest newest (some revision)))) := by
  have hinvalidate (facts : SeriesFacts δ R) (changed : Changed) :
      (facts.invalidate changed).bars = facts.bars := by
    unfold SeriesFacts.invalidate
    split <;> rfl
  have hwritten : ((series .qfq).applyReconcile records oldest newest (some revision)).bars =
      (upsertInSession (series .qfq).bars records).1.filter
        (fun day => !SeriesFacts.isDeleted records oldest newest day) := by
    unfold SeriesFacts.applyReconcile
    dsimp only
    split
    · rfl
    · exact hinvalidate _ _
  refine ⟨_, rfl, ?_, ?_⟩
  · rw [Function.update_self, hwritten, window_eq_iff]
    intro day holdest hnewest
    rw [Table.get?_filter, get?_upsertInSession, ← hrecords day holdest hnewest]
    unfold SeriesFacts.isDeleted
    cases hrecord : records.get? day with
    | none => simp [holdest, hnewest]
    | some bar => simp
  · rw [Function.update_self]
    exact descriptor_applyReconcile ..

/-! ## A run over a changed revision -/

/-- Before its rebuild, the symbol has its stored history, and this run has reserved it. -/
structure HistoryStale (x : Symbol) (series : SecuritySeries δ R)
    (generations : Symbol → Option ℤ) (a : SyncRun Symbol δ R) : Prop where
  row : ∃ series' ∈ a.db x, (series' .qfq).bars = (series .qfq).bars ∧
    (series' .qfq).descriptor = (series .qfq).descriptor ∧
    generations x = some (series' .qfq).stream.syncGeneration
  pending : a.pending x = none
  normal : x ∉ a.normalSymbols

/-- After its rebuild, the symbol has the provider's history, and whatever else is to be persisted
is the provider's too. -/
structure HistoryCurrent (x : Symbol) (bars : Bars) (oldest newest : Date) (revision : R)
    (a : SyncRun Symbol δ R) : Prop where
  row : HoldsHistory bars oldest newest revision (a.db x)
  pending : ∀ records ∈ a.pending x, ∀ day bar, records.get? day = some bar →
    bars.get? day = some bar
  revision : a.revisionBySymbol x = some revision
  valid : ∀ result ∈ a.results x, ∀ error ∈ result.error, error.code ≠ .invalidMarketData

/-- The rebuild was refused. -/
structure HistoryRefused (x : Symbol) (a : SyncRun Symbol δ R) : Prop where
  pending : a.pending x = none
  normal : x ∉ a.normalSymbols
  result : a.results x = some (.ofError incompleteCoverage)

variable {generations : Symbol → Option ℤ}

omit [DecidableEq Symbol] [DecidableEq R] [ToString Symbol] in
theorem HistoryStale.of_agree (h : HistoryStale x series generations b)
    (hrun : SyncRun.AgreeOn x a b) : HistoryStale x series generations a :=
  ⟨by rw [hrun.db]; exact h.row, by rw [hrun.pending, h.pending],
    by rw [hrun.normal]; exact h.normal⟩

omit [DecidableEq Symbol] [DecidableEq R] [ToString Symbol] in
theorem HistoryCurrent.of_agree (h : HistoryCurrent x bars oldest newest revision b)
    (hrun : SyncRun.AgreeOn x a b) : HistoryCurrent x bars oldest newest revision a :=
  ⟨by rw [hrun.db]; exact h.row, by rw [hrun.pending]; exact h.pending,
    by rw [hrun.revision, h.revision], by rw [hrun.results]; exact h.valid⟩

omit [DecidableEq Symbol] [DecidableEq R] [ToString Symbol] in
theorem HistoryRefused.of_agree (h : HistoryRefused x b) (hrun : SyncRun.AgreeOn x a b) :
    HistoryRefused x a :=
  ⟨by rw [hrun.pending, h.pending], by rw [hrun.normal]; exact h.normal,
    by rw [hrun.results, h.result]⟩

omit [DecidableEq R] [ToString Symbol] in
theorem HistoryCurrent.report (h : HistoryCurrent x bars oldest newest revision a)
    {result : SyncItemResult} (hresult : ∀ error ∈ result.error, error.code ≠ .invalidMarketData) :
    HistoryCurrent x bars oldest newest revision (a.report x result) := by
  refine ⟨h.row, h.pending, h.revision, fun result' hresult' => ?_⟩
  simp only [SyncRun.report, Function.update_self] at hresult'
  cases hresult'
  exact hresult

theorem SyncRequest.count_pos (hcount : request.count = .ok count) : 0 < count := by
  unfold SyncRequest.count at hcount
  split at hcount
  · split at hcount
    · cases hcount
    · cases hcount
      omega
  · cases hcount
  · split at hcount
    · cases hcount
    · next hvalid =>
      cases hcount
      rw [not_or, not_le] at hvalid
      split <;> omega

/-- A clip only drops bars. -/
theorem SyncRequest.of_get?_clip {t : Bars} {day : Date} {bar : DailyBar}
    (hbar : (request.clip t).get? day = some bar) : t.get? day = some bar := by
  have hfilter (p : Date → Bool) (t : Bars) (hbar : (t.filter p).get? day = some bar) :
      t.get? day = some bar := by
    rw [Table.get?_filter] at hbar
    split at hbar
    · exact hbar
    · cases hbar
  unfold SyncRequest.clip at hbar
  split at hbar
  · exact hfilter _ _ (hfilter _ _ hbar)
  · exact hfilter _ _ hbar
  · exact hbar

omit [DecidableEq R] in
theorem HoldsHistory.deepen {series : SecuritySeries δ R} {request : SyncRequest}
    (h : HoldsHistory bars oldest newest revision (some series)) (adjustment : Adjustment) :
    HoldsHistory bars oldest newest revision
      (some (Function.update series adjustment (deepen request (series adjustment)))) := by
  obtain ⟨_, hrow, hholds⟩ := h
  cases hrow
  refine ⟨_, rfl, ?_⟩
  cases adjustment with
  | qfq => exact hholds
  | none => exact hholds

theorem staleHistory_changed {series : SecuritySeries δ R}
    (hchanged : (series .qfq).descriptor.all (·.revisionHash ≠ revision))
    (hmin : (series .qfq).bars.minKey? = some oldest) :
    series.staleHistory revision = some (series .qfq).bars := by
  have hrows : (series .qfq).bars.rows ≠ [] := fun hnil => by
    rw [Table.minKey?_eq_none.mpr hnil] at hmin
    cases hmin
  unfold SecuritySeries.staleHistory
  split
  · rw [if_neg hrows]
  · next state hstate =>
    rw [hstate, Option.all_some, decide_eq_true_eq] at hchanged
    rw [if_pos hchanged]

namespace ChangedRevision

variable (h : env.ChangedRevision service request p upstream x series bars oldest newest revision
  count)

include h

omit [ToString Symbol] in
theorem get?_rebuiltBars
    (hreach : oldest ∈ (rebuiltBars request count (series .qfq).bars bars).keys) {day : Date}
    (holdest : oldest ≤ day) (hnewest : day ≤ newest) :
    (rebuiltBars request count (series .qfq).bars bars).get? day = bars.get? day := by
  have hlast : request.last.all (day ≤ ·) := by
    have hlast := h.last
    cases hend : request.last with
    | none => rfl
    | some last =>
      rw [hend, Option.all_some, decide_eq_true_eq] at hlast
      exact decide_eq_true (hnewest.trans hlast)
  unfold rebuiltBars at hreach ⊢
  rw [Table.get?_takeLast_of_le hreach holdest]
  unfold Table.window
  rw [Table.get?_filter, if_pos (by simpa using hlast)]

/-- The write of the rebuild is not refused. -/
theorem reconcileRevision_eq
    (hreach : oldest ∈ (rebuiltBars request count (series .qfq).bars bars).keys)
    {db : HubDatabase Symbol δ R} {series' : SecuritySeries δ R} (hrow : db x = some series')
    (hgeneration : generations x = some (series' .qfq).stream.syncGeneration) :
    db.reconcileRevision x (rebuiltBars request count (series .qfq).bars bars) request.adjustment
        oldest newest generations (some revision) =
      .ok (db.modify [x] request.adjustment fun _ facts =>
        facts.applyReconcile (rebuiltBars request count (series .qfq).bars bars) oldest newest
          (some revision)) := by
  obtain ⟨first, latest, hmin, hmax, hlatest⟩ := h.exists_maxKey?
  have hwritable : db.Writable generations request.adjustment x := by
    refine ⟨by rw [hrow]; rfl, ?_⟩
    rw [HubDatabase.generation, hrow, hgeneration, adjustment_of_tracksRevisions h.tracks]
    rfl
  have hrows : (rebuiltBars request count (series .qfq).bars bars).rows ≠ [] := fun hnil => by
    rw [Table.minKey?_eq_none.mpr hnil] at hmin
    cases hmin
  have hcovers : SeriesFacts.reconcileCovers (rebuiltBars request count (series .qfq).bars bars)
      oldest newest := by
    unfold SeriesFacts.reconcileCovers
    rw [hmin, hmax]
    simp [h.oldest_le_newest, Table.minKey?_le hmin hreach, hlatest]
  exact HubDatabase.reconcileRevision_ok hrows hcovers hwritable _

theorem syncRevision_stale
    (hreach : oldest ∈ (rebuiltBars request count (series .qfq).bars bars).keys)
    (ha : HistoryStale x series generations a) :
    HistoryCurrent x bars oldest newest revision
      (env.syncRevision request generations count 0 a x) := by
  obtain ⟨series', hrow, hbars, hdescriptor, hgeneration⟩ := ha.row
  have hstale : (a.db x).bind (·.staleHistory revision) = some (series .qfq).bars := by
    rw [hrow, Option.bind_some, ← hbars]
    exact staleHistory_changed (hdescriptor ▸ h.changed) (hbars ▸ h.minKey_eq)
  rw [h.quiet.syncRevision_eq h.noOutage, h.stable .before]
  dsimp only
  rw [hstale]
  dsimp only
  rw [h.planRebuild_ok hreach]
  unfold writeRebuild
  dsimp only
  rw [h.quiet.beforeSymbol_eq, h.noOutage.call_eq, h.reconcileRevision_eq hreach hrow hgeneration]
  dsimp only
  refine ⟨?_, fun records hrecords => ?_, Function.update_self .., fun result hresult => ?_⟩
  · rw [adjustment_of_tracksRevisions h.tracks]
    simp only [SyncRun.report, HubDatabase.modify, if_pos List.mem_cons_self]
    rw [hrow]
    exact applyReconcile_holds fun day holdest hnewest => h.get?_rebuiltBars hreach holdest hnewest
  · have hpending : records ∈ a.pending x := hrecords
    rw [ha.pending] at hpending
    cases hpending
  · simp only [SyncRun.report, Function.update_self] at hresult
    cases hresult
    intro error herror
    cases herror

theorem syncRevision_refused
    (hreach : oldest ∉ (rebuiltBars request count (series .qfq).bars bars).keys)
    (ha : HistoryStale x series generations a) :
    HistoryStale x series generations (env.syncRevision request generations count 0 a x) ∧
      HistoryRefused x (env.syncRevision request generations count 0 a x) := by
  obtain ⟨series', hrow, hbars, hdescriptor, -⟩ := ha.row
  have hstale : (a.db x).bind (·.staleHistory revision) = some (series .qfq).bars := by
    rw [hrow, Option.bind_some, ← hbars]
    exact staleHistory_changed (hdescriptor ▸ h.changed) (hbars ▸ h.minKey_eq)
  rw [h.quiet.syncRevision_eq h.noOutage, h.stable .before]
  dsimp only
  rw [hstale]
  dsimp only
  rw [h.planRebuild_incomplete hreach]
  exact ⟨⟨ha.row, ha.pending, ha.normal⟩, ⟨ha.pending, ha.normal, Function.update_self ..⟩⟩

/-- A repeated symbol finds its history current, and goes to the batches. -/
theorem syncRevision_current (ha : HistoryCurrent x bars oldest newest revision a) :
    HistoryCurrent x bars oldest newest revision
      (env.syncRevision request generations count 0 a x) := by
  obtain ⟨series', hrow, hholds⟩ := ha.row
  have hcurrent : (a.db x).bind (·.staleHistory revision) = none := by
    rw [hrow, Option.bind_some]
    exact staleHistory_eq_none hholds.2
  rw [h.quiet.syncRevision_eq h.noOutage, h.stable .before]
  dsimp only
  rw [hcurrent]
  exact ⟨ha.row, ha.pending, Function.update_self .., ha.valid⟩

/-- The batches bring nothing but the provider's bars. -/
theorem syncChunk_current (ha : HistoryCurrent x bars oldest newest revision a)
    (chunk : List Symbol) :
    HistoryCurrent x bars oldest newest revision (env.syncChunk request count a chunk) := by
  have hI : ∀ a b : SyncRun Symbol δ R, SyncRun.AgreeOn x a b →
      HistoryCurrent x bars oldest newest revision b →
      HistoryCurrent x bars oldest newest revision a := fun a b hagree hb => hb.of_agree hagree
  have htrivial : ∀ a b : SyncRun Symbol δ R, SyncRun.AgreeOn x a b → True → True :=
    fun _ _ _ h => h
  have hpos := SyncRequest.count_pos h.count_eq
  by_cases hbudget : ∃ symbol ∈ chunk, ∃ bars ∈ upstream symbol,
      p.OverBudget count request.last bars
  · rw [syncChunk_overBudget h.serves h.window hpos hbudget]
    refine (foldl_touch (· = x) hI htrivial (fun y _ hy a => .report_of_ne hy a _) ?_ ha).1
    rintro y - rfl a ha
    refine ⟨ha.report fun error herror => ?_, trivial⟩
    cases herror
    nofun
  · rw [syncChunk_served h.serves h.window hpos (by simpa using hbudget)]
    refine (foldl_touch (· = x) hI htrivial (fun y _ hy a => takeFetched_frame hy _ a) ?_ ha).1
    rintro y hy rfl a ha
    refine ⟨?_, trivial⟩
    unfold takeFetched
    beta_reduce
    rw [if_pos hy, h.upstream_eq]
    dsimp only [Option.map_some]
    rw [validatedBars_barRecords]
    dsimp only
    have hheld : HistoryCurrent y bars oldest newest revision
        (a.hold y (some (request.clip ((bars.window none request.last).takeLast count)))) := by
      refine ⟨ha.row, fun records hrecords day bar hbar => ?_, ha.revision, ha.valid⟩
      simp only [SyncRun.hold, Function.update_self] at hrecords
      cases hrecords
      have hnewest := Table.get?_eq_some.mp (SyncRequest.of_get?_clip hbar)
      rw [Table.rows_takeLast] at hnewest
      have hdated := Table.get?_eq_some.mpr (List.mem_of_mem_drop hnewest)
      unfold Table.window at hdated
      rw [Table.get?_filter] at hdated
      split at hdated
      · exact hdated
      · cases hdated
    refine hheld.report ?_
    rintro _ ⟨⟩

omit [ToString Symbol] in
theorem recheckRevision_current (ha : HistoryCurrent x bars oldest newest revision a) :
    HistoryCurrent x bars oldest newest revision (env.recheckRevision a x) := by
  unfold recheckRevision
  rw [ha.revision]
  split
  · next previousRevision _ hprevious =>
    cases hprevious
    rw [h.stable .after]
    dsimp only
    rw [if_neg (not_not.mpr rfl)]
    exact ha
  · exact ha

theorem persistSymbol_current (ha : HistoryCurrent x bars oldest newest revision a) :
    HistoryCurrent x bars oldest newest revision (env.persistSymbol request generations a x) := by
  have hreported {a : SyncRun Symbol δ R} (ha : HistoryCurrent x bars oldest newest revision a)
      {error : Option SyncError} (herror : ∀ e ∈ error, e.code ≠ .invalidMarketData) :
      HistoryCurrent x bars oldest newest revision (a.reportPersisted x error) := by
    refine ⟨ha.row, ha.pending, ha.revision, fun result hresult => ?_⟩
    simp only [SyncRun.reportPersisted, Function.update_self, Option.mem_def,
      Option.map_eq_some_iff] at hresult
    obtain ⟨_, -, rfl⟩ := hresult
    exact herror
  unfold persistSymbol persistRecords
  rw [h.noOutage.call_eq]
  split
  · next db hdb =>
    have hnone : ∀ e ∈ (none : Option SyncError), e.code ≠ .invalidMarketData := by
      intro e he
      cases he
    refine hreported (a := { a with db }) ⟨?_, ha.pending, ha.revision, ha.valid⟩ hnone
    obtain ⟨-, -, hdb⟩ := Except.bind_eq_ok.mp hdb
    cases hdb
    obtain ⟨series', hrow, hholds⟩ := ha.row
    have hsubset : ∀ day bar, ((a.pending x).getD ∅).get? day = some bar →
        bars.get? day = some bar := by
      intro day bar hbar
      cases hpending : a.pending x with
      | none =>
        rw [hpending] at hbar
        cases hbar
      | some records =>
        rw [hpending] at hbar
        exact ha.pending records hpending day bar hbar
    simp only [HubDatabase.modify, if_pos List.mem_cons_self, adjustment_of_tracksRevisions h.tracks]
    rw [hrow, ha.revision]
    exact HoldsHistory.applyUpsert ⟨series', rfl, hholds⟩ hsubset
  · refine hreported ha fun error herror => ?_
    cases herror
    intro hcode
    cases hcode

end ChangedRevision

namespace ChangedRevision

variable (h : env.ChangedRevision service request p upstream x series bars oldest newest revision
  count)

include h

/-- Up to the writes of the fetched bars. -/
theorem fetch_outcome {symbols : List Symbol} (hx : x ∈ symbols)
    (ha : HistoryStale x series generations a) :
    ∃ b, env.fetch service request generations count symbols a = .ok b ∧
      (oldest ∈ (rebuiltBars request count (series .qfq).bars bars).keys →
        HistoryCurrent x bars oldest newest revision b) ∧
      (oldest ∉ (rebuiltBars request count (series .qfq).bars bars).keys → HistoryRefused x b) := by
  have hframe (l : List Symbol) : ∀ y ∈ l, ¬ y = x → ∀ a,
      SyncRun.AgreeOn x (env.syncRevision request generations count 0 a y) a :=
    fun y _ hy a => syncRevision_frame hy generations count a
  have htrivial : ∀ a b : SyncRun Symbol δ R, SyncRun.AgreeOn x a b → True → True :=
    fun _ _ _ h => h
  unfold fetch fetchNormal
  rw [h.noOutage.compareRevisions_eq, if_pos h.tracks,
    if_pos (batches_of_tracksRevisions h.tracks), Except.ok_bind]
  refine ⟨_, rfl, fun hreach => ?_, fun hreach => ?_⟩
  · have hcompared := (foldl_touch
      (f := env.syncRevision request generations count 0) (l := symbols)
      (I := fun run => HistoryStale x series generations run ∨
        HistoryCurrent x bars oldest newest revision run)
      (G := HistoryCurrent x bars oldest newest revision) (· = x)
      (fun a b hagree hb => hb.imp (·.of_agree hagree) (·.of_agree hagree))
      (fun a b hagree hb => hb.of_agree hagree) (hframe symbols)
      (by
        rintro y - rfl a (hstale | hcurrent)
        · exact ⟨.inr (h.syncRevision_stale hreach hstale), h.syncRevision_stale hreach hstale⟩
        · exact ⟨.inr (h.syncRevision_current hcurrent), h.syncRevision_current hcurrent⟩)
      (.inl ha)).2 (.inl ⟨x, hx, rfl⟩)
    have hchunks (l : List (List Symbol)) := (foldl_touch (f := env.syncChunk request count)
      (l := l) (I := HistoryCurrent x bars oldest newest revision) (fun _ => True)
      (fun a b hagree hb => hb.of_agree hagree) htrivial (fun _ _ hnot => absurd trivial hnot)
      (fun chunk _ _ a ha => ⟨h.syncChunk_current ha chunk, trivial⟩) hcompared).1
    refine (foldl_touch (I := HistoryCurrent x bars oldest newest revision) (· = x)
      (fun a b hagree hb => hb.of_agree hagree) htrivial
      (fun y _ hy a => recheckRevision_frame hy a) ?_ (hchunks _)).1
    rintro y - rfl a ha
    exact ⟨h.recheckRevision_current ha, trivial⟩
  · have hcompared := (foldl_touch
      (f := env.syncRevision request generations count 0) (l := symbols)
      (I := HistoryStale x series generations) (G := HistoryRefused x) (· = x)
      (fun a b hagree hb => hb.of_agree hagree) (fun a b hagree hb => hb.of_agree hagree)
      (hframe symbols)
      (by
        rintro y - rfl a hstale
        exact h.syncRevision_refused hreach hstale) ha).2 (.inl ⟨x, hx, rfl⟩)
    generalize symbols.foldl (env.syncRevision request generations count 0) a = a at hcompared ⊢
    have hchunks := hcompared.of_agree (foldl_frame (f := env.syncChunk request count)
      (l := chunks (max 1 service.batchSize) a.normalSymbols) (fun chunk hchunk a =>
        syncChunk_frame count a fun hxc => hcompared.normal
          ((mem_chunks (by omega)).mp ⟨chunk, hchunk, hxc⟩)) a)
    refine (foldl_touch (I := HistoryRefused x) (· = x)
      (fun a b hagree hb => hb.of_agree hagree) htrivial
      (fun y _ hy a => recheckRevision_frame hy a) ?_ hchunks).1
    rintro y - rfl a ha
    unfold recheckRevision
    rw [ha.pending]
    exact ⟨ha, trivial⟩

theorem persist_outcome (generations : Symbol → Option ℤ) (symbols : List Symbol)
    (a : SyncRun Symbol δ R) :
    ∃ b, env.persist request generations symbols a = .ok b ∧
      (HistoryCurrent x bars oldest newest revision a →
        HistoryCurrent x bars oldest newest revision b) ∧
      (HistoryRefused x a → HistoryRefused x b) := by
  obtain ⟨b, hpersist, hagree⟩ := persist_eq request h.noOutage generations symbols a
  have hagree := hagree x
  refine ⟨b, hpersist, fun ha => ?_, fun ha => ?_⟩
  · have hrow : HoldsHistory bars oldest newest revision (env.before .persist a.db x) := by
      rw [h.quiet.before_eq]
      exact ha.row
    have hbefore : HistoryCurrent x bars oldest newest revision
        { a with db := env.before .persist a.db } :=
      ⟨hrow, ha.pending, ha.revision, ha.valid⟩
    refine HistoryCurrent.of_agree ?_ hagree
    split
    · exact h.persistSymbol_current hbefore
    · exact hbefore
  · rw [if_neg (notMem_grouped ha.pending symbols)] at hagree
    exact HistoryRefused.of_agree (b := { a with db := env.before .persist a.db })
      ⟨ha.pending, ha.normal, ha.result⟩ hagree

theorem complete_outcome (generations : Symbol → Option ℤ) (symbols : List Symbol)
    (a : SyncRun Symbol δ R) :
    ∃ b, env.complete request generations symbols a = .ok b ∧
      (HistoryCurrent x bars oldest newest revision a →
        HoldsHistory bars oldest newest revision (b.db x) ∧
        ∀ result ∈ b.results x, ∀ error ∈ result.error, error.code ≠ .invalidMarketData) ∧
      (HistoryRefused x a → b.results x = some (.ofError incompleteCoverage)) := by
  obtain ⟨b, hcomplete, hresults, hdb⟩ :=
    complete_eq request h.noOutage generations symbols a
  refine ⟨b, hcomplete, fun ha => ⟨?_, fun result hresult => ?_⟩, fun ha => ?_⟩
  · rw [hdb]
    split
    · rw [h.quiet.before_eq]
      exact ha.row
    · unfold HubDatabase.modify
      rw [h.quiet.before_eq]
      split
      · obtain ⟨series', hrow, hholds⟩ := ha.row
        rw [hrow]
        exact HoldsHistory.deepen ⟨series', rfl, hholds⟩ _
      · exact ha.row
  · rw [hresults] at hresult
    split at hresult
    · obtain ⟨_, -, rfl⟩ := Option.map_eq_some_iff.mp hresult
      intro error herror
      cases herror
      intro hcode
      cases hcode
    · exact ha.valid result hresult
  · have hbad : x ∉ a.good symbols := fun hgood => by
      have hsuccess := (List.mem_filter.mp hgood).2
      rw [ha.result] at hsuccess
      exact absurd hsuccess (by decide)
    rw [hresults, if_neg fun hgood => hbad hgood.1, ha.result]

end ChangedRevision

/-- A sync replaces the stored history of the symbol by the provider's bars over its range, installs
the revision, and does not report an incomplete coverage. -/
def RebuildsHistory {Raw : Type} (env : SyncEnvironment Symbol δ R) (service : DailyBarSyncService)
    (request : SyncRequest) (normalizeSymbol : Raw → Except HubError Symbol)
    (bestEffortSymbol : Raw → Symbol) (symbols : List Raw) (db : HubDatabase Symbol δ R)
    (x : Symbol) (bars : Bars) (oldest newest : Date) (revision : R) : Prop :=
  ∃ run, env.sync service request normalizeSymbol bestEffortSymbol symbols db = .ok run ∧
    HoldsHistory bars oldest newest revision (run.db x) ∧
    ∀ result ∈ run.results x, result.error ≠ some (syncError incompleteCoverage)

variable {Raw : Type} {normalizeSymbol : Raw → Except HubError Symbol}
  {bestEffortSymbol : Raw → Symbol} {symbols : List Raw} {db : HubDatabase Symbol δ R}

/-- A run returns, with the history rebuilt or refused. -/
theorem ChangedRevision.sync_outcome
    (h : env.ChangedRevision service request p upstream x series bars oldest newest revision count)
    (hx : x ∈ (canonicalizeSymbols normalizeSymbol bestEffortSymbol symbols).1)
    (hrow : db x = some series) :
    ∃ run, env.sync service request normalizeSymbol bestEffortSymbol symbols db = .ok run ∧
      (oldest ∈ (rebuiltBars request count (series .qfq).bars bars).keys →
        HoldsHistory bars oldest newest revision (run.db x) ∧
        ∀ result ∈ run.results x, ∀ error ∈ result.error, error.code ≠ .invalidMarketData) ∧
      (oldest ∉ (rebuiltBars request count (series .qfq).bars bars).keys →
        run.results x = some (.ofError incompleteCoverage)) := by
  unfold sync syncCanonical
  generalize canonicalizeSymbols normalizeSymbol bestEffortSymbol symbols = canonical at hx ⊢
  obtain ⟨symbols, results⟩ := canonical
  dsimp only at hx ⊢
  rw [h.count_eq, h.noOutage]
  dsimp only
  have hstart : HistoryStale x series
      ((env.before .reserve db).reserveSync symbols request.adjustment).1
      { db := ((env.before .reserve db).reserveSync symbols request.adjustment).2, results
        revisionBySymbol := fun _ => none, normalSymbols := [], pending := fun _ => none } := by
    refine ⟨?_, rfl, List.not_mem_nil⟩
    unfold HubDatabase.reserveSync HubDatabase.generation HubDatabase.modify before
    dsimp only
    rw [if_pos hx, if_pos hx, h.quiet, hrow, adjustment_of_tracksRevisions h.tracks]
    exact ⟨_, rfl, rfl, rfl, rfl⟩
  obtain ⟨fetched, hfetch, hcurrent, hrefused⟩ := h.fetch_outcome hx hstart
  obtain ⟨persisted, hpersist, hcurrent', hrefused'⟩ := h.persist_outcome _ symbols fetched
  obtain ⟨run, hcomplete, hdone, hfailed⟩ := h.complete_outcome _ symbols persisted
  unfold syncReserved
  rw [hfetch, Except.ok_bind, hpersist]
  exact ⟨run, hcomplete, fun hreach => hdone (hcurrent' (hcurrent hreach)),
    fun hreach => hfailed (hrefused' (hrefused hreach))⟩

theorem ChangedRevision.rebuilds
    (h : env.ChangedRevision service request p upstream x series bars oldest newest revision count)
    (hx : x ∈ (canonicalizeSymbols normalizeSymbol bestEffortSymbol symbols).1)
    (hrow : db x = some series)
    (hcount : ((bars.window (some oldest) request.last).rows.length : ℤ) ≤
      fullCount count (series .qfq).bars) :
    env.RebuildsHistory service request normalizeSymbol bestEffortSymbol symbols db x bars oldest
      newest revision := by
  obtain ⟨run, hrun, hcurrent, -⟩ := h.sync_outcome hx hrow
  have hcurrent := hcurrent (h.reaches_iff.mpr hcount)
  refine ⟨run, hrun, hcurrent.1, fun result hresult herror => ?_⟩
  exact hcurrent.2 result hresult _ herror rfl

theorem ChangedRevision.not_rebuilds
    (h : env.ChangedRevision service request p upstream x series bars oldest newest revision count)
    (hx : x ∈ (canonicalizeSymbols normalizeSymbol bestEffortSymbol symbols).1)
    (hrow : db x = some series)
    (hcount : ¬ ((bars.window (some oldest) request.last).rows.length : ℤ) ≤
      fullCount count (series .qfq).bars) :
    ¬ env.RebuildsHistory service request normalizeSymbol bestEffortSymbol symbols db x bars oldest
      newest revision := by
  obtain ⟨run, hrun, -, hrefused⟩ := h.sync_outcome hx hrow
  rintro ⟨run', hrun', -, hvalid⟩
  cases hrun.symm.trans hrun'
  exact hvalid _ (hrefused (mt h.reaches_iff.mp hcount)) rfl

/-- A changed history is rebuilt if and only if the provider has no more bars from the oldest stored
day on than the rebuild asks for. -/
theorem rebuildsHistory_iff
    (h : env.ChangedRevision service request p upstream x series bars oldest newest revision count)
    (hx : x ∈ (canonicalizeSymbols normalizeSymbol bestEffortSymbol symbols).1)
    (hrow : db x = some series) :
    env.RebuildsHistory service request normalizeSymbol bestEffortSymbol symbols db x bars oldest
        newest revision ↔
      ((bars.window (some oldest) request.last).rows.length : ℤ) ≤
        max (max count ((series .qfq).bars.rows.length + 32)) 400 := by
  constructor
  · intro hrebuilds
    by_contra hcount
    exact h.not_rebuilds hx hrow hcount hrebuilds
  · exact h.rebuilds hx hrow

end SyncEnvironment

end Rebuild

/-! ## A stored history with a gap -/

/-- A bar for each day from 0 on, at one price. -/
def everyDay (days : ℕ) : Bars where
  rows := (List.range days).map fun day : ℕ => ((day : ℤ), ⟨10, 10, 10, 10, 1, none⟩)
  sorted := List.pairwise_map.mpr (List.pairwise_lt_range.imp fun h => Int.ofNat_lt.mpr h)

theorem mem_keys_everyDay {days : ℕ} {day : Date} :
    day ∈ (everyDay days).keys ↔ ∃ n < days, (n : ℤ) = day := by
  unfold Table.keys everyDay
  simp

/-- All of the days are in a range that has the first and the last of them. -/
theorem window_everyDay {days : ℕ} {first last : Date} (hfirst : first ≤ 0)
    (hlast : (days : ℤ) ≤ last + 1) :
    ((everyDay days).window (some first) (some last)).rows.length = days := by
  have hall : ∀ row ∈ (everyDay days).rows,
      ((some first).all (· ≤ row.1) && (some last).all (row.1 ≤ ·)) = true := by
    intro row hrow
    obtain ⟨day, hday, rfl⟩ := List.mem_map.mp hrow
    have hlt := List.mem_range.mp hday
    have hle : first ≤ (day : ℤ) ∧ (day : ℤ) ≤ last := by
      constructor
      · exact hfirst.trans (Int.natCast_nonneg day)
      · lia
    simp [hle.1, hle.2]
  unfold Table.window
  rw [Table.rows_filter, List.filter_eq_self.mpr hall]
  simp [everyDay]

/-- The first and the last of 401 days, under the revision 1. -/
def gapSeries : SecuritySeries Unit ℕ := fun _ =>
  { bars := .ofList [(0, ⟨9, 9, 9, 9, 1, none⟩), (400, ⟨9, 9, 9, 9, 1, none⟩)]
    stream := {}
    descriptor := some ⟨1, some 0, some 400⟩ }

/-- A provider that has all 401 days, under the revision 2. -/
def gapProvider : EltdxProvider ℕ ℕ := seriesProvider fun _ => some (everyDay 401)

def gapEnvironment : SyncEnvironment ℕ Unit ℕ where
  provider := {
    getDailyBars := fun _ _ _ _ => .ok []
    getDailyBarsBatch := some fun symbols adjustment count =>
      gapProvider.getDailyBarsWindow symbols adjustment count none
    getDailyBarsWindow := some gapProvider.getDailyBarsWindow
    getAdjustmentRevision := some fun _ _ => .ok 2
    authoritativeHistory := false }
  concurrent _ _ row := row
  outage _ := none

/-- The database with the gap in every history. -/
def gapDatabase : HubDatabase ℕ Unit ℕ := fun _ => some gapSeries

def gapRequest : SyncRequest :=
  { start := some 390, last := some 400, adjustment := .qfq, lookbackBars := none }

theorem gapEnvironment_changed : gapEnvironment.ChangedRevision ⟨true, 50⟩ gapRequest gapProvider
    (fun _ => some (everyDay 401)) 600519 gapSeries (everyDay 401) 0 400 2 28 where
  serves := seriesProvider_serves (by
    intro symbol bars hbars row hrow
    cases hbars
    obtain ⟨day, -, rfl⟩ := List.mem_map.mp hrow
    exact show DailyBar.check ⟨10, 10, 10, 10, 1, none⟩ = .ok ⟨10, 10, 10, 10, 1, none⟩ by decide) _
  window := rfl
  tracks := by decide
  noOutage _ := rfl
  quiet _ _ := rfl
  count_eq := by decide
  upstream_eq := rfl
  stable _ := rfl
  changed := by decide
  minKey_eq := by decide
  maxKey_eq := by decide
  contained day hday := by
    have hends : day = 0 ∨ day = 400 := by simpa using Table.mem_keys_ofList.mp hday
    rw [mem_keys_everyDay]
    rcases hends with rfl | rfl
    · exact ⟨0, by omega, rfl⟩
    · exact ⟨400, by omega, rfl⟩
  last := by decide
  budget h := by
    have hlength := h.1
    rw [show (everyDay 401).rows.length = 401 by simp [everyDay]] at hlength
    exact absurd hlength (by decide)

/-- The rebuild asks for 400 of the 401 days: it is refused, as it will be on every later run. -/
theorem not_rebuildsHistory :
    gapEnvironment.ChangedRevision ⟨true, 50⟩ gapRequest gapProvider
      (fun _ => some (everyDay 401)) 600519 gapSeries (everyDay 401) 0 400 2 28 ∧
    ¬ gapEnvironment.RebuildsHistory ⟨true, 50⟩ gapRequest .ok id [600519] gapDatabase 600519
      (everyDay 401) 0 400 2 := by
  refine ⟨gapEnvironment_changed, gapEnvironment_changed.not_rebuilds ?_ rfl ?_⟩
  · decide
  · rw [show gapRequest.last = some 400 from rfl, window_everyDay le_rfl le_rfl]
    decide

/-- The equivalence for this history. -/
theorem rebuildsHistory_iff_gap :
    gapEnvironment.RebuildsHistory ⟨true, 50⟩ gapRequest .ok id [600519] gapDatabase 600519
        (everyDay 401) 0 400 2 ↔
      (((everyDay 401).window (some 0) gapRequest.last).rows.length : ℤ) ≤
        max (max 28 ((gapSeries .qfq).bars.rows.length + 32)) 400 := by
  have hx : 600519 ∈ (canonicalizeSymbols (Except.ok : ℕ → Except HubError ℕ) id [600519]).1 := by
    decide
  have hrow : gapDatabase 600519 = some gapSeries := rfl
  generalize hdays : everyDay 401 = days
  exact SyncEnvironment.rebuildsHistory_iff (hdays ▸ gapEnvironment_changed) hx hrow

end Apanel
