import Apanel.Hub.Eltdx
import Apanel.Hub.RowOrder
import Mathlib.Order.Interval.Finset.Defs
import Mathlib.Data.Int.Interval

/-!
# Sync of a range

`DailyBarSyncService.sync` over a range of days, with eltdx as the provider: its count estimate is
enough for the days of the range, so that the clip leaves exactly the provider's bars in it
(`getDailyBarsWindow_exact`).
-/

namespace Apanel

theorem Table.length_le_of_mem_Ioc {α : Type} {rows : List (Date × α)}
    (hsorted : rows.Pairwise fun r s => r.1 < s.1) {first last : Date}
    (h : ∀ row ∈ rows, first < row.1 ∧ row.1 ≤ last) : rows.length ≤ (last - first).toNat := by
  have hnodup : (rows.map (·.1)).Nodup := List.pairwise_map.mpr (hsorted.imp fun h => h.ne)
  have hsub : (rows.map (·.1)).toFinset ⊆ Finset.Ioc first last := by
    intro day hday
    obtain ⟨row, hrow, rfl⟩ := List.mem_map.mp (List.mem_toFinset.mp hday)
    exact Finset.mem_Ioc.mpr (h row hrow)
  have hcard := Finset.card_le_card hsub
  rwa [List.toFinset_card_of_nodup hnodup, List.length_map, Int.card_Ioc] at hcard

/-- More bars than days are enough. -/
theorem Table.window_takeLast (bars : Bars) {start last : Date} {count : ℤ}
    (hcount : last - start < count) :
    ((bars.window none (some last)).takeLast count).window (some start) (some last) =
      bars.window (some start) (some last) := by
  refine Table.ext_get? fun day => Option.ext fun bar => ?_
  rw [Table.get?_window, Table.get?_window]
  simp only [Option.all_some, decide_eq_true_eq]
  split
  · next hday =>
    obtain ⟨hstart, hlast⟩ := hday
    generalize hdated : bars.window none (some last) = dated
    have hget : bars.get? day = dated.get? day := by
      rw [← hdated, Table.get?_window]
      simp [hlast]
    rw [hget, Table.get?_eq_some, Table.get?_eq_some, Table.rows_takeLast]
    refine ⟨List.mem_of_mem_drop, fun hmem => ?_⟩
    have hsplit := List.take_append_drop (dated.rows.length - count.toNat) dated.rows
    rw [← hsplit, List.mem_append] at hmem
    refine hmem.resolve_left fun hold => ?_
    -- the newest bars would all be dated after the day and up to the last one
    have hsorted := dated.sorted
    rw [← hsplit, List.pairwise_append] at hsorted
    obtain ⟨-, hnewest, hbefore⟩ := hsorted
    have hdates : ∀ row ∈ dated.rows.drop (dated.rows.length - count.toNat),
        day < row.1 ∧ row.1 ≤ last := by
      intro row hrow
      refine ⟨hbefore _ hold row hrow, ?_⟩
      have hrow : dated.get? row.1 = some row.2 :=
        Table.get?_eq_some.mpr (List.mem_of_mem_drop hrow)
      rw [← hdated, Table.get?_window] at hrow
      split at hrow
      · next h => simpa using h.2
      · cases hrow
    have hlength := length_le_of_mem_Ioc hnewest hdates
    have hpos : 0 < (dated.rows.take (dated.rows.length - count.toNat)).length :=
      List.length_pos_iff.mpr (List.ne_nil_of_mem hold)
    rw [List.length_drop] at hlength
    rw [List.length_take] at hpos
    have hnonneg : 0 ≤ last - day := sub_nonneg.mpr hlast
    have hle : last - day ≤ last - start := sub_le_sub_left hstart _
    lia
  · rfl

section Range

variable {Symbol Code δ R : Type} [DecidableEq Symbol] [DecidableEq R] [ToString Symbol]

theorem validatedBars_barRecords (symbol : Symbol) (adjustment : Adjustment) (bars : Bars) :
    validatedBars symbol (EltdxProvider.barRecords symbol adjustment bars) adjustment =
      .ok bars := by
  have hmem (record : ProviderRecord Symbol) :
      record ∈ EltdxProvider.barRecords symbol adjustment bars ↔
        ∃ tradeDate bar, bars.get? tradeDate = some bar ∧
          record = .bar symbol tradeDate adjustment bar := by
    simp only [EltdxProvider.barRecords, List.mem_map, Prod.exists, Table.get?_eq_some,
      eq_comm (a := record)]
  rw [validatedBars_eq_ok]
  refine ⟨fun record hrecord => ?_, fun tradeDate bar hbar => ?_⟩
  · obtain ⟨tradeDate, bar, hbar, rfl⟩ := (hmem record).mp hrecord
    exact ⟨tradeDate, bar, rfl, hbar⟩
  · exact (hmem _).mpr ⟨tradeDate, bar, hbar, rfl⟩

namespace SyncEnvironment

/-- The situation of a sync over a range, with eltdx as the provider. -/
structure SyncsRange (env : SyncEnvironment Symbol δ R) (p : EltdxProvider Symbol Code)
    (upstream : Symbol → Option Bars) (request : SyncRequest) (start last : Date) : Prop where
  serves : p.Serves request.adjustment upstream
  window : env.provider.getDailyBarsWindow = some p.getDailyBarsWindow
  batch : env.provider.getDailyBarsBatch.isSome
  lookbackBars : request.lookbackBars = none
  start : request.start = some start
  last : request.last = some last

variable {env : SyncEnvironment Symbol δ R} {p : EltdxProvider Symbol Code}
  {upstream : Symbol → Option Bars} {request : SyncRequest} {start last : Date} {count : ℤ}
  {x : Symbol} {stored : Option (Adjustment → Bars)} {a b : SyncRun Symbol δ R}

omit [DecidableEq R] [ToString Symbol] in
theorem SyncsRange.count_eq (h : env.SyncsRange p upstream request start last)
    (hcount : request.count = .ok count) : 0 < count ∧ last - start < count := by
  unfold SyncRequest.count at hcount
  rw [h.lookbackBars, h.start, h.last] at hcount
  dsimp only at hcount
  split at hcount
  · cases hcount
  · next hle =>
    cases hcount
    have hnonneg : 0 ≤ last - start := sub_nonneg.mpr (not_lt.mp hle)
    generalize last - start = days at hnonneg
    lia

omit [DecidableEq R] in
/-- The bars of the range replace whatever else was fetched. -/
theorem SyncsRange.takeFetched_eq (h : env.SyncsRange p upstream request start last)
    (hcount : last - start < count) {bySymbol : ProviderBatch Symbol} {bars : Bars}
    (hrecords : bySymbol x = some (EltdxProvider.barRecords x request.adjustment
      ((bars.window none (some last)).takeLast count))) (a : SyncRun Symbol δ R) :
    takeFetched request bySymbol a x = (a.hold x (some (bars.window (some start) (some last)))).report
      x { status := .success, fetched := (bars.window (some start) (some last)).rows.length } := by
  unfold takeFetched
  rw [hrecords]
  dsimp only
  rw [validatedBars_barRecords]
  dsimp only
  unfold SyncRequest.clip
  rw [h.lookbackBars, h.start, h.last]
  dsimp only
  rw [Table.window_takeLast bars hcount]

omit [DecidableEq R] in
/-- A chunk without a series over budget, for any request. -/
theorem syncChunk_served (hserves : p.Serves request.adjustment upstream)
    (hwindow : env.provider.getDailyBarsWindow = some p.getDailyBarsWindow) (hcount : 0 < count)
    {chunk : List Symbol}
    (hbudget : ∀ symbol ∈ chunk, ∀ bars ∈ upstream symbol,
      ¬ p.OverBudget count request.last bars) (a : SyncRun Symbol δ R) :
    env.syncChunk request count a chunk = chunk.foldl (takeFetched request fun symbol =>
      if symbol ∈ chunk then (upstream symbol).map fun bars =>
        EltdxProvider.barRecords symbol request.adjustment
          ((bars.window none request.last).takeLast count)
      else none) a := by
  have hanswer := (EltdxProvider.getDailyBarsWindow_eq hserves chunk hcount request.last).2 hbudget
  unfold syncChunk
  rw [fetchWithInvalidSymbolIsolation, fetchBatch, hwindow]
  dsimp only
  rw [hanswer]
  rfl

omit [DecidableEq R] in
/-- A chunk with a series over budget, for any request. -/
theorem syncChunk_overBudget (hserves : p.Serves request.adjustment upstream)
    (hwindow : env.provider.getDailyBarsWindow = some p.getDailyBarsWindow) (hcount : 0 < count)
    {chunk : List Symbol}
    (hbudget : ∃ symbol ∈ chunk, ∃ bars ∈ upstream symbol, p.OverBudget count request.last bars)
    (a : SyncRun Symbol δ R) :
    env.syncChunk request count a chunk = chunk.foldl (fun run symbol =>
      run.report symbol (.ofError EltdxProvider.budgetError)) a := by
  have hanswer := (EltdxProvider.getDailyBarsWindow_eq hserves chunk hcount request.last).1 hbudget
  unfold syncChunk
  rw [fetchWithInvalidSymbolIsolation, fetchBatch, hwindow]
  dsimp only
  rw [hanswer]
  rfl

omit [DecidableEq R] in
theorem SyncsRange.syncChunk_eq (h : env.SyncsRange p upstream request start last)
    (hcount : request.count = .ok count) {chunk : List Symbol}
    (hbudget : ∀ symbol ∈ chunk, ∀ bars ∈ upstream symbol, ¬ p.OverBudget count (some last) bars)
    (a : SyncRun Symbol δ R) :
    env.syncChunk request count a chunk = chunk.foldl (takeFetched request fun symbol =>
      if symbol ∈ chunk then (upstream symbol).map fun bars =>
        EltdxProvider.barRecords symbol request.adjustment
          ((bars.window none (some last)).takeLast count)
      else none) a := by
  rw [← h.last] at hbudget ⊢
  exact syncChunk_served h.serves h.window (h.count_eq hcount).1 hbudget a

omit [DecidableEq R] in
theorem SyncsRange.syncChunk_overBudget (h : env.SyncsRange p upstream request start last)
    (hcount : request.count = .ok count) {chunk : List Symbol}
    (hbudget : ∃ symbol ∈ chunk, ∃ bars ∈ upstream symbol, p.OverBudget count (some last) bars)
    (a : SyncRun Symbol δ R) :
    env.syncChunk request count a chunk = chunk.foldl (fun run symbol =>
      run.report symbol (.ofError EltdxProvider.budgetError)) a := by
  rw [← h.last] at hbudget
  exact SyncEnvironment.syncChunk_overBudget h.serves h.window (h.count_eq hcount).1 hbudget a

omit [DecidableEq R] in
/-- A chunk is over budget, or has the bars of the range. -/
theorem SyncsRange.syncChunk_exact (h : env.SyncsRange p upstream request start last)
    (hcount : request.count = .ok count) {chunk : List Symbol} (hx : x ∈ chunk)
    (a : SyncRun Symbol δ R) :
    ((∃ symbol ∈ chunk, ∃ bars ∈ upstream symbol, p.OverBudget count (some last) bars) →
      (env.syncChunk request count a chunk).results x =
        some (.ofError EltdxProvider.budgetError)) ∧
    ((∀ symbol ∈ chunk, ∀ bars ∈ upstream symbol, ¬ p.OverBudget count (some last) bars) →
      ∀ bars ∈ upstream x,
        (env.syncChunk request count a chunk).pending x =
          some (bars.window (some start) (some last)) ∧
        (env.syncChunk request count a chunk).results x = some
          { status := .success, fetched := (bars.window (some start) (some last)).rows.length }) := by
  have htrivial : ∀ a b : SyncRun Symbol δ R, SyncRun.AgreeOn x a b → True → True :=
    fun _ _ _ h => h
  constructor
  · intro hbudget
    rw [h.syncChunk_overBudget hcount hbudget]
    refine (foldl_touch (x := x) (a := a) (l := chunk)
      (G := fun run => run.results x = some (.ofError EltdxProvider.budgetError)) (· = x) htrivial
      (fun a b hagree hb => by rw [hagree.results]; exact hb)
      (fun y _ hy a => .report_of_ne hy a _) ?_ trivial).2 (.inl ⟨x, hx, rfl⟩)
    rintro y - rfl a -
    exact ⟨trivial, Function.update_self ..⟩
  · intro hbudget bars hbars
    rw [h.syncChunk_eq hcount hbudget]
    refine (foldl_touch (x := x) (a := a) (l := chunk) (G := fun run =>
        run.pending x = some (bars.window (some start) (some last)) ∧
        run.results x = some
          { status := .success, fetched := (bars.window (some start) (some last)).rows.length }) (· = x) htrivial
      (fun a b hagree hb => by rw [hagree.results, hagree.pending]; exact hb)
      (fun y _ hy a => takeFetched_frame hy _ a) ?_ trivial).2 (.inl ⟨x, hx, rfl⟩)
    rintro y hy rfl a -
    refine ⟨trivial, ?_⟩
    rw [h.takeFetched_eq (h.count_eq hcount).2 (by rw [if_pos hy, hbars]; rfl)]
    exact ⟨Function.update_self .., Function.update_self ..⟩

/-- Up to the writes: what is to be persisted of the symbol is its range, and it is reported as
synchronized only if there is something. -/
structure Ranged (upstream : Symbol → Option Bars) (start last : Date) (x : Symbol)
    (stored : Option (Adjustment → Bars)) (run : SyncRun Symbol δ R) : Prop where
  stored : storedBars (run.db x) = stored
  pending : ∀ range ∈ run.pending x, ∃ bars ∈ upstream x,
    range = bars.window (some start) (some last)
  success : ∀ result ∈ run.results x, result.status = .success → (run.pending x).isSome

/-- The history of the symbol has been rebuilt, or it has failed; it does not go to the batches. -/
structure Rebuilt (x : Symbol) (run : SyncRun Symbol δ R) : Prop where
  normal : x ∉ run.normalSymbols
  pending : run.pending x = none
  success : ∀ result ∈ run.results x, result.status = .success → result.historyRebased

omit [DecidableEq Symbol] [DecidableEq R] [ToString Symbol] in
theorem Ranged.of_agree (h : Ranged upstream start last x stored b) (hrun : SyncRun.AgreeOn x a b) :
    Ranged upstream start last x stored a :=
  ⟨by rw [hrun.db, h.stored], by rw [hrun.pending]; exact h.pending,
    by rw [hrun.results, hrun.pending]; exact h.success⟩

omit [DecidableEq Symbol] [DecidableEq R] [ToString Symbol] in
theorem Rebuilt.of_agree (h : Rebuilt x b) (hrun : SyncRun.AgreeOn x a b) : Rebuilt x a :=
  ⟨by rw [hrun.normal]; exact h.normal, by rw [hrun.pending, h.pending],
    by rw [hrun.results]; exact h.success⟩

omit [DecidableEq R] [ToString Symbol] in
theorem Ranged.reportError (h : Ranged upstream start last x stored a) (error : HubError) :
    Ranged upstream start last x stored (a.report x (.ofError error)) := by
  refine ⟨h.stored, h.pending, fun result hresult hsuccess => ?_⟩
  simp only [SyncRun.report, Function.update_self] at hresult
  cases hresult
  cases hsuccess

omit [DecidableEq R] [ToString Symbol] in
theorem Rebuilt.report (h : Rebuilt x a) {result : SyncItemResult}
    (hresult : result.status = .success → result.historyRebased) : Rebuilt x (a.report x result) := by
  refine ⟨h.normal, h.pending, fun result' hresult' => ?_⟩
  simp only [SyncRun.report, Function.update_self] at hresult'
  cases hresult'
  exact hresult

omit [DecidableEq R] in
theorem writeRebuild_rebuilt (generations : Symbol → Option ℤ) (turn : ℕ) (revision : R)
    (rebuild : RevisionRebuild) (h : Rebuilt x a) :
    Rebuilt x (env.writeRebuild request generations turn x revision rebuild a) := by
  have hdb (db : HubDatabase Symbol δ R) : Rebuilt x { a with db } :=
    ⟨h.normal, h.pending, h.success⟩
  unfold writeRebuild
  dsimp only
  split
  · exact h.report fun _ => rfl
  · split
    · exact (hdb _).report fun _ => rfl
    · split
      · refine (hdb _).report fun hsuccess => ?_
        cases hsuccess
      · refine (hdb _).report fun hsuccess => ?_
        cases hsuccess

theorem syncRevision_ranged (generations : Symbol → Option ℤ) (count : ℤ) (turn : ℕ)
    (hkeeps : ∀ step row, storedBars (env.concurrent step x row) = storedBars row)
    (hrejects : Rejects x stored a) (hnormal : x ∉ a.normalSymbols) :
    Rejects x stored (env.syncRevision request generations count turn a x) ∨
      Rebuilt x (env.syncRevision request generations count turn a x) := by
  have hfailed : Rebuilt x a :=
    ⟨hnormal, hrejects.pending, fun result hresult hsuccess =>
      absurd ((hrejects.failed result hresult).symm.trans hsuccess) nofun⟩
  unfold syncRevision
  split
  · exact .inr (hfailed.report nofun)
  · next revision _ =>
    have hread : Rebuilt x { a with
        revisionBySymbol := Function.update a.revisionBySymbol x (some revision)
        db := env.beforeSymbol .read x a.db } :=
      ⟨hfailed.normal, hfailed.pending, hfailed.success⟩
    dsimp only
    split
    · exact .inr (hread.report nofun)
    · refine .inl ⟨?_, hrejects.pending, hrejects.failed⟩
      simp only [beforeSymbol, Function.update_self, hkeeps]
      exact hrejects.stored
    · split
      · exact .inr (hread.report nofun)
      · exact .inr (writeRebuild_rebuilt generations turn revision _ hread)

theorem compareRevisions_ranged {service : DailyBarSyncService} (generations : Symbol → Option ℤ)
    (count : ℤ) (hkeeps : ∀ step row, storedBars (env.concurrent step x row) = storedBars row)
    {symbols : List Symbol} (hx : x ∈ symbols)
    (honce : env.tracksRevisions service request → symbols.count x = 1)
    (hrejects : Rejects x stored a) (hnormal : a.normalSymbols = []) :
    Rejects x stored (env.compareRevisions service request generations count symbols a) ∨
      Rebuilt x (env.compareRevisions service request generations count symbols a) := by
  unfold compareRevisions
  split
  · next htracks =>
    obtain ⟨front, back, rfl⟩ := List.append_of_mem hx
    have hcount := honce htracks
    rw [List.count_append, List.count_cons_self] at hcount
    have hfront : x ∉ front := List.count_eq_zero.mp (by omega)
    have hback : x ∉ back := List.count_eq_zero.mp (by omega)
    have hframe (l : List Symbol) (hl : x ∉ l) (turn : ℕ) (a : SyncRun Symbol δ R) :
        SyncRun.AgreeOn x ((l.zipIdx turn).foldl
          (fun run next => env.syncRevision request generations count next.2 run next.1) a) a :=
      foldl_frame (fun next hnext a => syncRevision_frame
        (ne_of_mem_of_not_mem (List.fst_mem_of_mem_zipIdx hnext) hl) generations count a) a
    rw [List.zipIdx_append, List.zipIdx_cons, List.foldl_append, List.foldl_cons]
    have hbefore := hframe front hfront 0 a
    refine (syncRevision_ranged generations count _ hkeeps (hrejects.of_agree hbefore) ?_).imp
      (fun h => h.of_agree (hframe back hback _ _)) (fun h => h.of_agree (hframe back hback _ _))
    rw [hbefore.normal, hnormal]
    exact List.not_mem_nil
  · exact .inl ⟨hrejects.stored, hrejects.pending, hrejects.failed⟩

omit [DecidableEq R] in
theorem SyncsRange.syncChunk_ranged (h : env.SyncsRange p upstream request start last)
    (hcount : request.count = .ok count) (chunk : List Symbol)
    (ha : Ranged upstream start last x stored a) :
    Ranged upstream start last x stored (env.syncChunk request count a chunk) := by
  have hI : ∀ a b : SyncRun Symbol δ R, SyncRun.AgreeOn x a b →
      Ranged upstream start last x stored b → Ranged upstream start last x stored a :=
    fun a b hagree hb => hb.of_agree hagree
  have htrivial : ∀ a b : SyncRun Symbol δ R, SyncRun.AgreeOn x a b → True → True :=
    fun _ _ _ h => h
  by_cases hbudget : ∃ symbol ∈ chunk, ∃ bars ∈ upstream symbol, p.OverBudget count (some last) bars
  · rw [h.syncChunk_overBudget hcount hbudget]
    refine (foldl_touch (· = x) hI htrivial (fun y _ hy a => .report_of_ne hy a _) ?_ ha).1
    rintro y - rfl a ha
    exact ⟨ha.reportError _, trivial⟩
  · rw [h.syncChunk_eq hcount (by simpa using hbudget)]
    refine (foldl_touch (· = x) hI htrivial (fun y _ hy a => takeFetched_frame hy _ a) ?_ ha).1
    rintro y hy rfl a ha
    refine ⟨?_, trivial⟩
    cases hupstream : upstream y with
    | none =>
      unfold takeFetched
      beta_reduce
      rw [if_pos hy, hupstream]
      exact ha.reportError _
    | some bars =>
      rw [h.takeFetched_eq (h.count_eq hcount).2 (by rw [if_pos hy, hupstream]; rfl)]
      refine ⟨ha.stored, fun range hrange => ⟨bars, hupstream, ?_⟩, fun _ _ _ => ?_⟩
      · simp only [SyncRun.report, SyncRun.hold, Function.update_self] at hrange
        exact (Option.some.inj hrange).symm
      · simp [SyncRun.report, SyncRun.hold]

omit [DecidableEq Symbol] [DecidableEq R] [ToString Symbol] in
theorem Ranged.of_rejects (h : Rejects x stored a) : Ranged upstream start last x stored a := by
  refine ⟨h.stored, fun range hrange => ?_, fun result hresult hsuccess => ?_⟩
  · rw [h.pending] at hrange
    cases hrange
  · exact absurd ((h.failed result hresult).symm.trans hsuccess) nofun

theorem SyncsRange.fetch_ranged {service : DailyBarSyncService}
    (h : env.SyncsRange p upstream request start last) (generations : Symbol → Option ℤ)
    (hcount : request.count = .ok count)
    (hkeeps : ∀ step row, storedBars (env.concurrent step x row) = storedBars row)
    {symbols : List Symbol} (hx : x ∈ symbols)
    (honce : env.tracksRevisions service request → symbols.count x = 1)
    (hrejects : Rejects x stored a) (hnormal : a.normalSymbols = [])
    (hfetch : env.fetch service request generations count symbols a = .ok b) :
    Ranged upstream start last x stored b ∨ Rebuilt x b := by
  have hI : ∀ a b : SyncRun Symbol δ R, SyncRun.AgreeOn x a b →
      Ranged upstream start last x stored b → Ranged upstream start last x stored a :=
    fun a b hagree hb => hb.of_agree hagree
  have htrivial : ∀ a b : SyncRun Symbol δ R, SyncRun.AgreeOn x a b → True → True :=
    fun _ _ _ h => h
  have hcompared := compareRevisions_ranged generations count hkeeps hx honce hrejects hnormal
  obtain ⟨run, hfetched, hb⟩ := Except.bind_eq_ok.mp hfetch
  cases hb
  unfold fetchNormal at hfetched
  rw [if_pos h.batch] at hfetched
  cases hfetched
  generalize env.compareRevisions service request generations count symbols a = a at hcompared ⊢
  refine hcompared.imp (fun hranged => ?_) fun hrebuilt => ?_
  · have hchunks := (foldl_touch (fun chunk => x ∈ chunk) hI htrivial
      (l := chunks (max 1 service.batchSize) a.normalSymbols)
      (fun chunk _ hx a => syncChunk_frame count a hx)
      (fun chunk _ _ a ha => ⟨h.syncChunk_ranged hcount chunk ha, trivial⟩)
      (Ranged.of_rejects hranged)).1
    refine (foldl_touch (· = x) hI htrivial (fun y _ hy a => recheckRevision_frame hy a) ?_ hchunks).1
    rintro y - rfl a ha
    refine ⟨?_, trivial⟩
    have hdropped (error : HubError) :
        Ranged upstream start last y stored ((a.hold y none).report y (.ofError error)) := by
      refine ⟨ha.stored, fun range hrange => ?_, fun result hresult hsuccess => ?_⟩
      · simp [SyncRun.report, SyncRun.hold] at hrange
      · simp only [SyncRun.report, Function.update_self] at hresult
        cases hresult
        cases hsuccess
    unfold recheckRevision
    split
    · split
      · exact hdropped _
      · split
        · exact hdropped _
        · exact ha
    · exact ha
  · have hchunks : SyncRun.AgreeOn x ((chunks (max 1 service.batchSize) a.normalSymbols).foldl
        (env.syncChunk request count) a) a := by
      refine foldl_frame (fun chunk hchunk a => syncChunk_frame count a fun hxc => ?_) a
      exact hrebuilt.normal ((mem_chunks (by omega)).mp ⟨chunk, hchunk, hxc⟩)
    refine (foldl_touch (· = x) (fun a b hagree hb => hb.of_agree hagree) htrivial
      (fun y _ hy a => recheckRevision_frame hy a) ?_ (hrebuilt.of_agree hchunks)).1
    rintro y - rfl a ha
    unfold recheckRevision
    rw [ha.pending]
    exact ⟨ha, trivial⟩

/-- The bars of the range on top of the stored ones. -/
def upserted (adjustment : Adjustment) (range : Bars) (stored : Option (Adjustment → Bars)) :
    Option (Adjustment → Bars) :=
  stored.map fun stored =>
    Function.update stored adjustment ((stored adjustment).insertMany range.rows)

theorem upserted_nil {adjustment : Adjustment} {range : Bars} (h : range.rows = [])
    (stored : Option (Adjustment → Bars)) : upserted adjustment range stored = stored := by
  unfold upserted
  rw [h]
  simp

theorem bars_applyUpsert (facts : SeriesFacts δ R) (records : Bars) (revision : Option R) :
    (facts.applyUpsert records revision).bars = facts.bars.insertMany records.rows := by
  have hinvalidate (facts : SeriesFacts δ R) (changed : Changed) :
      (facts.invalidate changed).bars = facts.bars := by
    unfold SeriesFacts.invalidate
    split <;> rfl
  unfold SeriesFacts.applyUpsert upsertInSession
  cases revision with
  | none => exact hinvalidate _ _
  | some revision => exact hinvalidate _ _

/-- A write of the pending bars. -/
theorem persistRecords_stored {hubCall : HubCall Symbol} {generations : Symbol → Option ℤ}
    {symbols : List Symbol} {db : HubDatabase Symbol δ R} (hx : x ∈ symbols)
    (h : env.persistRecords request hubCall generations a symbols = .ok db) :
    storedBars (db x) =
      upserted request.adjustment ((a.pending x).getD ∅) (storedBars (a.db x)) := by
  have hupsert := eq_ok_of_call h
  unfold HubDatabase.upsertFenced at hupsert
  obtain ⟨-, -, hupsert⟩ := Except.bind_eq_ok.mp hupsert
  cases hupsert
  unfold HubDatabase.modify storedBars upserted
  rw [if_pos hx, Option.map_map, Option.map_map]
  congr 1
  funext series
  funext adjustment
  by_cases hadjustment : adjustment = request.adjustment
  · subst hadjustment
    simp [bars_applyUpsert]
  · simp [hadjustment]

/-- What a synchronized symbol has stored at the end. -/
def StoresRange (upstream : Symbol → Option Bars) (request : SyncRequest) (start last : Date)
    (x : Symbol) (stored : Option (Adjustment → Bars)) (run : SyncRun Symbol δ R) : Prop :=
  ∀ result ∈ run.results x, result.status = .success → result.historyRebased = false →
    ∃ bars ∈ upstream x, storedBars (run.db x) =
      upserted request.adjustment (bars.window (some start) (some last)) stored

omit [DecidableEq Symbol] [DecidableEq R] [ToString Symbol] in
theorem StoresRange.of_agree (h : StoresRange upstream request start last x stored b)
    (hrun : SyncRun.AgreeOn x a b) : StoresRange upstream request start last x stored a := by
  unfold StoresRange
  rw [hrun.results, hrun.db]
  exact h

omit [DecidableEq Symbol] [DecidableEq R] [ToString Symbol] in
theorem Rebuilt.storesRange (h : Rebuilt x a) :
    StoresRange upstream request start last x stored a := by
  intro result hresult hsuccess hnot
  rw [h.success result hresult hsuccess] at hnot
  cases hnot

theorem persist_storesRange {generations : Symbol → Option ℤ} {symbols : List Symbol}
    (hkeeps : ∀ step row, storedBars (env.concurrent step x row) = storedBars row)
    (hx : x ∈ symbols) (ha : Ranged upstream start last x stored a)
    (h : env.persist request generations symbols a = .ok b) :
    StoresRange upstream request start last x stored b := by
  have hbefore : storedBars (env.before .persist a.db x) = stored := by
    rw [before, hkeeps, ha.stored]
  by_cases hgrouped : x ∈ a.grouped symbols
  · -- the bars are written with the others, or on their own
    obtain ⟨range, hrange, -⟩ := (Option.any_eq_true _ _).mp (List.mem_filter.mp hgrouped).2
    obtain ⟨bars, hbars, rfl⟩ := ha.pending range hrange
    have hwritten {run : SyncRun Symbol δ R} {symbols : List Symbol} {db : HubDatabase Symbol δ R}
        {hubCall : HubCall Symbol} (hrun : SyncRun.AgreeOn x run { a with db := env.before .persist a.db })
        (hx : x ∈ symbols) (hok : env.persistRecords request hubCall generations run symbols = .ok db) :
        storedBars (db x) =
          upserted request.adjustment (bars.window (some start) (some last)) stored := by
      rw [persistRecords_stored hx hok, hrun.pending, hrun.db, hrange, hbefore]
      rfl
    unfold persist at h
    dsimp only at h
    rw [if_neg (List.ne_nil_of_mem hgrouped)] at h
    split at h
    · next db hok =>
      cases h
      refine fun _ _ _ _ => ⟨bars, hbars, ?_⟩
      have hframe (l : List Symbol) (run : SyncRun Symbol δ R) :
          (l.foldl (fun run symbol => run.reportPersisted symbol none) run).db = run.db := by
        induction l generalizing run with
        | nil => rfl
        | cons y l ih => exact ih _
      rw [hframe]
      exact hwritten (.refl x _) hgrouped hok
    · split at h
      · cases h
      · cases h
        have hnodup : (a.grouped symbols).Nodup := (List.nodup_dedup symbols).filter _
        generalize a.grouped symbols = grouped at hgrouped hnodup
        obtain ⟨front, back, rfl⟩ := List.append_of_mem hgrouped
        obtain ⟨-, hback, hdisjoint⟩ := List.nodup_append.mp hnodup
        have hframe (l : List Symbol) (hl : x ∉ l) (run : SyncRun Symbol δ R) :
            SyncRun.AgreeOn x (l.foldl (env.persistSymbol request generations) run) run :=
          foldl_frame (fun y hy run =>
            persistSymbol_frame (ne_of_mem_of_not_mem hy hl) generations run) run
        have hbeforeSymbol := hframe front
          (fun hmem => hdisjoint x hmem x List.mem_cons_self rfl)
          { a with db := env.before .persist a.db }
        rw [List.foldl_append, List.foldl_cons]
        refine StoresRange.of_agree ?_ (hframe back (List.nodup_cons.mp hback).1 _)
        unfold persistSymbol
        split
        · next db hok =>
          exact fun _ _ _ _ => ⟨bars, hbars, hwritten hbeforeSymbol List.mem_cons_self hok⟩
        · intro result hresult hsuccess
          simp only [SyncRun.reportPersisted, Function.update_self, Option.mem_def,
            Option.map_eq_some_iff] at hresult
          obtain ⟨_, -, rfl⟩ := hresult
          cases hsuccess
  · have hframe := persist_frame hgrouped h
    intro result hresult hsuccess _
    rw [hframe.results] at hresult
    obtain ⟨range, hrange⟩ := Option.isSome_iff_exists.mp (ha.success result hresult hsuccess)
    obtain ⟨bars, hbars, rfl⟩ := ha.pending range hrange
    refine ⟨bars, hbars, ?_⟩
    have hempty : (bars.window (some start) (some last)).rows = [] := by
      by_contra hne
      refine hgrouped (List.mem_filter.mpr ⟨List.mem_dedup.mpr hx, ?_⟩)
      rw [hrange]
      simpa using hne
    rw [hframe.db, upserted_nil hempty]
    exact hbefore

omit [DecidableEq R] in
theorem complete_storesRange {generations : Symbol → Option ℤ} {symbols : List Symbol}
    (hkeeps : ∀ step row, storedBars (env.concurrent step x row) = storedBars row)
    (ha : StoresRange upstream request start last x stored a)
    (h : env.complete request generations symbols a = .ok b) :
    StoresRange upstream request start last x stored b := by
  have hbefore : StoresRange upstream request start last x stored
      { a with db := env.before .complete a.db } := by
    intro result hresult hsuccess hnot
    obtain ⟨bars, hbars, hstored⟩ := ha result hresult hsuccess hnot
    exact ⟨bars, hbars, by rw [← hstored]; exact hkeeps _ _⟩
  unfold complete at h
  dsimp only at h
  split at h
  · next db hcall =>
    cases h
    have hdb := eq_ok_of_ite_call hcall
    unfold HubDatabase.completeSync at hdb
    split at hdb
    · cases hdb
      exact hbefore
    · obtain ⟨-, -, hdb⟩ := Except.bind_eq_ok.mp hdb
      cases hdb
      intro result hresult hsuccess hnot
      dsimp only
      rw [storedBars_modify fun _ => rfl]
      exact hbefore result hresult hsuccess hnot
  · split at h
    · cases h
    · cases h
      refine (foldl_touch (f := SyncRun.reportSuperseded) (· = x)
        (fun a b hagree hb => hb.of_agree hagree)
        (fun _ _ _ h => h : ∀ a b : SyncRun Symbol δ R, SyncRun.AgreeOn x a b → True → True)
        (fun y _ hy a => ⟨rfl, Function.update_of_ne (Ne.symm hy) _ _, rfl, .rfl, rfl⟩) ?_
        hbefore).1
      rintro y - rfl a -
      refine ⟨fun result hresult hsuccess => ?_, trivial⟩
      simp only [SyncRun.reportSuperseded, Function.update_self, Option.mem_def,
        Option.map_eq_some_iff] at hresult
      obtain ⟨_, -, rfl⟩ := hresult
      cases hsuccess

/-- A symbol that is reported as synchronized, and not rebuilt, has exactly the provider's bars of the
range on top of its stored ones. -/
theorem SyncsRange.sync_storesRange {Raw : Type} {service : DailyBarSyncService}
    (h : env.SyncsRange p upstream request start last)
    (hkeeps : ∀ step row, storedBars (env.concurrent step x row) = storedBars row)
    {normalizeSymbol : Raw → Except HubError Symbol} {bestEffortSymbol : Raw → Symbol}
    {symbols : List Raw} (hx : x ∈ (canonicalizeSymbols normalizeSymbol bestEffortSymbol symbols).1)
    (honce : env.tracksRevisions service request →
      (canonicalizeSymbols normalizeSymbol bestEffortSymbol symbols).1.count x = 1)
    {db : HubDatabase Symbol δ R}
    (hsync : env.sync service request normalizeSymbol bestEffortSymbol symbols db = .ok b) :
    StoresRange upstream request start last x (storedBars (db x)) b := by
  obtain ⟨count, generations, first, fetched, persisted, hcount, hfirst, hnormal, hfetch, hpersist,
    hcomplete⟩ := sync_phases x hkeeps rfl hsync
  refine complete_storesRange hkeeps ?_ hcomplete
  rcases h.fetch_ranged generations hcount hkeeps hx honce hfirst hnormal hfetch with
    hranged | hrebuilt
  · exact persist_storesRange hkeeps hx hranged hpersist
  · have hframe := persist_frame (notMem_grouped hrebuilt.pending _) hpersist
    have hbefore : Rebuilt x { fetched with db := env.before .persist fetched.db } :=
      ⟨hrebuilt.normal, hrebuilt.pending, hrebuilt.success⟩
    exact (hbefore.of_agree hframe).storesRange

end SyncEnvironment

/-- The window method returns exactly the newest bars up to the cutoff, or raises for the budget;
a sync over a range with its count estimate has exactly the provider's bars of the range. -/
theorem getDailyBarsWindow_exact {Raw : Type} (p : EltdxProvider Symbol Code)
    (upstream : Symbol → Option Bars) :
    (∀ adjustment, p.Serves adjustment upstream → ∀ symbols count last, 0 < count →
      ((∃ symbol ∈ symbols, ∃ bars ∈ upstream symbol, p.OverBudget count last bars) →
        p.getDailyBarsWindow symbols adjustment count last = .error EltdxProvider.budgetError) ∧
      ((∀ symbol ∈ symbols, ∀ bars ∈ upstream symbol, ¬ p.OverBudget count last bars) →
        ∃ bySymbol, p.getDailyBarsWindow symbols adjustment count last = .ok bySymbol ∧
          ∀ symbol ∈ symbols, bySymbol symbol = (upstream symbol).map fun bars =>
            let dated := bars.rows.filter fun row => last.all (row.1 ≤ ·)
            (dated.drop (dated.length - count.toNat)).map fun row =>
              .bar symbol row.1 adjustment row.2)) ∧
    ∀ (env : SyncEnvironment Symbol δ R) request start last,
      env.SyncsRange p upstream request start last →
      (∀ count run chunk, ∀ x ∈ chunk, request.count = .ok count →
        ((∃ symbol ∈ chunk, ∃ bars ∈ upstream symbol, p.OverBudget count (some last) bars) →
          (env.syncChunk request count run chunk).results x =
            some (.ofError EltdxProvider.budgetError)) ∧
        ((∀ symbol ∈ chunk, ∀ bars ∈ upstream symbol, ¬ p.OverBudget count (some last) bars) →
          ∀ bars ∈ upstream x,
            (env.syncChunk request count run chunk).pending x =
              some (bars.window (some start) (some last)) ∧
            (env.syncChunk request count run chunk).results x = some
              { status := .success, fetched := (bars.window (some start) (some last)).rows.length })) ∧
      ∀ service (normalizeSymbol : Raw → Except HubError Symbol) bestEffortSymbol symbols db run,
        ∀ x ∈ (canonicalizeSymbols normalizeSymbol bestEffortSymbol symbols).1,
        (∀ step row, SyncEnvironment.storedBars (env.concurrent step x row) =
          SyncEnvironment.storedBars row) →
        (env.tracksRevisions service request →
          (canonicalizeSymbols normalizeSymbol bestEffortSymbol symbols).1.count x = 1) →
        env.sync service request normalizeSymbol bestEffortSymbol symbols db = .ok run →
        ∀ result ∈ run.results x, result.status = .success → result.historyRebased = false →
          ∃ bars ∈ upstream x, SyncEnvironment.storedBars (run.db x) =
            (SyncEnvironment.storedBars (db x)).map fun stored =>
              Function.update stored request.adjustment ((stored request.adjustment).insertMany
                (bars.window (some start) (some last)).rows) := by
  refine ⟨fun adjustment hserves symbols count last hcount => ?_, fun env request start last h =>
    ⟨fun count run chunk x hx hcount => h.syncChunk_exact hcount hx run, ?_⟩⟩
  · obtain ⟨hover, hok⟩ := EltdxProvider.getDailyBarsWindow_eq hserves symbols hcount last
    refine ⟨hover, fun hbudget => ⟨_, hok hbudget, fun symbol hsymbol => ?_⟩⟩
    rw [if_pos hsymbol]
    congr 1
    funext bars
    dsimp only
    rw [EltdxProvider.barRecords, Table.rows_takeLast, Table.window, Table.rows_filter]
    simp only [Option.all_none, Bool.true_and]
  · intro service normalizeSymbol bestEffortSymbol symbols db run x hx hkeeps honce hsync
    exact h.sync_storesRange hkeeps hx honce hsync

end Range

/-- A provider of five days, read by a sync of the days from 2 to 4. -/
def fiveDaysEnvironment : SyncEnvironment ℕ Unit ℕ where
  provider :=
    { getDailyBars := fun _ _ _ _ => .ok []
      getDailyBarsBatch := some fun symbols adjustment count =>
        (seriesProvider fun _ => some fiveDays).getDailyBarsWindow symbols adjustment count none
      getDailyBarsWindow := some (seriesProvider fun _ => some fiveDays).getDailyBarsWindow
      getAdjustmentRevision := none
      authoritativeHistory := false }
  concurrent _ _ row := row
  outage _ := none

def fiveDaysRequest : SyncRequest :=
  { start := some 2, last := some 4, adjustment := .none, lookbackBars := none }

/-- One stored bar, of day 1, at another price. -/
def firstDaySeries : SecuritySeries Unit ℕ := fun _ =>
  { bars := .ofList [(1, ⟨9, 9, 9, 9, 1, none⟩)], stream := {}, descriptor := none }

theorem fiveDays_serves (adjustment : Adjustment) :
    (seriesProvider fun _ : ℕ => some fiveDays).Serves adjustment fun _ => some fiveDays := by
  refine seriesProvider_serves (fun symbol bars hbars => ?_) adjustment
  cases hbars
  decide

theorem fiveDaysEnvironment_syncsRange :
    fiveDaysEnvironment.SyncsRange (seriesProvider fun _ => some fiveDays) (fun _ => some fiveDays)
      fiveDaysRequest 2 4 where
  serves := fiveDays_serves _
  window := rfl
  batch := rfl
  lookbackBars := rfl
  start := rfl
  last := rfl

/-- Three bars up to day 4, and a sync that stores those of the range. -/
theorem getDailyBarsWindow_exact_fiveDays :
    (∃ bySymbol, (seriesProvider fun _ : ℕ => some fiveDays).getDailyBarsWindow [600519] .none 3
      (some 4) = .ok bySymbol ∧ (bySymbol 600519).map (·.length) = some 3) ∧
    ∃ run, fiveDaysEnvironment.sync ⟨false, 50⟩ fiveDaysRequest .ok id [600519]
      (fun _ => some firstDaySeries) = .ok run ∧
        (SyncEnvironment.storedBars (run.db 600519)).map (fun stored => (stored .none).keys) =
          some [1, 2, 3, 4] := by
  obtain ⟨hwindow, hsync⟩ := @getDailyBarsWindow_exact ℕ _ Unit ℕ _ _ _ ℕ
    (seriesProvider fun _ : ℕ => some fiveDays) fun _ => some fiveDays
  constructor
  · have hbudget : ¬(seriesProvider fun _ : ℕ => some fiveDays).OverBudget 3 (some 4) fiveDays :=
      fun h => absurd h.1 (by decide)
    obtain ⟨bySymbol, hok, hbars⟩ :=
      (hwindow .none (fiveDays_serves _) [600519] 3 (some 4) (by decide)).2 (by
        rintro symbol - bars ⟨⟩
        exact hbudget)
    exact ⟨bySymbol, hok, by rw [hbars 600519 List.mem_cons_self]; decide⟩
  · have hreported : (fiveDaysEnvironment.sync ⟨false, 50⟩ fiveDaysRequest .ok id [600519]
        fun _ => some firstDaySeries).map (fun run => (run.results 600519).map fun result =>
          (result.status, result.historyRebased)) = .ok (some (.success, false)) := by
      decide +kernel
    obtain ⟨run, hrun, hreport⟩ := Except.map_eq_ok.mp hreported
    obtain ⟨result, hresult, hsuccess⟩ := Option.map_eq_some_iff.mp hreport
    obtain ⟨hstatus, hrebased⟩ := Prod.ext_iff.mp hsuccess
    obtain ⟨bars, hbars, hstored⟩ :=
      (hsync fiveDaysEnvironment fiveDaysRequest 2 4 fiveDaysEnvironment_syncsRange).2 ⟨false, 50⟩
        .ok id [600519] _ run 600519 (by decide) (fun _ _ => rfl) (fun h => by cases h) hrun
        result hresult hstatus hrebased
    cases hbars
    exact ⟨run, hrun, by rw [hstored]; decide⟩

end Apanel
