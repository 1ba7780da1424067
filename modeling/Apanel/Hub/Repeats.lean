import Apanel.Hub.RowOrder

/-!
# Repeated symbols

A symbol that a request repeats is compared with its revision as often, and a later comparison sees
what an earlier one has written. `sync_dropRepeated` says when the request comes to the same as the
request without the repetitions.
-/

namespace Apanel

theorem Table.minKey?_getD_le_maxKey?_getD {κ α : Type} [LinearOrder κ] (t : Table κ α)
    {first latest : κ} (hle : first ≤ latest) : t.minKey?.getD first ≤ t.maxKey?.getD latest := by
  cases hmin : t.minKey? with
  | none => rwa [Table.maxKey?_eq_none.mpr (Table.minKey?_eq_none.mp hmin)]
  | some first' =>
    have hkey := Table.mem_keys_of_minKey? hmin
    obtain ⟨latest', hmax⟩ := Table.exists_maxKey? hkey
    rw [hmax]
    exact Table.le_maxKey? hmax hkey

section Repeats

variable {Raw Symbol δ R : Type} [DecidableEq Symbol] [DecidableEq R] [ToString Symbol]

/-- The request without the entries whose symbol has occurred before. -/
def dropRepeated (normalizeSymbol : Raw → Except HubError Symbol) (seen : List Symbol) :
    List Raw → List Raw
  | [] => []
  | raw :: symbols =>
    match normalizeSymbol raw with
    | .error _ => raw :: dropRepeated normalizeSymbol seen symbols
    | .ok symbol =>
      if symbol ∈ seen then dropRepeated normalizeSymbol seen symbols
      else raw :: dropRepeated normalizeSymbol (symbol :: seen) symbols

/-- One entry of `_canonicalize_symbols`. -/
def canonicalizeEntry (normalizeSymbol : Raw → Except HubError Symbol)
    (bestEffortSymbol : Raw → Symbol) (found : List Symbol × (Symbol → Option SyncItemResult))
    (raw : Raw) : List Symbol × (Symbol → Option SyncItemResult) :=
  match normalizeSymbol raw with
  | .error error =>
    let symbol := bestEffortSymbol raw
    (found.1, if (found.2 symbol).isSome then found.2 else
      Function.update found.2 symbol (some (.ofError error)))
  | .ok symbol => (if (found.2 symbol).isNone then found.1 ++ [symbol] else found.1, found.2)

/-- What two requests have found, where the second one has skipped the repeated symbols. -/
structure FoundAlike (seen : List Symbol)
    (found found' : List Symbol × (Symbol → Option SyncItemResult)) : Prop where
  nodup : found'.1.Nodup
  mem (x : Symbol) : x ∈ found.1 ↔ x ∈ found'.1
  results : found.2 = found'.2
  subset : ∀ x ∈ found'.1, x ∈ seen
  listed : ∀ x ∈ seen, x ∈ found'.1 ∨ (found'.2 x).isSome

omit [ToString Symbol] in
theorem foldl_canonicalizeEntry (normalizeSymbol : Raw → Except HubError Symbol)
    (bestEffortSymbol : Raw → Symbol) (symbols : List Raw) {seen : List Symbol}
    {found found' : List Symbol × (Symbol → Option SyncItemResult)}
    (h : FoundAlike seen found found') :
    ∃ seen', FoundAlike seen'
      (symbols.foldl (canonicalizeEntry normalizeSymbol bestEffortSymbol) found)
      ((dropRepeated normalizeSymbol seen symbols).foldl
        (canonicalizeEntry normalizeSymbol bestEffortSymbol) found') := by
  induction symbols generalizing seen found found' with
  | nil => exact ⟨seen, h⟩
  | cons raw symbols ih =>
    unfold dropRepeated
    cases hraw : normalizeSymbol raw with
    | error error =>
      refine ih ?_
      unfold canonicalizeEntry
      rw [hraw]
      refine ⟨h.nodup, h.mem, by rw [h.results], h.subset, fun x hx => ?_⟩
      refine (h.listed x hx).imp_right fun hsome => ?_
      dsimp only
      split
      · exact hsome
      · by_cases heq : x = bestEffortSymbol raw
        · rw [heq, Function.update_self]
          rfl
        · rwa [Function.update_of_ne heq]
    | ok symbol =>
      dsimp only
      rw [List.foldl_cons]
      split
      · next hseen =>
        refine ih ⟨h.nodup, fun x => ?_, ?_, h.subset, h.listed⟩
        · unfold canonicalizeEntry
          rw [hraw]
          dsimp only
          split
          · next hnone =>
            rw [h.results] at hnone
            have hlisted := (h.listed symbol hseen).resolve_right (by simpa using hnone)
            rw [List.mem_append, List.mem_singleton, h.mem]
            exact ⟨fun hx => hx.elim id fun heq => heq ▸ hlisted, .inl⟩
          · exact h.mem x
        · unfold canonicalizeEntry
          rw [hraw]
          exact h.results
      · next hseen =>
        refine ih ?_
        unfold canonicalizeEntry
        rw [hraw, h.results]
        dsimp only
        split
        · refine ⟨?_, fun x => ?_, rfl, fun x hx => ?_, fun x hx => ?_⟩
          · rw [List.nodup_append]
            refine ⟨h.nodup, List.nodup_singleton _, fun x hx y hy heq => hseen ?_⟩
            rw [← List.mem_singleton.mp hy, ← heq]
            exact h.subset x hx
          · rw [List.mem_append, List.mem_append, h.mem]
          · rcases List.mem_append.mp hx with hx | hx
            · exact List.mem_cons_of_mem _ (h.subset x hx)
            · exact List.mem_singleton.mp hx ▸ List.mem_cons_self
          · rcases List.mem_cons.mp hx with rfl | hx
            · exact .inl (List.mem_append_right _ List.mem_cons_self)
            · exact (h.listed x hx).imp_left (List.mem_append_left _)
        · next hsome =>
          refine ⟨h.nodup, h.mem, rfl, fun x hx => List.mem_cons_of_mem _ (h.subset x hx),
            fun x hx => ?_⟩
          rcases List.mem_cons.mp hx with rfl | hx
          · exact .inr (by simpa [Option.isSome_iff_ne_none] using hsome)
          · exact h.listed x hx

omit [ToString Symbol] in
/-- The canonical symbols are the same, each of them once, and so are the other results. -/
theorem canonicalizeSymbols_dropRepeated (normalizeSymbol : Raw → Except HubError Symbol)
    (bestEffortSymbol : Raw → Symbol) (symbols : List Raw) :
    let canonical := canonicalizeSymbols normalizeSymbol bestEffortSymbol symbols
    let canonical' := canonicalizeSymbols normalizeSymbol bestEffortSymbol
      (dropRepeated normalizeSymbol [] symbols)
    canonical'.1.Nodup ∧ (∀ x, x ∈ canonical.1 ↔ x ∈ canonical'.1) ∧
      canonical.2 = canonical'.2 := by
  have hnothing : FoundAlike ([] : List Symbol) ([], fun _ => none) ([], fun _ => none) :=
    ⟨List.nodup_nil, fun _ => .rfl, rfl, nofun, nofun⟩
  obtain ⟨_, h⟩ := foldl_canonicalizeEntry normalizeSymbol bestEffortSymbol symbols hnothing
  exact ⟨h.nodup, h.mem, h.results⟩

namespace SyncEnvironment

variable {env : SyncEnvironment Symbol δ R} {service : DailyBarSyncService} {request : SyncRequest}
  {count : ℤ} {generations : Symbol → Option ℤ} {x : Symbol} {a b : SyncRun Symbol δ R}

/-! ## What one comparison does -/

/-- The revision branch replaces the history in the row: its revision has changed, and the rebuild
passes its checks with bars to write. -/
def RebuildsRow (env : SyncEnvironment Symbol δ R) (request : SyncRequest) (count : ℤ) (x : Symbol)
    (row : Option (SecuritySeries δ R)) : Prop :=
  ∃ revision existing rebuild, env.sampleRevision .before x = .ok revision ∧
    row.bind (·.staleHistory revision) = some existing ∧
    env.planRebuild request count x revision existing = .ok rebuild ∧ rebuild.coverage.isSome

/-- The revision branch leaves the symbol to the batches. -/
def currentHistory (env : SyncEnvironment Symbol δ R) (x : Symbol)
    (row : Option (SecuritySeries δ R)) : Bool :=
  match env.sampleRevision .before x with
  | .error _ => false
  | .ok revision => (row.bind (·.staleHistory revision)).isNone

omit [DecidableEq R] in
theorem writeRebuild_normal {turn : ℕ} (symbol : Symbol) (revision : R) (rebuild : RevisionRebuild)
    (a : SyncRun Symbol δ R) :
    (env.writeRebuild request generations turn symbol revision rebuild a).normalSymbols =
      a.normalSymbols := by
  unfold writeRebuild
  dsimp only
  split
  · rfl
  · split
    · rfl
    · split <;> rfl

theorem syncRevision_normal (hquiet : env.Quiet x) (hA : env.NoOutage) (a : SyncRun Symbol δ R) :
    (env.syncRevision request generations count 0 a x).normalSymbols =
      if env.currentHistory x (a.db x) then a.normalSymbols ++ [x] else a.normalSymbols := by
  rw [hquiet.syncRevision_eq hA]
  unfold currentHistory
  cases env.sampleRevision .before x with
  | error error => rfl
  | ok revision =>
    rcases Option.eq_none_or_eq_some ((a.db x).bind (·.staleHistory revision)) with
      hstale | ⟨existing, hstale⟩
    · simp only [hstale, Option.isNone_none, if_true]
    · simp only [hstale, Option.isNone_some]
      cases env.planRebuild request count x revision existing with
      | error error => rfl
      | ok rebuild => exact writeRebuild_normal x revision rebuild _

/-- A comparison that writes nothing can be repeated. -/
theorem syncRevision_unwritten (hquiet : env.Quiet x) (hA : env.NoOutage)
    (hrow : ¬ env.RebuildsRow request count x (a.db x)) :
    (env.syncRevision request generations count 0 a x).db = a.db ∧
    SyncRun.AgreeOn x
      (env.syncRevision request generations count 0
        (env.syncRevision request generations count 0 a x) x)
      (env.syncRevision request generations count 0 a x) := by
  cases hsample : env.sampleRevision .before x with
  | error error =>
    simp only [hquiet.syncRevision_eq hA, hsample]
    exact ⟨rfl, report_idem _ _⟩
  | ok revision =>
    have hrevised (a : SyncRun Symbol δ R) (result : SyncItemResult) : SyncRun.AgreeOn x
        (SyncRun.report { a with
          revisionBySymbol := Function.update (Function.update a.revisionBySymbol x (some revision))
            x (some revision)
          results := Function.update a.results x (some result) } x result)
        (SyncRun.report { a with
          revisionBySymbol := Function.update a.revisionBySymbol x (some revision) } x result) :=
      ⟨rfl, by simp [SyncRun.report], by simp [SyncRun.report], .rfl, rfl⟩
    cases hstale : (a.db x).bind (·.staleHistory revision) with
    | none =>
      simp only [hquiet.syncRevision_eq hA, hsample, hstale]
      refine ⟨trivial, rfl, rfl, by simp, ?_, rfl⟩
      simp
    | some existing =>
      cases hplan : env.planRebuild request count x revision existing with
      | error error =>
        simp only [hquiet.syncRevision_eq hA, hsample, hstale, hplan, SyncRun.report]
        exact ⟨trivial, hrevised a _⟩
      | ok rebuild =>
        have hnone : rebuild.coverage = none := by
          by_contra hsome
          exact hrow ⟨revision, existing, rebuild, hsample, hstale, hplan,
            Option.isSome_iff_ne_none.mpr hsome⟩
        simp only [hquiet.syncRevision_eq hA, hsample, hstale, hplan, writeRebuild, hnone,
          SyncRun.report]
        exact ⟨trivial, hrevised a _⟩

/-- A rebuild with bars to write covers the range that it replaces. -/
theorem planRebuild_covers {revision : R} {existing : Bars} {rebuild : RevisionRebuild}
    (h : env.planRebuild request count x revision existing = .ok rebuild)
    {coverageStart coverageEnd : Date} (hcoverage : rebuild.coverage = some (coverageStart, coverageEnd)) :
    rebuild.bars.rows ≠ [] ∧
      SeriesFacts.reconcileCovers rebuild.bars coverageStart coverageEnd := by
  rw [planRebuild_eq] at h
  split at h
  · cases h
  · obtain ⟨bySymbol, -, h⟩ := Except.bind_eq_ok.mp h
    split at h
    · cases h
    · obtain ⟨bars, -, h⟩ := Except.bind_eq_ok.mp h
      unfold checkRebuild at h
      dsimp only at h
      split at h
      · next first latest hmin hmax =>
        split at h
        · cases h
        · next hcovered =>
          rw [not_or, not_lt, not_lt] at hcovered
          split at h
          · cases h
          · obtain ⟨revision', -, h⟩ := Except.bind_eq_ok.mp h
            split at h
            · cases h
            · cases h
              cases hcoverage
              refine ⟨fun hnil => ?_, ?_⟩
              · rw [Table.minKey?_eq_none.mpr hnil] at hmin
                cases hmin
              · have hordered := Table.minKey?_getD_le_maxKey?_getD existing
                  (Table.minKey?_le hmin (Table.mem_keys_of_maxKey? hmax))
                unfold SeriesFacts.reconcileCovers
                rw [hmin, hmax]
                simp [hordered, hcovered.1, hcovered.2]
      · split at h
        · cases h
        · cases h
          cases hcoverage

/-- A comparison that writes leaves a current history behind. -/
theorem syncRevision_written (hquiet : env.Quiet x) (hA : env.NoOutage)
    (hqfq : request.adjustment = .qfq)
    (hwritable : a.db.Writable generations request.adjustment x)
    (h : env.RebuildsRow request count x (a.db x)) :
    env.currentHistory x ((env.syncRevision request generations count 0 a x).db x) ∧
    (∃ result, (env.syncRevision request generations count 0 a x).results x = some result ∧
      result.historyRebased) ∧
    (env.syncRevision request generations count 0 a x).normalSymbols = a.normalSymbols ∧
    (env.syncRevision request generations count 0 a x).pending = a.pending := by
  obtain ⟨revision, existing, rebuild, hsample, hstale, hplan, hcoverage⟩ := h
  obtain ⟨⟨coverageStart, coverageEnd⟩, hcoverage⟩ := Option.isSome_iff_exists.mp hcoverage
  obtain ⟨hrows, hcovers⟩ := planRebuild_covers hplan hcoverage
  obtain ⟨series, hrow⟩ := Option.isSome_iff_exists.mp hwritable.1
  rw [hquiet.syncRevision_eq hA, hsample]
  dsimp only
  rw [hstale]
  dsimp only
  rw [hplan]
  unfold writeRebuild
  dsimp only
  rw [hcoverage]
  dsimp only
  rw [hquiet.beforeSymbol_eq, hA.call_eq, HubDatabase.reconcileRevision_ok hrows hcovers hwritable]
  refine ⟨?_, ⟨_, Function.update_self .., rfl⟩, rfl, rfl⟩
  unfold currentHistory
  rw [hsample]
  simp only [SyncRun.report, HubDatabase.modify, if_pos List.mem_cons_self, hrow, hqfq]
  rw [Option.map_some, Option.bind_some, staleHistory_eq_none]
  · rfl
  · rw [Function.update_self]
    exact descriptor_applyReconcile ..

/-! ## Two requests -/

omit [DecidableEq Symbol] [DecidableEq R] [ToString Symbol] in
theorem foldl_replicate_fixed {f : SyncRun Symbol δ R → Symbol → SyncRun Symbol δ R}
    (hf : ∀ a b, SyncRun.AgreeOn x a b → SyncRun.AgreeOn x (f a x) (f b x))
    (hfixed : SyncRun.AgreeOn x (f a x) a) (n : ℕ) :
    SyncRun.AgreeOn x ((List.replicate n x).foldl f a) a := by
  induction n with
  | zero => exact .refl x a
  | succ n ih => exact (SyncRun.AgreeOn.foldl_replicate hf n hfixed).trans ih

variable (request count generations) in
/-- The comparisons of a request do to the symbol what its own ones do. -/
theorem foldl_syncRevision_own (hA : env.NoOutage) (symbols : List Symbol)
    (a : SyncRun Symbol δ R) :
    SyncRun.AgreeOn x (symbols.foldl (env.syncRevision request generations count 0) a)
      ((List.replicate (symbols.count x) x).foldl (env.syncRevision request generations count 0)
        a) := by
  rw [← List.filter_eq]
  exact SyncRun.AgreeOn.foldl_filter
    (fun a b hrun => syncRevision_agree (.refl request x env) hA hA rfl count hrun)
    (fun a y hy => syncRevision_frame hy generations count a) symbols (.refl x a)

/-- The comparisons of two requests, of which the second one repeats no symbol. -/
theorem foldl_syncRevision_repeats (hquiet : env.Quiet x) (hA : env.NoOutage)
    {symbols symbols' : List Symbol} (hnodup : symbols'.Nodup)
    (hmem : x ∈ symbols ↔ x ∈ symbols')
    (hrepeats : 2 ≤ symbols.count x → ¬ env.RebuildsRow request count x (a.db x)) :
    SyncRun.AgreeOn x (symbols.foldl (env.syncRevision request generations count 0) a)
      (symbols'.foldl (env.syncRevision request generations count 0) a) := by
  have hagree (a b : SyncRun Symbol δ R) (hrun : SyncRun.AgreeOn x a b) :
      SyncRun.AgreeOn x (env.syncRevision request generations count 0 a x)
        (env.syncRevision request generations count 0 b x) :=
    syncRevision_agree (.refl request x env) hA hA rfl count hrun
  refine (foldl_syncRevision_own request count generations hA symbols a).trans
    (.trans ?_ (foldl_syncRevision_own request count generations hA symbols' a).symm)
  by_cases hx : x ∈ symbols
  · rw [List.count_eq_one_of_mem hnodup (hmem.mp hx)]
    obtain ⟨n, hn⟩ : ∃ n, symbols.count x = n + 1 :=
      Nat.exists_eq_succ_of_ne_zero (List.count_pos_iff.mpr hx).ne'
    rw [hn] at hrepeats ⊢
    cases n with
    | zero => exact .refl x _
    | succ n =>
      exact foldl_replicate_fixed hagree (syncRevision_unwritten hquiet hA (hrepeats (by omega))).2 _
  · rw [List.count_eq_zero_of_not_mem hx, List.count_eq_zero_of_not_mem (mt hmem.mpr hx)]
    exact .refl x a

theorem foldl_syncRevision_normal (hquiet : ∀ y, env.Quiet y) (hA : env.NoOutage)
    (symbols : List Symbol) (a : SyncRun Symbol δ R)
    (hrepeats : ∀ y, 2 ≤ symbols.count y → ¬ env.RebuildsRow request count y (a.db y)) :
    (symbols.foldl (env.syncRevision request generations count 0) a).normalSymbols =
      a.normalSymbols ++ symbols.filter fun y => env.currentHistory y (a.db y) := by
  induction symbols generalizing a with
  | nil => simp
  | cons y symbols ih =>
    -- a row that is compared again has not been written
    have hrows : ∀ z ∈ symbols,
        (env.syncRevision request generations count 0 a y).db z = a.db z := by
      intro z hz
      by_cases heq : z = y
      · subst heq
        have hcount : 2 ≤ (z :: symbols).count z := by
          rw [List.count_cons_self]
          have := List.count_pos_iff.mpr hz
          omega
        rw [(syncRevision_unwritten (hquiet z) hA (hrepeats z hcount)).1]
      · exact (syncRevision_frame (Ne.symm heq) generations count a).db
    rw [List.foldl_cons, ih]
    · rw [syncRevision_normal (hquiet y) hA, List.filter_congr fun z hz => by rw [hrows z hz],
        List.filter_cons]
      split <;> simp
    · intro z hz
      rw [hrows z (List.count_pos_iff.mp (by omega))]
      exact hrepeats z (hz.trans List.count_le_count_cons)

/-- The symbol goes to the batches. -/
def goesToBatches (env : SyncEnvironment Symbol δ R) (service : DailyBarSyncService)
    (request : SyncRequest) (db : HubDatabase Symbol δ R) (x : Symbol) : Bool :=
  !env.tracksRevisions service request || env.currentHistory x (db x)

variable (generations) in
theorem compareRevisions_normal (hquiet : ∀ y, env.Quiet y) (hA : env.NoOutage)
    (symbols : List Symbol) (hnormal : a.normalSymbols = [])
    (hrepeats : env.tracksRevisions service request → ∀ y, 2 ≤ symbols.count y →
      ¬ env.RebuildsRow request count y (a.db y)) :
    (env.compareRevisions service request generations count symbols a).normalSymbols =
      symbols.filter (env.goesToBatches service request a.db) := by
  rw [hA.compareRevisions_eq]
  unfold goesToBatches
  split
  · next htracks =>
    rw [foldl_syncRevision_normal hquiet hA symbols a (hrepeats htracks), hnormal, htracks]
    rfl
  · next htracks =>
    simp [htracks]

variable (generations) in
theorem compareRevisions_repeats (hquiet : env.Quiet x) (hA : env.NoOutage)
    {symbols symbols' : List Symbol} (hnodup : symbols'.Nodup)
    (hmem : x ∈ symbols ↔ x ∈ symbols')
    (hrepeats : env.tracksRevisions service request → 2 ≤ symbols.count x →
      ¬ env.RebuildsRow request count x (a.db x)) :
    SyncRun.AgreeOn x (env.compareRevisions service request generations count symbols a)
      (env.compareRevisions service request generations count symbols' a) := by
  rw [hA.compareRevisions_eq, hA.compareRevisions_eq]
  split
  · next htracks => exact foldl_syncRevision_repeats hquiet hA hnodup hmem (hrepeats htracks)
  · exact ⟨rfl, rfl, rfl, hmem, rfl⟩

/-- The batches of two lists bring the same for each symbol, whatever the run has found so far. -/
def BatchesAlike (env : SyncEnvironment Symbol δ R) (service : DailyBarSyncService)
    (request : SyncRequest) (symbols symbols' : List Symbol) : Prop :=
  env.provider.getDailyBarsBatch.isSome → ∀ count, request.count = .ok count →
    ∀ x (a : SyncRun Symbol δ R), SyncRun.AgreeOn x
      ((chunks (max 1 service.batchSize) symbols).foldl (env.syncChunk request count) a)
      ((chunks (max 1 service.batchSize) symbols').foldl (env.syncChunk request count) a)

omit [DecidableEq R] in
/-- A provider without provider-wide failures. -/
theorem batchesAlike_of_perSymbol
    (h : ∀ count, request.count = .ok count → BatchesPerSymbol (env.fetchBatch request count))
    {symbols symbols' : List Symbol} (hmem : ∀ x, x ∈ symbols ↔ x ∈ symbols') :
    env.BatchesAlike service request symbols symbols' := by
  intro _ count hcount x a
  refine SyncRun.AgreeOn.foldl_both (fun chunk => x ∈ chunk)
    (fun _ _ => fetchSymbol_agree (.refl request x env) count)
    (fun _ _ => fetchSymbol_agree (.refl request x env) count)
    (fun _ _ => fetchSymbol_agree (.refl request x env) count) (fetchSymbol_idem count)
    (fetchSymbol_idem count) (fun chunk a => syncChunk_agree (h count hcount) chunk a)
    (fun chunk a => syncChunk_agree (h count hcount) chunk a) ?_ (.refl x a)
  have hsize : 0 < max 1 service.batchSize := by omega
  rw [mem_chunks hsize, mem_chunks hsize]
  exact hmem x

omit [DecidableEq R] in
theorem syncChunk_congr (chunk : List Symbol) (hrun : SyncRun.AgreeOn x a b) :
    SyncRun.AgreeOn x (env.syncChunk request count a chunk)
      (env.syncChunk request count b chunk) := by
  have hreport (y : Symbol) (error : HubError) {a b : SyncRun Symbol δ R}
      (hrun : SyncRun.AgreeOn x a b) :
      SyncRun.AgreeOn x (a.report y (.ofError error)) (b.report y (.ofError error)) := by
    by_cases hy : y = x
    · exact hy ▸ hrun.report _
    · exact (SyncRun.AgreeOn.report_of_ne hy a _).trans
        (hrun.trans (SyncRun.AgreeOn.report_of_ne hy b _).symm)
  have htake (bySymbol : ProviderBatch Symbol) (y : Symbol) {a b : SyncRun Symbol δ R}
      (hrun : SyncRun.AgreeOn x a b) : SyncRun.AgreeOn x (takeFetched request bySymbol a y)
        (takeFetched request bySymbol b y) := by
    by_cases hy : y = x
    · subst hy
      exact takeFetched_agree rfl hrun
    · exact (takeFetched_frame hy bySymbol a).trans
        (hrun.trans (takeFetched_frame hy bySymbol b).symm)
  unfold syncChunk
  split
  · next error _ => exact List.foldl_rel hrun fun y _ a b hrun => hreport y error hrun
  · dsimp only
    refine List.foldl_rel ?_ fun batch _ a b hrun =>
      List.foldl_rel hrun fun y _ a b hrun => htake batch.2 y hrun
    exact List.foldl_rel hrun fun failure _ a b hrun => hreport failure.1 failure.2 hrun

omit [ToString Symbol] in
/-- A recheck drops what is to be persisted, or does nothing. -/
theorem recheckRevision_cases (a : SyncRun Symbol δ R) :
    env.recheckRevision a x = a ∨
      ∃ error, env.recheckRevision a x = (a.hold x none).report x (.ofError error) := by
  unfold recheckRevision
  split
  · split
    · next error _ => exact .inr ⟨error, rfl⟩
    · split
      · exact .inr ⟨_, rfl⟩
      · exact .inl rfl
  · exact .inl rfl

omit [ToString Symbol] in
theorem recheckRevision_idem (a : SyncRun Symbol δ R) :
    SyncRun.AgreeOn x (env.recheckRevision (env.recheckRevision a x) x)
      (env.recheckRevision a x) := by
  rcases env.recheckRevision_cases (x := x) a with hsame | ⟨error, hdropped⟩
  · rw [hsame, hsame]
    exact .refl x a
  · rw [hdropped]
    have hnone : ((a.hold x none).report x (.ofError error)).pending x = none :=
      Function.update_self ..
    unfold recheckRevision
    rw [hnone]
    exact .refl x _

omit [DecidableEq R] in
theorem fetchNormal_repeats (hcount : request.count = .ok count)
    (hbatches : env.BatchesAlike service request a.normalSymbols b.normalSymbols)
    (hrun : ∀ x, SyncRun.AgreeOn x a b) :
    (∃ error, env.fetchNormal service request count a = .error error ∧
      env.fetchNormal service request count b = .error error) ∨
    ∃ a' b', env.fetchNormal service request count a = .ok a' ∧
      env.fetchNormal service request count b = .ok b' ∧ ∀ x, SyncRun.AgreeOn x a' b' := by
  unfold fetchNormal
  split
  · next hbatch =>
    refine .inr ⟨_, _, rfl, rfl, fun x => (hbatches hbatch count hcount x a).trans ?_⟩
    exact List.foldl_rel (hrun x) fun chunk _ a b hrun => syncChunk_congr chunk hrun
  · split
    · next start last _ _ =>
      refine .inr ⟨_, _, rfl, rfl, fun x => ?_⟩
      have hagree (a b : SyncRun Symbol δ R) (hrun : SyncRun.AgreeOn x a b) :=
        syncSingle_agree (.refl request x env) start last hrun
      refine SyncRun.AgreeOn.foldl_both (fun y => y = x) hagree hagree hagree
        (syncSingle_idem start last) (syncSingle_idem start last)
        (fun y a => ⟨fun hy => hy ▸ .refl _ _, fun hy => syncSingle_frame hy start last a⟩)
        (fun y a => ⟨fun hy => hy ▸ .refl _ _, fun hy => syncSingle_frame hy start last a⟩) ?_
        (hrun x)
      simpa using (hrun x).normal
    · exact .inl ⟨_, rfl, rfl⟩

variable (generations) in
theorem fetch_repeats (hquiet : ∀ y, env.Quiet y) (hA : env.NoOutage)
    (hcount : request.count = .ok count) {symbols symbols' : List Symbol} (hnodup : symbols'.Nodup)
    (hmem : ∀ y, y ∈ symbols ↔ y ∈ symbols') (hnormal : a.normalSymbols = [])
    (hrepeats : env.tracksRevisions service request → ∀ y, 2 ≤ symbols.count y →
      ¬ env.RebuildsRow request count y (a.db y))
    (hbatches : env.BatchesAlike service request
      (symbols.filter (env.goesToBatches service request a.db))
      (symbols'.filter (env.goesToBatches service request a.db))) :
    (∃ error, env.fetch service request generations count symbols a = .error error ∧
      env.fetch service request generations count symbols' a = .error error) ∨
    ∃ b b', env.fetch service request generations count symbols a = .ok b ∧
      env.fetch service request generations count symbols' a = .ok b' ∧
      ∀ x, SyncRun.AgreeOn x b b' := by
  have hsingle : env.tracksRevisions service request → ∀ y, 2 ≤ symbols'.count y →
      ¬ env.RebuildsRow request count y (a.db y) := fun _ y hy =>
    absurd (List.nodup_iff_count_le_one.mp hnodup y) (by omega)
  have hcompared (x : Symbol) := compareRevisions_repeats (a := a) generations (hquiet x) hA
    hnodup (hmem x) fun htracks => hrepeats htracks x
  rw [← compareRevisions_normal generations hquiet hA symbols hnormal hrepeats,
    ← compareRevisions_normal generations hquiet hA symbols' hnormal hsingle] at hbatches
  unfold fetch
  rcases fetchNormal_repeats hcount hbatches hcompared with
    ⟨error, hfetch, hfetch'⟩ | ⟨b, b', hfetch, hfetch', hrun⟩
  · rw [hfetch, hfetch']
    exact .inl ⟨error, rfl, rfl⟩
  · rw [hfetch, hfetch']
    refine .inr ⟨_, _, rfl, rfl, fun x => ?_⟩
    have hagree (a b : SyncRun Symbol δ R) (hrun : SyncRun.AgreeOn x a b) :=
      recheckRevision_agree (.refl request x env) hrun
    refine SyncRun.AgreeOn.foldl_both (fun y => y = x) hagree hagree hagree recheckRevision_idem
      recheckRevision_idem
      (fun y a => ⟨fun hy => hy ▸ .refl _ _, fun hy => recheckRevision_frame hy a⟩)
      (fun y a => ⟨fun hy => hy ▸ .refl _ _, fun hy => recheckRevision_frame hy a⟩) ?_ (hrun x)
    simpa using hmem x

variable (request generations) in
theorem persist_repeats (hA : env.NoOutage) {symbols symbols' : List Symbol}
    (hmem : ∀ y, y ∈ symbols ↔ y ∈ symbols') (hrun : ∀ x, SyncRun.AgreeOn x a b) :
    ∃ a' b', env.persist request generations symbols a = .ok a' ∧
      env.persist request generations symbols' b = .ok b' ∧ ∀ x, SyncRun.AgreeOn x a' b' := by
  obtain ⟨a', ha, -⟩ := env.persist_eq request hA generations symbols a
  obtain ⟨b', hb, -⟩ := env.persist_eq request hA generations symbols' b
  refine ⟨a', b', ha, hb, fun x => ?_⟩
  have hagree : AgreeResult x (env.persist request generations symbols a)
      (env.persist request generations symbols' b) := persist_agree hA (hmem x) (hrun x)
  rwa [ha, hb] at hagree

variable (request generations) in
omit [DecidableEq R] in
theorem complete_repeats (hA : env.NoOutage) {symbols symbols' : List Symbol}
    (hmem : ∀ y, y ∈ symbols ↔ y ∈ symbols') (hrun : ∀ x, SyncRun.AgreeOn x a b) :
    ∃ a' b', env.complete request generations symbols a = .ok a' ∧
      env.complete request generations symbols' b = .ok b' ∧ a'.db = b'.db ∧
      a'.results = b'.results := by
  obtain ⟨a', ha, hresults, hdb⟩ := env.complete_eq request hA generations symbols a
  obtain ⟨b', hb, hresults', hdb'⟩ := env.complete_eq request hA generations symbols' b
  have hsame : a.db = b.db := funext fun x => (hrun x).db
  have hgood (y : Symbol) : y ∈ a.good symbols ↔ y ∈ b.good symbols' := by
    simp only [SyncRun.good, List.mem_filter, hmem, (hrun y).results]
  refine ⟨a', b', ha, hb, ?_, funext fun x => ?_⟩
  · rw [hdb, hdb', hsame]
    simp only [hgood]
    split
    · rfl
    · exact funext fun x => HubDatabase.modify_congr rfl (hgood x) rfl
  · rw [hresults, hresults', hsame, (hrun x).results]
    simp only [hgood]

/-! ## A rebuild that is lost -/

/-- The symbol has a result that says whether its history has been rebased. -/
def Reports (x : Symbol) (rebased : Bool) (a : SyncRun Symbol δ R) : Prop :=
  ∃ result ∈ a.results x, result.historyRebased = rebased

variable {rebased : Bool}

omit [DecidableEq Symbol] [DecidableEq R] [ToString Symbol] in
theorem Reports.of_agree (h : Reports x rebased b) (hrun : SyncRun.AgreeOn x a b) :
    Reports x rebased a := by
  unfold Reports
  rw [hrun.results]
  exact h

omit [DecidableEq R] [ToString Symbol] in
theorem reports_report (a : SyncRun Symbol δ R) {result : SyncItemResult}
    (hresult : result.historyRebased = rebased) : Reports x rebased (a.report x result) :=
  ⟨result, Function.update_self .., hresult⟩

theorem persistSymbol_reports (h : Reports x rebased a) :
    Reports x rebased (env.persistSymbol request generations a x) := by
  obtain ⟨result, hresult, hrebased⟩ := h
  have hreported (a : SyncRun Symbol δ R) (hresult : result ∈ a.results x)
      (error : Option SyncError) : Reports x rebased (a.reportPersisted x error) := by
    refine ⟨result.persist error, ?_, hrebased⟩
    simp only [SyncRun.reportPersisted, Function.update_self, Option.mem_def.mp hresult]
    rfl
  unfold persistSymbol
  split
  · exact hreported _ hresult none
  · exact hreported _ hresult _

variable (request generations) in
theorem persist_reports (hA : env.NoOutage) (symbols : List Symbol) (h : Reports x rebased a) :
    ∃ b, env.persist request generations symbols a = .ok b ∧ Reports x rebased b := by
  obtain ⟨b, hb, hagree⟩ := env.persist_eq request hA generations symbols a
  refine ⟨b, hb, Reports.of_agree ?_ (hagree x)⟩
  split
  · exact persistSymbol_reports h
  · exact h

variable (request generations) in
omit [DecidableEq R] in
theorem complete_reports (hA : env.NoOutage) (symbols : List Symbol) (h : Reports x rebased a) :
    ∃ b, env.complete request generations symbols a = .ok b ∧ Reports x rebased b := by
  obtain ⟨b, hb, hresults, -⟩ := env.complete_eq request hA generations symbols a
  obtain ⟨result, hresult, hrebased⟩ := h
  refine ⟨b, hb, ?_⟩
  unfold Reports
  rw [hresults, Option.mem_def.mp hresult]
  split
  · exact ⟨result.superseded, rfl, hrebased⟩
  · exact ⟨result, rfl, hrebased⟩

omit [ToString Symbol] in
theorem recheckRevision_reports (h : Reports x false a) :
    Reports x false (env.recheckRevision a x) := by
  rcases env.recheckRevision_cases (x := x) a with hsame | ⟨error, hdropped⟩
  · rwa [hsame]
  · rw [hdropped]
    exact reports_report _ rfl

omit [DecidableEq R] in
theorem takeFetched_reports (bySymbol : ProviderBatch Symbol) (a : SyncRun Symbol δ R) :
    Reports x false (takeFetched request bySymbol a x) := by
  unfold takeFetched
  split
  · exact reports_report _ rfl
  · split
    · exact reports_report _ rfl
    · exact reports_report _ rfl

omit [DecidableEq R] in
/-- What the batches report of a symbol is no rebuild. -/
theorem syncChunk_reports {chunk : List Symbol} (hx : x ∈ chunk) (a : SyncRun Symbol δ R) :
    Reports x false (env.syncChunk request count a chunk) := by
  have htrivial : ∀ a b : SyncRun Symbol δ R, SyncRun.AgreeOn x a b → True → True :=
    fun _ _ _ h => h
  have hreports : ∀ a b : SyncRun Symbol δ R, SyncRun.AgreeOn x a b → Reports x false b →
      Reports x false a := fun a b hagree h => h.of_agree hagree
  unfold syncChunk
  split
  · next error _ =>
    refine (foldl_touch (· = x) htrivial hreports (fun y _ hy a => .report_of_ne hy a _) ?_
      trivial).2 (.inl ⟨x, hx, rfl⟩)
    rintro y - rfl a -
    exact ⟨trivial, reports_report _ rfl⟩
  · next batches errors hisolated =>
    have hcovered := ((fetchWithInvalidSymbolIsolation_covers hisolated).2 x).mp hx
    have herrors := (foldl_touch (a := a) (l := errors)
      (f := fun run (failure : Symbol × HubError) =>
        run.report failure.1 (.ofError failure.2))
      (fun failure => failure.1 = x) htrivial hreports
      (fun failure _ hy a => .report_of_ne hy a _)
      (by
        rintro failure - rfl a -
        exact ⟨trivial, reports_report _ rfl⟩) trivial).2
    refine (foldl_touch (fun batch => x ∈ batch.1) htrivial hreports
      (fun batch _ hy a => takeFetched_foldl_frame hy batch.2 a) ?_ trivial).2
      (hcovered.imp id fun hfailed => herrors (.inl hfailed))
    intro batch _ hx a _
    refine ⟨trivial, (foldl_touch (· = x) htrivial hreports
      (fun y _ hy a => takeFetched_frame hy batch.2 a) ?_ trivial).2 (.inl ⟨x, hx, rfl⟩)⟩
    rintro y - rfl a -
    exact ⟨trivial, takeFetched_reports batch.2 a⟩

theorem not_rebuildsRow_of_current {row : Option (SecuritySeries δ R)}
    (h : env.currentHistory x row) : ¬ env.RebuildsRow request count x row := by
  rintro ⟨revision, existing, -, hsample, hstale, -⟩
  unfold currentHistory at h
  rw [hsample] at h
  simp only [hstale] at h
  cases h

/-- A symbol with a current history goes to the batches, however often it is compared. -/
theorem foldl_syncRevision_current (hquiet : env.Quiet x) (hA : env.NoOutage) (n : ℕ)
    (hcurrent : env.currentHistory x (a.db x)) :
    x ∈ ((List.replicate (n + 1) x).foldl (env.syncRevision request generations count 0)
      a).normalSymbols := by
  induction n generalizing a with
  | zero =>
    rw [List.replicate_one, List.foldl_cons, List.foldl_nil, syncRevision_normal hquiet hA,
      if_pos hcurrent]
    exact List.mem_append_right _ List.mem_cons_self
  | succ n ih =>
    refine ih ?_
    rwa [(syncRevision_unwritten hquiet hA (not_rebuildsRow_of_current hcurrent)).1]

theorem fetch_ok (htracks : env.tracksRevisions service request) (symbols : List Symbol) :
    env.fetch service request generations count symbols a = .ok (symbols.foldl env.recheckRevision
      ((chunks (max 1 service.batchSize)
        (env.compareRevisions service request generations count symbols a).normalSymbols).foldl
          (env.syncChunk request count)
          (env.compareRevisions service request generations count symbols a))) := by
  unfold fetch fetchNormal
  rw [if_pos (batches_of_tracksRevisions htracks)]
  rfl

/-- The rebuild of a symbol that is requested once is what is reported. -/
theorem fetch_rebuilt (hquiet : env.Quiet x) (hA : env.NoOutage)
    (htracks : env.tracksRevisions service request)
    (hwritable : a.db.Writable generations request.adjustment x) (hnormal : a.normalSymbols = [])
    (hpending : a.pending x = none) (h : env.RebuildsRow request count x (a.db x))
    {symbols : List Symbol} (honce : symbols.count x = 1) :
    ∃ b, env.fetch service request generations count symbols a = .ok b ∧ Reports x true b := by
  have hqfq := adjustment_of_tracksRevisions htracks
  obtain ⟨-, hreports, hnormal', hpending'⟩ := syncRevision_written hquiet hA hqfq hwritable h
  rw [fetch_ok htracks, hA.compareRevisions_eq, if_pos htracks]
  refine ⟨_, rfl, ?_⟩
  have hown := foldl_syncRevision_own (x := x) request count generations hA symbols a
  rw [honce, List.replicate_one, List.foldl_cons, List.foldl_nil] at hown
  generalize symbols.foldl (env.syncRevision request generations count 0) a = compared at hown ⊢
  have hchunks : SyncRun.AgreeOn x ((chunks (max 1 service.batchSize)
      compared.normalSymbols).foldl (env.syncChunk request count) compared) compared := by
    refine foldl_frame (fun chunk hchunk a => syncChunk_frame count a fun hxc => ?_) compared
    have hmem := (mem_chunks (by omega)).mp ⟨chunk, hchunk, hxc⟩
    rw [hown.normal, hnormal', hnormal] at hmem
    cases hmem
  have hfetched := hchunks.trans hown
  generalize (chunks (max 1 service.batchSize) compared.normalSymbols).foldl
    (env.syncChunk request count) compared = fetched at hfetched
  have hreports : Reports x true fetched := Reports.of_agree hreports hfetched
  have hpending : fetched.pending x = none := by rw [hfetched.pending, hpending', hpending]
  refine (foldl_touch (I := fun run => Reports x true run ∧ run.pending x = none) (· = x)
    (fun a b hagree hb => ⟨hb.1.of_agree hagree, by rw [hagree.pending, hb.2]⟩)
    (fun _ _ _ h => h : ∀ a b : SyncRun Symbol δ R, SyncRun.AgreeOn x a b → True → True)
    (fun y _ hy a => recheckRevision_frame hy a) ?_ ⟨hreports, hpending⟩).1.1
  rintro y - rfl a ⟨hreports, hpending⟩
  unfold recheckRevision
  rw [hpending]
  exact ⟨⟨hreports, hpending⟩, trivial⟩

/-- The rebuild of a symbol that is requested again is not what is reported. -/
theorem fetch_repeated (hquiet : env.Quiet x) (hA : env.NoOutage)
    (htracks : env.tracksRevisions service request)
    (hwritable : a.db.Writable generations request.adjustment x)
    (h : env.RebuildsRow request count x (a.db x))
    {symbols : List Symbol} (hrepeated : 2 ≤ symbols.count x) :
    ∃ b, env.fetch service request generations count symbols a = .ok b ∧ Reports x false b := by
  have hqfq := adjustment_of_tracksRevisions htracks
  obtain ⟨hcurrent, -, -, -⟩ := syncRevision_written hquiet hA hqfq hwritable h
  rw [fetch_ok htracks, hA.compareRevisions_eq, if_pos htracks]
  refine ⟨_, rfl, ?_⟩
  have hown := foldl_syncRevision_own (x := x) request count generations hA symbols a
  obtain ⟨n, hn⟩ : ∃ n, symbols.count x = n + 2 := Nat.exists_eq_add_of_le' hrepeated
  rw [hn, List.replicate_succ, List.foldl_cons] at hown
  have hmem := hown.normal.mpr (foldl_syncRevision_current hquiet hA n hcurrent)
  generalize symbols.foldl (env.syncRevision request generations count 0) a = compared at hmem ⊢
  have htrivial : ∀ a b : SyncRun Symbol δ R, SyncRun.AgreeOn x a b → True → True :=
    fun _ _ _ h => h
  have hsize : 0 < max 1 service.batchSize := by omega
  have hfetched := (foldl_touch (a := compared) (f := env.syncChunk request count)
    (G := Reports x false) (fun chunk => x ∈ chunk) htrivial
    (fun a b hagree h => h.of_agree hagree) (fun chunk _ hx a => syncChunk_frame count a hx)
    (fun chunk _ hx a _ => ⟨trivial, syncChunk_reports hx a⟩) trivial).2
    (.inl ((mem_chunks hsize).mpr hmem))
  refine (foldl_touch (I := Reports x false) (· = x) (fun a b hagree h => h.of_agree hagree)
    htrivial (fun y _ hy a => recheckRevision_frame hy a) ?_ hfetched).1
  rintro y - rfl a ha
  exact ⟨recheckRevision_reports ha, trivial⟩

/-! ## Runs -/

/-- The variables of a run that has reserved its streams. -/
def startRun (db : HubDatabase Symbol δ R) (results : Symbol → Option SyncItemResult) :
    SyncRun Symbol δ R :=
  { db, results, revisionBySymbol := fun _ => none, normalSymbols := [], pending := fun _ => none }

/-- A run that is not stopped by its request or by its reservation. -/
theorem sync_eq (hcount : request.count = .ok count) (hreserve : env.outage .reserve = none)
    (normalizeSymbol : Raw → Except HubError Symbol) (bestEffortSymbol : Raw → Symbol)
    (symbols : List Raw) (db : HubDatabase Symbol δ R) :
    env.sync service request normalizeSymbol bestEffortSymbol symbols db =
      let canonical := canonicalizeSymbols normalizeSymbol bestEffortSymbol symbols
      let reserved := (env.before .reserve db).reserveSync canonical.1 request.adjustment
      env.fetch service request reserved.1 count canonical.1
          (startRun reserved.2 canonical.2) >>= fun run =>
        env.persist request reserved.1 canonical.1 run >>=
          env.complete request reserved.1 canonical.1 := by
  unfold sync syncCanonical syncReserved
  rw [hcount, hreserve]
  dsimp only
  unfold startRun
  generalize canonicalizeSymbols normalizeSymbol bestEffortSymbol symbols = canonical
  generalize (env.before .reserve db).reserveSync canonical.1 request.adjustment = reserved
  cases env.fetch service request reserved.1 count canonical.1 _ with
  | error error => rfl
  | ok run =>
    rw [Except.ok_bind, Except.ok_bind]
    cases env.persist request reserved.1 canonical.1 run with
    | error error => rfl
    | ok run => rfl

omit [ToString Symbol] in
/-- A reservation changes no history. -/
theorem staleHistory_reserveSync (db : HubDatabase Symbol δ R) (symbols : List Symbol)
    (adjustment : Adjustment) (x : Symbol) (revision : R) :
    ((db.reserveSync symbols adjustment).2 x).bind (·.staleHistory revision) =
      (db x).bind (·.staleHistory revision) := by
  unfold HubDatabase.reserveSync HubDatabase.modify
  dsimp only
  split
  · rw [Option.bind_map]
    congr 1
    funext series
    cases adjustment <;> rfl
  · rfl

theorem rebuildsRow_reserveSync (db : HubDatabase Symbol δ R) (symbols : List Symbol)
    (adjustment : Adjustment) : env.RebuildsRow request count x
      ((db.reserveSync symbols adjustment).2 x) ↔ env.RebuildsRow request count x (db x) := by
  unfold RebuildsRow
  simp only [staleHistory_reserveSync]

omit [ToString Symbol] in
theorem goesToBatches_reserveSync (db : HubDatabase Symbol δ R) (symbols : List Symbol)
    (adjustment : Adjustment) : env.goesToBatches service request (db.reserveSync symbols adjustment).2
      = env.goesToBatches service request db := by
  funext x
  unfold goesToBatches currentHistory
  simp only [staleHistory_reserveSync]

omit [DecidableEq R] [ToString Symbol] in
theorem writable_reserveSync {db : HubDatabase Symbol δ R} {symbols : List Symbol}
    (adjustment : Adjustment) (hx : x ∈ symbols) (hrow : (db x).isSome) :
    (db.reserveSync symbols adjustment).2.Writable (db.reserveSync symbols adjustment).1 adjustment
      x := by
  unfold HubDatabase.Writable HubDatabase.reserveSync HubDatabase.modify
  dsimp only
  rw [if_pos hx, if_pos hx]
  exact ⟨by simpa using hrow, rfl⟩

/-- The request and the request without its repeated symbols store the same and report the same. -/
def RepeatsHarmless (env : SyncEnvironment Symbol δ R) (service : DailyBarSyncService)
    (request : SyncRequest) (normalizeSymbol : Raw → Except HubError Symbol)
    (bestEffortSymbol : Raw → Symbol) (symbols : List Raw) (db : HubDatabase Symbol δ R) : Prop :=
  (env.sync service request normalizeSymbol bestEffortSymbol symbols db).map
      (fun run => (run.db, run.results)) =
    (env.sync service request normalizeSymbol bestEffortSymbol
      (dropRepeated normalizeSymbol [] symbols) db).map fun run => (run.db, run.results)

/-- A symbol is repeated, and its history is to be rebuilt. -/
def RepeatsRebuild (env : SyncEnvironment Symbol δ R) (service : DailyBarSyncService)
    (request : SyncRequest) (symbols : List Symbol) (db : HubDatabase Symbol δ R) : Prop :=
  env.tracksRevisions service request ∧ ∃ count, request.count = .ok count ∧
    ∃ x, 2 ≤ symbols.count x ∧ env.RebuildsRow request count x (db x)

variable {normalizeSymbol : Raw → Except HubError Symbol} {bestEffortSymbol : Raw → Symbol}
  {symbols : List Raw} {db : HubDatabase Symbol δ R}

theorem not_repeatsRebuild (hquiet : ∀ x, env.Quiet x) (hA : env.NoOutage)
    (h : env.RepeatsHarmless service request normalizeSymbol bestEffortSymbol symbols db) :
    ¬ env.RepeatsRebuild service request
      (canonicalizeSymbols normalizeSymbol bestEffortSymbol symbols).1 db := by
  rintro ⟨htracks, count, hcount, x, hrepeated, hrebuilds⟩
  unfold RepeatsHarmless at h
  obtain ⟨hnodup, hmem, -⟩ := canonicalizeSymbols_dropRepeated normalizeSymbol bestEffortSymbol
    symbols
  have hbefore : env.before .reserve db = db := funext fun x => (hquiet x).before_eq .reserve db
  rw [sync_eq hcount (hA .reserve), sync_eq hcount (hA .reserve), hbefore] at h
  generalize canonicalizeSymbols normalizeSymbol bestEffortSymbol symbols = canonical at *
  generalize canonicalizeSymbols normalizeSymbol bestEffortSymbol
    (dropRepeated normalizeSymbol [] symbols) = once at *
  have hx : x ∈ canonical.1 := List.count_pos_iff.mp (by omega)
  have hrow : (db x).isSome := by
    obtain ⟨_, _, _, -, hstale, -⟩ := hrebuilds
    exact Option.isSome_of_isSome_bind (by rw [hstale]; rfl)
  dsimp only at h
  -- the run of the request reports what the batches bring
  obtain ⟨a₁, hfetch, ha₁⟩ := fetch_repeated
    (a := startRun (db.reserveSync canonical.1 request.adjustment).2 canonical.2) (hquiet x) hA htracks
    (writable_reserveSync request.adjustment hx hrow)
    ((rebuildsRow_reserveSync db _ _).mpr hrebuilds) hrepeated
  obtain ⟨a₂, hpersist, ha₂⟩ := persist_reports request
    (db.reserveSync canonical.1 request.adjustment).1 hA canonical.1 ha₁
  obtain ⟨a₃, hcomplete, result, hresult, hfalse⟩ := complete_reports request
    (db.reserveSync canonical.1 request.adjustment).1 hA canonical.1 ha₂
  -- the run without the repetition reports the rebuild
  obtain ⟨b₁, hfetch', hb₁⟩ := fetch_rebuilt
    (a := startRun (db.reserveSync once.1 request.adjustment).2 once.2) (hquiet x) hA htracks
    (writable_reserveSync request.adjustment ((hmem x).mp hx) hrow) rfl rfl
    ((rebuildsRow_reserveSync db _ _).mpr hrebuilds)
    (List.count_eq_one_of_mem hnodup ((hmem x).mp hx))
  obtain ⟨b₂, hpersist', hb₂⟩ := persist_reports request
    (db.reserveSync once.1 request.adjustment).1 hA once.1 hb₁
  obtain ⟨b₃, hcomplete', result', hresult', htrue⟩ := complete_reports request
    (db.reserveSync once.1 request.adjustment).1 hA once.1 hb₂
  rw [hfetch, hfetch', Except.ok_bind, Except.ok_bind, hpersist, hpersist', Except.ok_bind,
    Except.ok_bind, hcomplete, hcomplete'] at h
  have hresults : a₃.results = b₃.results := congrArg Prod.snd (Except.ok.inj h)
  rw [hresults] at hresult
  cases hresult.symm.trans hresult'
  rw [hfalse] at htrue
  cases htrue

theorem repeatsHarmless (hquiet : ∀ x, env.Quiet x) (hA : env.NoOutage)
    (hrepeats : ¬ env.RepeatsRebuild service request
      (canonicalizeSymbols normalizeSymbol bestEffortSymbol symbols).1 db)
    (hbatches : env.BatchesAlike service request
      ((canonicalizeSymbols normalizeSymbol bestEffortSymbol symbols).1.filter
        (env.goesToBatches service request db))
      ((canonicalizeSymbols normalizeSymbol bestEffortSymbol
        (dropRepeated normalizeSymbol [] symbols)).1.filter
          (env.goesToBatches service request db))) :
    env.RepeatsHarmless service request normalizeSymbol bestEffortSymbol symbols db := by
  unfold RepeatsHarmless
  cases hcount : request.count with
  | error error =>
    unfold sync syncCanonical
    rw [hcount]
  | ok count =>
    obtain ⟨hnodup, hmem, hresults⟩ := canonicalizeSymbols_dropRepeated normalizeSymbol
      bestEffortSymbol symbols
    have hbefore : env.before .reserve db = db := funext fun x => (hquiet x).before_eq .reserve db
    rw [sync_eq hcount (hA .reserve), sync_eq hcount (hA .reserve), hbefore]
    generalize canonicalizeSymbols normalizeSymbol bestEffortSymbol symbols = canonical at *
    generalize canonicalizeSymbols normalizeSymbol bestEffortSymbol
      (dropRepeated normalizeSymbol [] symbols) = once at *
    have hreserved : db.reserveSync canonical.1 request.adjustment =
        db.reserveSync once.1 request.adjustment :=
      Prod.ext (funext fun x => (reserveSync_agree rfl (hmem x) request.adjustment).1)
        (funext fun x => (reserveSync_agree rfl (hmem x) request.adjustment).2)
    dsimp only
    rw [← hreserved, ← hresults]
    rw [← goesToBatches_reserveSync db canonical.1 request.adjustment] at hbatches
    rcases fetch_repeats (db.reserveSync canonical.1 request.adjustment).1
      (a := startRun (db.reserveSync canonical.1 request.adjustment).2 canonical.2) hquiet hA hcount
      hnodup hmem rfl
      (fun htracks y hy hrebuilds => hrepeats ⟨htracks, count, hcount, y, hy,
        (rebuildsRow_reserveSync db _ _).mp hrebuilds⟩) hbatches with
      ⟨error, hfetch, hfetch'⟩ | ⟨b, b', hfetch, hfetch', hrun⟩
    · rw [hfetch, hfetch']
      rfl
    · obtain ⟨c, c', hpersist, hpersist', hrun⟩ := persist_repeats request
        (db.reserveSync canonical.1 request.adjustment).1 hA hmem hrun
      obtain ⟨d, d', hcomplete, hcomplete', hdb, hresults⟩ := complete_repeats request
        (db.reserveSync canonical.1 request.adjustment).1 hA hmem hrun
      rw [hfetch, hfetch', Except.ok_bind, Except.ok_bind, hpersist, hpersist', Except.ok_bind,
        Except.ok_bind, hcomplete, hcomplete']
      exact congrArg Except.ok (Prod.ext hdb hresults)

/-- A repeated symbol changes the outcome if its history is to be rebuilt; if none is, and the
batches do not depend on the repetitions, then the outcome is the same. -/
theorem sync_dropRepeated (hquiet : ∀ x, env.Quiet x) (hA : env.NoOutage)
    (normalizeSymbol : Raw → Except HubError Symbol) (bestEffortSymbol : Raw → Symbol)
    (symbols : List Raw) (db : HubDatabase Symbol δ R) :
    let canonical := (canonicalizeSymbols normalizeSymbol bestEffortSymbol symbols).1
    let once := (canonicalizeSymbols normalizeSymbol bestEffortSymbol
      (dropRepeated normalizeSymbol [] symbols)).1
    (env.RepeatsHarmless service request normalizeSymbol bestEffortSymbol symbols db →
      ¬ env.RepeatsRebuild service request canonical db) ∧
    (¬ env.RepeatsRebuild service request canonical db →
      env.BatchesAlike service request
        (canonical.filter (env.goesToBatches service request db))
        (once.filter (env.goesToBatches service request db)) →
      env.RepeatsHarmless service request normalizeSymbol bestEffortSymbol symbols db) ∧
    ((∀ count, request.count = .ok count → BatchesPerSymbol (env.fetchBatch request count)) →
      (env.RepeatsHarmless service request normalizeSymbol bestEffortSymbol symbols db ↔
        ¬ env.RepeatsRebuild service request canonical db)) := by
  have hmem := (canonicalizeSymbols_dropRepeated normalizeSymbol bestEffortSymbol symbols).2.1
  refine ⟨not_repeatsRebuild hquiet hA, repeatsHarmless hquiet hA, fun hbatches => ?_⟩
  refine ⟨not_repeatsRebuild hquiet hA, fun hrepeats => repeatsHarmless hquiet hA hrepeats ?_⟩
  refine batchesAlike_of_perSymbol hbatches fun x => ?_
  rw [List.mem_filter, List.mem_filter, hmem]

end SyncEnvironment

end Repeats

/-! ## A repeated rebuild -/

/-- A provider that has one bar, on day 1, of each symbol, under the revision 2. -/
def revisedEnvironment : SyncEnvironment ℕ Unit ℕ where
  provider := {
    getDailyBars := fun _ _ _ _ => .ok []
    getDailyBarsBatch := some fun _ adjustment _ => .ok fun symbol =>
      some [.bar symbol 1 adjustment ⟨10, 10, 10, 10, 1, none⟩]
    getDailyBarsWindow := none
    getAdjustmentRevision := some fun _ _ => .ok 2
    authoritativeHistory := false }
  concurrent _ _ row := row
  outage _ := none

/-- Histories with one bar, on day 1, under the revision 1. -/
def unrevisedDatabase : HubDatabase ℕ Unit ℕ := fun _ => some fun _ =>
  { bars := .ofList [(1, ⟨9, 9, 9, 9, 1, none⟩)]
    stream := {}
    descriptor := some ⟨1, some 1, some 1⟩ }

def qfqRequest : SyncRequest :=
  { start := some 1, last := some 2, adjustment := .qfq, lookbackBars := none }

/-- The rebuild of 600519 is reported when it is requested once, and not when it is repeated. -/
theorem not_repeatsHarmless :
    (revisedEnvironment.sync ⟨true, 50⟩ qfqRequest .ok id [600519] unrevisedDatabase).map
        (fun run => (run.results 600519).map fun result =>
          (result.historyRebased, result.changedFrom)) = .ok (some (true, some 1)) ∧
    (revisedEnvironment.sync ⟨true, 50⟩ qfqRequest .ok id [600519, 600519] unrevisedDatabase).map
        (fun run => (run.results 600519).map fun result =>
          (result.historyRebased, result.changedFrom)) = .ok (some (false, none)) ∧
    ¬ revisedEnvironment.RepeatsHarmless ⟨true, 50⟩ qfqRequest .ok id [600519, 600519]
      unrevisedDatabase := by
  have honce : (revisedEnvironment.sync ⟨true, 50⟩ qfqRequest .ok id [600519]
      unrevisedDatabase).map (fun run => (run.results 600519).map fun result =>
        (result.historyRebased, result.changedFrom)) = .ok (some (true, some 1)) := by
    decide +kernel
  have hrepeated : (revisedEnvironment.sync ⟨true, 50⟩ qfqRequest .ok id [600519, 600519]
      unrevisedDatabase).map (fun run => (run.results 600519).map fun result =>
        (result.historyRebased, result.changedFrom)) = .ok (some (false, none)) := by
    decide +kernel
  refine ⟨honce, hrepeated, fun h => ?_⟩
  have hresults := congrArg (Except.map fun outcome => (outcome.2 600519).map fun result =>
    (result.historyRebased, result.changedFrom)) h
  have hmap (outcome : Except HubError (SyncRun ℕ Unit ℕ)) :
      ((outcome.map fun run => (run.db, run.results)).map fun outcome =>
        (outcome.2 600519).map fun result => (result.historyRebased, result.changedFrom)) =
      outcome.map fun run => (run.results 600519).map fun result =>
        (result.historyRebased, result.changedFrom) := by
    cases outcome <;> rfl
  have hdrop : dropRepeated (Except.ok : ℕ → Except HubError ℕ) [] [600519, 600519] = [600519] := by
    decide
  rw [hmap, hmap, hdrop, honce, hrepeated] at hresults
  cases hresults

/-- The equivalence for this request. -/
theorem sync_dropRepeated_revised :
    revisedEnvironment.RepeatsHarmless ⟨true, 50⟩ qfqRequest .ok id [600519, 600519]
        unrevisedDatabase ↔
      ¬ revisedEnvironment.RepeatsRebuild ⟨true, 50⟩ qfqRequest
        (canonicalizeSymbols (Except.ok : ℕ → Except HubError ℕ) id [600519, 600519]).1
        unrevisedDatabase := by
  have hbatches (count : ℤ) (_ : qfqRequest.count = .ok count) :
      SyncEnvironment.BatchesPerSymbol (revisedEnvironment.fetchBatch qfqRequest count) := {
    ok := fun _ _ => ⟨_, rfl, fun _ _ _ h => by cases h; rfl⟩
    invalid := fun _ _ _ _ h => by cases h }
  exact (SyncEnvironment.sync_dropRepeated (fun _ _ _ => rfl) (fun _ => rfl) .ok id
    [600519, 600519] unrevisedDatabase).2.2 hbatches

end Apanel
