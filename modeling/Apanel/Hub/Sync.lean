import Apanel.Hub.Transactions
import Mathlib.Data.List.Dedup

/-!
# Daily bar synchronization

`DailyBarSyncService.sync` (`app/services/sync.py`) against the fenced repository: reserve, rebuild
the qfq histories whose revision has changed, fetch the other symbols in batches, persist, and
complete. Dictionaries by symbol are functions. The environment says what the provider answers,
what other transactions do to the rows of a symbol between two steps of the run, and which database
calls fail.
-/

namespace Apanel

inductive SyncErrorCode
  | providerTimeout
  | providerNotConfigured
  | providerUnavailable
  | invalidMarketData
  | providerError
  | persistenceError
  deriving DecidableEq

structure SyncError where
  code : SyncErrorCode
  message : String
  deriving DecidableEq

inductive SyncStatus
  | success
  | failed
  deriving DecidableEq

structure SyncItemResult where
  status : SyncStatus
  fetched : ℕ := 0
  persisted : ℕ := 0
  error : Option SyncError := none
  historyRebased : Bool := false
  changedFrom : Option Date := none
  deriving DecidableEq

/-- `_sync_error`. -/
def syncError (error : HubError) : SyncError :=
  { code := match error.kind with
      | .timeout => .providerTimeout
      | .configuration => .providerNotConfigured
      | .unavailable => .providerUnavailable
      | .invalidMarketData => .invalidMarketData
      | .record | .system | .other => .providerError
    message := error.message }

/-- The result of a symbol whose fetch raised. -/
def SyncItemResult.ofError (error : HubError) : SyncItemResult :=
  { status := .failed, error := some (syncError error) }

/-- The result of a symbol after its bars have been persisted, or not. -/
def SyncItemResult.persist (result : SyncItemResult) (error : Option SyncError) : SyncItemResult :=
  { result with
    status := if error.isNone then .success else .failed
    persisted := if error.isNone then result.fetched else 0
    error }

/-- The result of a symbol whose completion failed. -/
def SyncItemResult.superseded (result : SyncItemResult) : SyncItemResult :=
  { result with
    status := .failed
    error := some ⟨.persistenceError, "sync completion was superseded"⟩ }

/-- One element of a provider response. -/
inductive ProviderRecord (Symbol : Type)
  | other
  | bar (symbol : Symbol) (tradeDate : Date) (adjustment : Adjustment) (bar : DailyBar)

/-- The two samples of a revision: before the provider I/O and after it. -/
inductive RevisionSample
  | before
  | after

/-- A provider response for several symbols. -/
abbrev ProviderBatch (Symbol : Type) := Symbol → Option (List (ProviderRecord Symbol))

structure DailyBarProvider (Symbol R : Type) where
  getDailyBars : Symbol → Date → Date → Adjustment →
    Except HubError (List (ProviderRecord Symbol))
  getDailyBarsBatch :
    Option (List Symbol → Adjustment → ℤ → Except HubError (ProviderBatch Symbol))
  getDailyBarsWindow :
    Option (List Symbol → Adjustment → ℤ → Option Date → Except HubError (ProviderBatch Symbol))
  getAdjustmentRevision : Option (RevisionSample → Symbol → Except HubError R)
  authoritativeHistory : Bool

/-- The steps of a run that read or write the rows of a symbol. -/
inductive SyncStep
  | reserve
  | read
  | rebuild
  | persist
  | complete

/-- The database calls of a run. A symbol that is repeated has several turns in the revision branch;
`retry` is the upsert of one symbol after a bulk upsert. -/
inductive HubCall (Symbol : Type)
  | reserve
  | descriptor (turn : ℕ) (symbol : Symbol)
  | history (turn : ℕ) (symbol : Symbol)
  | reconcile (turn : ℕ) (symbol : Symbol)
  | upsert (symbols : List Symbol)
  | retry (symbol : Symbol)
  | complete
  deriving DecidableEq

structure SyncEnvironment (Symbol δ R : Type) where
  provider : DailyBarProvider Symbol R
  concurrent : SyncStep → Symbol → Option (SecuritySeries δ R) → Option (SecuritySeries δ R)
  outage : HubCall Symbol → Option HubError

structure DailyBarSyncService where
  adjustmentRepository : Bool
  batchSize : ℕ

structure SyncRequest where
  start : Option Date
  last : Option Date
  adjustment : Adjustment
  lookbackBars : Option ℤ

/-- The bars to ask the provider for. -/
def SyncRequest.count (request : SyncRequest) : Except HubError ℤ :=
  match request.lookbackBars, request.start, request.last with
  | none, some start, some last =>
    if start > last then
      .error ⟨.invalidMarketData, "start/end are required and must form a valid range"⟩
    else .ok (max 8 ((last - start) * 2 + 8))
  | none, _, _ => .error ⟨.invalidMarketData, "start/end are required and must form a valid range"⟩
  | some lookbackBars, start, last =>
    if start.isSome ∨ lookbackBars ≤ 0 then
      .error ⟨.invalidMarketData, "lookback_bars is exclusive with start"⟩
    else .ok (lookbackBars + if last.isSome then 8 else 0)

/-- The bars dated at or before the cutoff of the request. -/
def SyncRequest.cutoff (request : SyncRequest) (bars : Bars) : Bars :=
  bars.filter fun day => request.last.all (day ≤ ·)

/-- The newest bars of a series. -/
def Table.takeLast {κ α : Type} [LinearOrder κ] (t : Table κ α) (n : ℤ) : Table κ α :=
  let oldest := t.keys.drop (t.keys.length - n.toNat) |>.head?
  t.filter fun key => oldest.any (· ≤ key)

/-- The clip of a fetched series to the request. -/
def SyncRequest.clip (request : SyncRequest) (bars : Bars) : Bars :=
  match request.lookbackBars, request.start, request.last with
  | some lookbackBars, _, _ => (request.cutoff bars).takeLast lookbackBars
  | none, some start, some last => bars.window (some start) (some last)
  | none, _, _ => bars

/-- The consecutive chunks of a list. -/
def chunks {α : Type} (size : ℕ) (l : List α) : List (List α) :=
  (List.range ((l.length + size - 1) / size)).map fun i => (l.drop (i * size)).take size

section Sync

variable {Symbol δ R : Type} [DecidableEq Symbol] [DecidableEq R] [ToString Symbol]

/-- One record of `_validated_bars`. -/
def validateBar (symbol : Symbol) (adjustment : Adjustment) (unique : Bars) :
    ProviderRecord Symbol → Except HubError Bars
  | .other => .error ⟨.invalidMarketData, "provider returned a non-DailyBar record"⟩
  | .bar symbol' tradeDate adjustment' bar =>
    if symbol' ≠ symbol then
      .error ⟨.invalidMarketData,
        "provider returned bar for " ++ toString symbol' ++ ", requested " ++ toString symbol⟩
    else if adjustment' ≠ adjustment then
      .error ⟨.invalidMarketData, "provider returned a different adjustment mode"⟩
    else if (unique.get? tradeDate).any (· ≠ bar) then
      .error ⟨.invalidMarketData, "conflicting daily bars for one identity"⟩
    else .ok (unique.insert tradeDate bar)

/-- `_validated_bars`. -/
def validatedBars (symbol : Symbol) (records : List (ProviderRecord Symbol))
    (adjustment : Adjustment) : Except HubError Bars :=
  records.foldlM (validateBar symbol adjustment) ∅

/-- `_fetch_with_invalid_symbol_isolation`; no batch is empty. -/
def fetchWithInvalidSymbolIsolation
    (fetch : List Symbol → Except HubError (ProviderBatch Symbol)) (symbols : List Symbol) :
    Except HubError (List (List Symbol × ProviderBatch Symbol) × List (Symbol × HubError)) :=
  match fetch symbols with
  | .ok bySymbol => .ok ([(symbols, bySymbol)], [])
  | .error error =>
    if error.kind ≠ .invalidMarketData then .error error
    else if _ : symbols.length ≤ 1 then .ok ([], symbols.map (·, error))
    else do
      let middle := symbols.length / 2
      let left ← fetchWithInvalidSymbolIsolation fetch (symbols.take middle)
      let right ← fetchWithInvalidSymbolIsolation fetch (symbols.drop middle)
      return (left.1 ++ right.1, left.2 ++ right.2)
termination_by symbols.length
decreasing_by all_goals simp only [List.length_take, List.length_drop]; omega

/-- The variables of a run: the database as the run has left it, `results`, `revision_by_symbol`,
`normal_symbols` and `pending`. -/
structure SyncRun (Symbol δ R : Type) where
  db : HubDatabase Symbol δ R
  results : Symbol → Option SyncItemResult
  revisionBySymbol : Symbol → Option R
  normalSymbols : List Symbol
  pending : Symbol → Option Bars

namespace SyncRun

def report (run : SyncRun Symbol δ R) (symbol : Symbol) (result : SyncItemResult) :
    SyncRun Symbol δ R :=
  { run with results := Function.update run.results symbol (some result) }

def hold (run : SyncRun Symbol δ R) (symbol : Symbol) (bars : Option Bars) : SyncRun Symbol δ R :=
  { run with pending := Function.update run.pending symbol bars }

def reportPersisted (run : SyncRun Symbol δ R) (symbol : Symbol) (error : Option SyncError) :
    SyncRun Symbol δ R :=
  { run with
    results := Function.update run.results symbol ((run.results symbol).map (·.persist error)) }

def reportSuperseded (run : SyncRun Symbol δ R) (symbol : Symbol) : SyncRun Symbol δ R :=
  { run with
    results := Function.update run.results symbol
      ((run.results symbol).map SyncItemResult.superseded) }

/-- The symbols with bars to persist. -/
def grouped (run : SyncRun Symbol δ R) (symbols : List Symbol) : List Symbol :=
  symbols.dedup.filter fun symbol => (run.pending symbol).any (·.rows ≠ [])

/-- The symbols that `complete_sync` covers. -/
def good (run : SyncRun Symbol δ R) (symbols : List Symbol) : List Symbol :=
  symbols.filter fun symbol => (run.results symbol).any (·.status = .success)

end SyncRun

/-- `_canonicalize_symbols`, where `normalizeSymbol` and `bestEffortSymbol` are the functions of
these names: a repeated valid symbol is kept. -/
def canonicalizeSymbols {Raw : Type} (normalizeSymbol : Raw → Except HubError Symbol)
    (bestEffortSymbol : Raw → Symbol) (symbols : List Raw) :
    List Symbol × (Symbol → Option SyncItemResult) :=
  symbols.foldl
    (fun (canonicalSymbols, results) raw =>
      match normalizeSymbol raw with
      | .error error =>
        let symbol := bestEffortSymbol raw
        (canonicalSymbols, if (results symbol).isSome then results else
          Function.update results symbol (some (.ofError error)))
      | .ok symbol =>
        (if (results symbol).isNone then canonicalSymbols ++ [symbol] else canonicalSymbols, results))
    ([], fun _ => none)

omit [ToString Symbol] in
theorem canonicalizeSymbols_failed {Raw : Type} (normalizeSymbol : Raw → Except HubError Symbol)
    (bestEffortSymbol : Raw → Symbol) (symbols : List Raw) (x : Symbol) :
    ∀ result ∈ (canonicalizeSymbols normalizeSymbol bestEffortSymbol symbols).2 x,
      result.status = .failed := by
  unfold canonicalizeSymbols
  generalize hstart : (([], fun _ => none) : List Symbol × (Symbol → Option SyncItemResult)) = start
  have hnone : ∀ result ∈ start.2 x, result.status = .failed := by
    rw [← hstart]
    nofun
  clear hstart
  induction symbols generalizing start with
  | nil => exact hnone
  | cons raw symbols ih =>
    refine ih _ ?_
    dsimp only
    split
    · split
      · exact hnone
      · by_cases hx : x = bestEffortSymbol raw
        · subst hx
          simp [SyncItemResult.ofError]
        · simpa [hx] using hnone
    · exact hnone

/-- A qfq rebuild that is ready to be written: the fetched bars, the first changed day, and the
replaced range, which is missing when there are no bars at all. -/
structure RevisionRebuild where
  bars : Bars
  changedFrom : Option Date
  coverage : Option (Date × Date)

/-- The stored history that a changed revision replaces, if it has changed. -/
def SecuritySeries.staleHistory (series : SecuritySeries δ R) (revision : R) : Option Bars :=
  match (series .qfq).descriptor with
  | none => if (series .qfq).bars.rows = [] then none else some (series .qfq).bars
  | some state => if state.revisionHash ≠ revision then some (series .qfq).bars else none

namespace SyncEnvironment

variable (env : SyncEnvironment Symbol δ R) (service : DailyBarSyncService)
  (request : SyncRequest)

/-- The database after what other transactions do before a step. -/
def before (step : SyncStep) (db : HubDatabase Symbol δ R) : HubDatabase Symbol δ R :=
  fun symbol => env.concurrent step symbol (db symbol)

/-- The same, for a step of one symbol. -/
def beforeSymbol (step : SyncStep) (symbol : Symbol) (db : HubDatabase Symbol δ R) :
    HubDatabase Symbol δ R :=
  Function.update db symbol (env.concurrent step symbol (db symbol))

/-- A database call, which fails when there is an outage. -/
def call {α : Type} (hubCall : HubCall Symbol) (outcome : Except HubError α) : Except HubError α :=
  match env.outage hubCall with
  | some error => .error error
  | none => outcome

/-- `fetch_batch`. -/
def fetchBatch (count : ℤ) (symbols : List Symbol) : Except HubError (ProviderBatch Symbol) :=
  match env.provider.getDailyBarsWindow, env.provider.getDailyBarsBatch with
  | some windowMethod, _ => windowMethod symbols request.adjustment count request.last
  | none, some batchMethod => batchMethod symbols request.adjustment count
  | none, none => .error ⟨.other, "'NoneType' object is not callable"⟩

/-- Whether the run compares adjustment revisions. -/
def tracksRevisions : Bool :=
  request.adjustment = .qfq && service.adjustmentRepository &&
    env.provider.getAdjustmentRevision.isSome && env.provider.getDailyBarsBatch.isSome

def sampleRevision (sample : RevisionSample) (symbol : Symbol) : Except HubError R :=
  match env.provider.getAdjustmentRevision with
  | some revisionMethod => revisionMethod sample symbol
  | none => .error ⟨.other, "'NoneType' object is not callable"⟩

/-- The descriptor and the stored history, read to find out whether to rebuild. -/
def readStaleHistory (turn : ℕ) (db : HubDatabase Symbol δ R) (symbol : Symbol) (revision : R) :
    Except HubError (Option Bars) :=
  match env.outage (.descriptor turn symbol) with
  | some error => .error error
  | none =>
    let state := (db symbol).bind fun series => (series .qfq).descriptor
    if state.all fun state => state.revisionHash ≠ revision then
      match env.outage (.history turn symbol) with
      | some error => .error error
      | none => .ok ((db symbol).bind (·.staleHistory revision))
    else .ok none

/-- The provider I/O of a rebuild, with its checks. -/
def planRebuild (count : ℤ) (symbol : Symbol) (revision : R) (existing : Bars) :
    Except HubError RevisionRebuild := do
  let fullCount := max (max count (existing.rows.length + 32)) 400
  if request.last.any fun last => existing.maxKey?.any (last < ·) then
    throw ⟨.invalidMarketData, "qfq revision cannot use a historical cutoff before stored coverage"⟩
  let bySymbol ← env.fetchBatch request fullCount [symbol]
  let records ← match bySymbol symbol with
    | none => throw ⟨.unavailable, "provider omitted requested revision symbol"⟩
    | some records => pure records
  let bars ← validatedBars symbol records request.adjustment
  let bars := request.cutoff bars
  let changedFrom := existing.minKey?.or bars.minKey?
  match bars.minKey?, bars.maxKey? with
  | some first, some latest =>
    let coverageStart := existing.minKey?.getD first
    let coverageEnd := existing.maxKey?.getD latest
    if first > coverageStart ∨ latest < coverageEnd then
      throw ⟨.invalidMarketData, "qfq revision returned incomplete coverage"⟩
    if (∃ day ∈ existing.keys, bars.get? day = none) ∧ ¬ env.provider.authoritativeHistory then
      throw ⟨.invalidMarketData, "qfq revision deletion needs an authoritative source"⟩
    if (← env.sampleRevision .after symbol) ≠ revision then
      throw ⟨.unavailable, "qfq revision changed during fetch"⟩
    return { bars, changedFrom, coverage := some (coverageStart, coverageEnd) }
  | _, _ =>
    if existing.rows ≠ [] then
      throw ⟨.invalidMarketData, "provider returned no bars during qfq revision rebuild"⟩
    return { bars, changedFrom, coverage := none }

/-- The write of a rebuild. -/
def writeRebuild (generations : Symbol → Option ℤ) (turn : ℕ) (symbol : Symbol) (revision : R)
    (rebuild : RevisionRebuild) (run : SyncRun Symbol δ R) : SyncRun Symbol δ R :=
  let result : SyncItemResult :=
    { status := .success, fetched := rebuild.bars.rows.length,
      persisted := rebuild.bars.rows.length, historyRebased := true,
      changedFrom := rebuild.changedFrom }
  match rebuild.coverage with
  | none => run.report symbol result
  | some (coverageStart, coverageEnd) =>
    let run := { run with db := env.beforeSymbol .rebuild symbol run.db }
    match env.call (.reconcile turn symbol) (run.db.reconcileRevision symbol rebuild.bars
      request.adjustment coverageStart coverageEnd generations (some revision)) with
    | .ok db => { run with db }.report symbol result
    | .error error =>
      -- a systemic error is raised again, for the handler of the whole branch
      if error.isSystemic then run.report symbol (.ofError error)
      else run.report symbol { result with
        status := .failed
        persisted := 0
        error := some ⟨.persistenceError, error.message⟩ }

/-- The revision branch of one symbol: a symbol whose history is current goes on to the batches. -/
def syncRevision (generations : Symbol → Option ℤ) (count : ℤ) (turn : ℕ)
    (run : SyncRun Symbol δ R) (symbol : Symbol) : SyncRun Symbol δ R :=
  match env.sampleRevision .before symbol with
  | .error error => run.report symbol (.ofError error)
  | .ok revision =>
    let run := { run with
      revisionBySymbol := Function.update run.revisionBySymbol symbol (some revision)
      db := env.beforeSymbol .read symbol run.db }
    match env.readStaleHistory turn run.db symbol revision with
    | .error error => run.report symbol (.ofError error)
    | .ok none => { run with normalSymbols := run.normalSymbols ++ [symbol] }
    | .ok (some existing) =>
      match env.planRebuild request count symbol revision existing with
      | .error error => run.report symbol (.ofError error)
      | .ok rebuild => env.writeRebuild request generations turn symbol revision rebuild run

/-- One symbol of a fetched batch. -/
def takeFetched (bySymbol : ProviderBatch Symbol) (run : SyncRun Symbol δ R) (symbol : Symbol) :
    SyncRun Symbol δ R :=
  match bySymbol symbol with
  | none => run.report symbol
      (.ofError ⟨.unavailable, "provider omitted requested daily-bar symbol"⟩)
  | some records =>
    match validatedBars symbol records request.adjustment with
    | .error error => run.report symbol (.ofError error)
    | .ok raw =>
      let raw := request.clip raw
      (run.hold symbol (some raw)).report symbol { status := .success, fetched := raw.rows.length }

/-- One provider batch. -/
def syncChunk (count : ℤ) (run : SyncRun Symbol δ R) (chunk : List Symbol) : SyncRun Symbol δ R :=
  match fetchWithInvalidSymbolIsolation (env.fetchBatch request count) chunk with
  | .error error => chunk.foldl (fun run symbol => run.report symbol (.ofError error)) run
  | .ok (batches, individualErrors) =>
    let run := individualErrors.foldl
      (fun run (symbol, error) => run.report symbol (.ofError error)) run
    batches.foldl (fun run (symbols, bySymbol) => symbols.foldl (takeFetched request bySymbol) run)
      run

/-- One symbol of a provider without batches. -/
def syncSingle (start last : Date) (run : SyncRun Symbol δ R) (symbol : Symbol) :
    SyncRun Symbol δ R :=
  match do
    let records ← env.provider.getDailyBars symbol start last request.adjustment
    validatedBars symbol records request.adjustment with
  | .error error => run.report symbol (.ofError error)
  | .ok bars =>
    (run.hold symbol (some bars)).report symbol
      { status := .success, fetched := bars.rows.length }

/-- The revision sampled before the I/O must still describe the fetched data. -/
def recheckRevision (run : SyncRun Symbol δ R) (symbol : Symbol) : SyncRun Symbol δ R :=
  match run.pending symbol, run.revisionBySymbol symbol with
  | some _, some previousRevision =>
    match env.sampleRevision .after symbol with
    | .error error => (run.hold symbol none).report symbol (.ofError error)
    | .ok revision =>
      if revision ≠ previousRevision then
        (run.hold symbol none).report symbol
          (.ofError ⟨.unavailable, "qfq revision changed during fetch"⟩)
      else run
  | _, _ => run

/-- The revision branch: what is left are the normal symbols. -/
def compareRevisions (generations : Symbol → Option ℤ) (count : ℤ) (symbols : List Symbol)
    (run : SyncRun Symbol δ R) : SyncRun Symbol δ R :=
  if env.tracksRevisions service request then
    symbols.zipIdx.foldl
      (fun run next => env.syncRevision request generations count next.2 run next.1) run
  else { run with normalSymbols := symbols }

/-- The fetch of the normal symbols. -/
def fetchNormal (count : ℤ) (run : SyncRun Symbol δ R) : Except HubError (SyncRun Symbol δ R) :=
  if env.provider.getDailyBarsBatch.isSome then
    .ok ((chunks (max 1 service.batchSize) run.normalSymbols).foldl (env.syncChunk request count)
      run)
  else
    match request.start, request.last with
    | some start, some last => .ok (run.normalSymbols.foldl (env.syncSingle request start last) run)
    | _, _ =>
      .error ⟨.invalidMarketData, "provider does not support count-based history bootstrap"⟩

/-- Everything up to the writes of the fetched bars. -/
def fetch (generations : Symbol → Option ℤ) (count : ℤ) (symbols : List Symbol)
    (run : SyncRun Symbol δ R) : Except HubError (SyncRun Symbol δ R) := do
  let run ← env.fetchNormal service request count
    (env.compareRevisions service request generations count symbols run)
  return symbols.foldl env.recheckRevision run

/-- `persist_records`. -/
def persistRecords (hubCall : HubCall Symbol) (generations : Symbol → Option ℤ)
    (run : SyncRun Symbol δ R) (symbols : List Symbol) : Except HubError (HubDatabase Symbol δ R) :=
  env.call hubCall (run.db.upsertFenced symbols (fun symbol => (run.pending symbol).getD ∅)
    request.adjustment generations run.revisionBySymbol)

/-- The retry of one symbol. -/
def persistSymbol (generations : Symbol → Option ℤ) (run : SyncRun Symbol δ R) (symbol : Symbol) :
    SyncRun Symbol δ R :=
  match env.persistRecords request (.retry symbol) generations run [symbol] with
  | .ok db => { run with db }.reportPersisted symbol none
  | .error error => run.reportPersisted symbol (some ⟨.persistenceError, error.message⟩)

/-- `_persist_with_isolation`: one transaction, and one for each symbol when it fails. -/
def persist (generations : Symbol → Option ℤ) (symbols : List Symbol)
    (run : SyncRun Symbol δ R) : Except HubError (SyncRun Symbol δ R) :=
  let grouped := run.grouped symbols
  let run := { run with db := env.before .persist run.db }
  if grouped = [] then .ok run
  else
    match env.persistRecords request (.upsert grouped) generations run grouped with
    | .ok db => .ok (grouped.foldl (fun run symbol => run.reportPersisted symbol none)
        { run with db })
    | .error error =>
      if error.isSystemic then .error error
      else .ok (grouped.foldl (env.persistSymbol request generations) run)

/-- The final `complete_sync` of all good symbols. -/
def complete (generations : Symbol → Option ℤ) (symbols : List Symbol)
    (run : SyncRun Symbol δ R) : Except HubError (SyncRun Symbol δ R) :=
  let good := run.good symbols
  let run := { run with db := env.before .complete run.db }
  let completed := run.db.completeSync good request.adjustment generations
    (request.lookbackBars.getD 0)
  match if good = [] then completed else env.call .complete completed with
  | .ok db => .ok { run with db }
  | .error error =>
    if error.isSystemic then .error error else .ok (good.foldl SyncRun.reportSuperseded run)

/-- A run that has reserved its streams, up to the completion. -/
def syncReserved (generations : Symbol → Option ℤ) (count : ℤ) (symbols : List Symbol)
    (run : SyncRun Symbol δ R) : Except HubError (SyncRun Symbol δ R) := do
  let run ← env.fetch service request generations count symbols run
  env.persist request generations symbols run

/-- `sync` of the canonical symbols, up to the completion, with the reserved generations; the
results of the other symbols are given. -/
def syncCanonical (symbols : List Symbol) (results : Symbol → Option SyncItemResult)
    (db : HubDatabase Symbol δ R) :
    Except HubError ((Symbol → Option ℤ) × SyncRun Symbol δ R) :=
  match request.count, env.outage .reserve with
  | .error error, _ => .error error
  | .ok _, some error => .error error
  | .ok count, none =>
    let (generations, db) := (env.before .reserve db).reserveSync symbols request.adjustment
    (env.syncReserved service request generations count symbols
      { db, results, revisionBySymbol := fun _ => none, normalSymbols := [],
        pending := fun _ => none }).map (generations, ·)

/-- `DailyBarSyncService.sync`. -/
def sync {Raw : Type} (normalizeSymbol : Raw → Except HubError Symbol)
    (bestEffortSymbol : Raw → Symbol) (symbols : List Raw) (db : HubDatabase Symbol δ R) :
    Except HubError (SyncRun Symbol δ R) :=
  let (canonicalSymbols, results) := canonicalizeSymbols normalizeSymbol bestEffortSymbol symbols
  match env.syncCanonical service request canonicalSymbols results db with
  | .error error => .error error
  | .ok (generations, run) => env.complete request generations canonicalSymbols run

end SyncEnvironment

end Sync

end Apanel
