import Apanel.Hub.Sync
import Apanel.Library.Facts
import Apanel.Library.Transition
import Mathlib.Algebra.Order.Ring.Unbundled.Rat
import Mathlib.Algebra.Ring.Rat
import Mathlib.Data.List.Chain

/-!
# Dividends

`EltdxProvider.get_dividends`, `DividendSyncService.sync` and the upsert of `dividend_events`. The
response of the provider is no proof that an event it leaves out was withdrawn, so a sync only
writes the events that it reports: after any number of syncs a stored amount is the one that was
reported last for its date (`dividends_lastReported`).

Amounts are decimals with their own addition, about which nothing is assumed.
-/

namespace Apanel

/-- A record of the provider: what `int` makes of its category, its date when it has one, and what
`Decimal` makes of its `c1_value`, the cash paid for ten shares. -/
structure CapitalChange (D : Type) where
  category : Except HubError ℤ
  date : Option Date
  c1Value : Except HubError D

/-- One element of the response that is validated. -/
inductive DividendRecord (Symbol D : Type)
  | other
  | dividend (symbol : Symbol) (date : Date) (cashAmount : D)

/-- The rows of `dividend_events`, for each security in the `securities` table. -/
abbrev DividendDatabase (Symbol D : Type) := Symbol → Option (Table Date D)

/-- What the provider answers during a sync, or raises on the way, and which database calls fail. -/
structure DividendEnvironment (Symbol D : Type) where
  capitalChanges : Symbol → Except HubError (List (CapitalChange D))
  outage : HubCall Symbol → Option HubError

structure DividendRun (Symbol D : Type) where
  db : DividendDatabase Symbol D
  results : Symbol → Option SyncItemResult
  pending : Symbol → Option (Table Date D)

section Dividends

variable {Raw Symbol D : Type} [DecidableEq Symbol] [ToString Symbol] [Zero D] [Add D]
  [LinearOrder D]

/-! ## The provider -/

/-- One record of the loop of `get_dividends`, where `tenth` divides by ten. -/
def addCash (tenth : D → D) (totals : Table Date D) (record : CapitalChange D) :
    Except HubError (Table Date D) := do
  if (← record.category) ≠ 1 then return totals
  match record.date with
  | none => return totals
  | some eventDate =>
    let cashPerShare := tenth (← record.c1Value)
    if 0 < cashPerShare then
      return totals.insert eventDate ((totals.get? eventDate).getD 0 + cashPerShare)
    else return totals

/-- `Dividend.__post_init__`. -/
def dividend (symbol : Symbol) (date : Date) (cashAmount : D) :
    Except HubError (DividendRecord Symbol D) :=
  if cashAmount < 0 then .error ⟨.invalidMarketData, "cash_amount must not be negative"⟩
  else .ok (.dividend symbol date cashAmount)

/-- `_validated_dividends` of one record. -/
def validateDividend (symbol : Symbol) : DividendRecord Symbol D → Except HubError (Date × D)
  | .other => .error ⟨.invalidMarketData, "provider returned a non-Dividend record"⟩
  | .dividend returned date cashAmount =>
    if returned ≠ symbol then
      .error ⟨.invalidMarketData,
        s!"provider returned dividend for {returned}, requested {symbol}"⟩
    else .ok (date, cashAmount)

/-- `_validated_dividends`. -/
def validatedDividends (symbol : Symbol) (records : List (DividendRecord Symbol D)) :
    Except HubError (Table Date D) :=
  Facts.unique (validateDividend symbol)
    ⟨.invalidMarketData, "conflicting dividend totals for one identity"⟩ records

/-! ## The repository -/

namespace DividendDatabase

/-- `SqlAlchemyDividendEventRepository.upsert_many`, of the records of each symbol. -/
def upsertMany (db : DividendDatabase Symbol D) (symbols : List Symbol)
    (records : Symbol → Table Date D) : Except HubError (DividendDatabase Symbol D) :=
  let missing := symbols.filter fun symbol => (db symbol).isNone
  if missing = [] then
    .ok fun symbol =>
      if symbol ∈ symbols then (db symbol).map fun events => events.insertMany (records symbol).rows
      else db symbol
  else .error ⟨.record, "security is not persisted: " ++ ", ".intercalate (missing.map toString)⟩

/-- The stored events of a symbol. -/
def events (db : DividendDatabase Symbol D) (symbol : Symbol) : Table Date D := (db symbol).getD ∅

end DividendDatabase

/-! ## The service -/

namespace DividendRun

def report (run : DividendRun Symbol D) (symbol : Symbol) (result : SyncItemResult) :
    DividendRun Symbol D :=
  { run with results := Function.update run.results symbol (some result) }

def hold (run : DividendRun Symbol D) (symbol : Symbol) (records : Table Date D) :
    DividendRun Symbol D :=
  { run with pending := Function.update run.pending symbol (some records) }

def reportPersisted (run : DividendRun Symbol D) (symbol : Symbol) (error : Option SyncError) :
    DividendRun Symbol D :=
  { run with
    results := Function.update run.results symbol ((run.results symbol).map (·.persist error)) }

/-- The symbols with records to persist. -/
def grouped (run : DividendRun Symbol D) (symbols : List Symbol) : List Symbol :=
  symbols.dedup.filter fun symbol => (run.pending symbol).any (·.rows ≠ [])

/-- The symbol is reported as synced. -/
def Succeeded (run : DividendRun Symbol D) (symbol : Symbol) : Prop :=
  (run.results symbol).any (·.status = .success)

instance (run : DividendRun Symbol D) (symbol : Symbol) : Decidable (run.Succeeded symbol) :=
  inferInstanceAs (Decidable (_ = true))

end DividendRun

namespace DividendEnvironment

variable (env : DividendEnvironment Symbol D) (tenth : D → D)

/-- `EltdxProvider.get_dividends`. -/
def getDividends (symbol : Symbol) : Except HubError (List (DividendRecord Symbol D)) := do
  let response ← env.capitalChanges symbol
  let totals ← response.foldlM (addCash tenth) ∅
  totals.rows.mapM fun (eventDate, amount) => dividend symbol eventDate amount

/-- `fetch`. -/
def fetch (symbol : Symbol) : Except HubError (Table Date D) := do
  validatedDividends symbol (← env.getDividends tenth symbol)

/-- The outcome of a fetch. -/
def takeFetched (run : DividendRun Symbol D) (symbol : Symbol) : DividendRun Symbol D :=
  match env.fetch tenth symbol with
  | .error error => run.report symbol (.ofError error)
  | .ok records =>
    (run.hold symbol records).report symbol
      { status := .success, fetched := records.rows.length }

/-- The upsert of the records of some symbols. -/
def persistRecords (hubCall : HubCall Symbol) (run : DividendRun Symbol D)
    (symbols : List Symbol) : Except HubError (DividendDatabase Symbol D) :=
  match env.outage hubCall with
  | some error => .error error
  | none => run.db.upsertMany symbols fun symbol => (run.pending symbol).getD ∅

/-- The retry of one symbol. -/
def persistSymbol (run : DividendRun Symbol D) (symbol : Symbol) : DividendRun Symbol D :=
  match env.persistRecords (.retry symbol) run [symbol] with
  | .ok db => { run with db }.reportPersisted symbol none
  | .error error => run.reportPersisted symbol (some ⟨.persistenceError, error.message⟩)

/-- `_persist_with_isolation`. -/
def persist (symbols : List Symbol) (run : DividendRun Symbol D) :
    Except HubError (DividendRun Symbol D) :=
  let grouped := run.grouped symbols
  if grouped = [] then .ok run
  else
    match env.persistRecords (.upsert grouped) run grouped with
    | .ok db =>
      .ok (grouped.foldl (fun run symbol => run.reportPersisted symbol none) { run with db })
    | .error error =>
      if error.isSystemic then .error error
      else .ok (grouped.foldl env.persistSymbol run)

/-- `DividendSyncService.sync`. -/
def sync (normalizeSymbol : Raw → Except HubError Symbol) (bestEffortSymbol : Raw → Symbol)
    (symbols : List Raw) (db : DividendDatabase Symbol D) :
    Except HubError (DividendRun Symbol D) :=
  let (canonicalSymbols, results) := canonicalizeSymbols normalizeSymbol bestEffortSymbol symbols
  env.persist canonicalSymbols
    (canonicalSymbols.foldl (env.takeFetched tenth) { db, results, pending := fun _ => none })

end DividendEnvironment

/-! ## What the provider reports -/

/-- The cash for one share that a record pays on a day, when it is positive. -/
def CapitalChange.paid (tenth : D → D) (date : Date) (record : CapitalChange D) : Option D :=
  if record.category = .ok 1 ∧ record.date = some date then
    (record.c1Value.toOption.map tenth).filter (0 < ·)
  else none

/-- The total that a response reports for a day. -/
def reportedTotal (tenth : D → D) (response : List (CapitalChange D)) (date : Date) : Option D :=
  match response.filterMap (CapitalChange.paid tenth date) with
  | [] => none
  | payments => some (payments.foldl (· + ·) 0)

variable {tenth : D → D}

theorem get?_addCash {totals totals' : Table Date D} {record : CapitalChange D}
    (h : addCash tenth totals record = .ok totals') (date : Date) :
    totals'.get? date = match record.paid tenth date with
      | none => totals.get? date
      | some cash => some ((totals.get? date).getD 0 + cash) := by
  obtain ⟨category, day, c1Value⟩ := record
  unfold addCash at h
  dsimp only [CapitalChange.paid] at h ⊢
  cases category with
  | error error => cases h
  | ok category =>
    rw [Except.ok_bind] at h
    by_cases hone : category = 1
    case neg =>
      rw [if_pos hone] at h
      cases h
      rw [if_neg fun h => hone (Except.ok.inj h.1)]
    case pos =>
      rw [if_neg (not_not.mpr hone)] at h
      subst hone
      cases day with
      | none =>
        cases h
        rw [if_neg (by simp)]
      | some eventDate =>
        cases c1Value with
        | error error => cases h
        | ok cashPerTen =>
          dsimp only [Except.toOption, Option.map_some] at h ⊢
          rw [Except.ok_bind] at h
          by_cases hdate : eventDate = date
          case neg =>
            rw [if_neg fun h => hdate (Option.some.inj h.2)]
            split at h
            · cases h
              exact Table.get?_insert_of_ne (Ne.symm hdate)
            · cases h
              rfl
          case pos =>
            subst hdate
            rw [if_pos ⟨rfl, rfl⟩]
            split at h
            · next hpos =>
              cases h
              rw [Option.filter_some, if_pos (decide_eq_true hpos)]
              exact Table.get?_insert_self ..
            · next hpos =>
              cases h
              rw [Option.filter_some, if_neg (by simpa using hpos)]

/-- The totals after the loop. -/
theorem get?_foldlM_addCash {response : List (CapitalChange D)} {totals totals' : Table Date D}
    (h : response.foldlM (addCash tenth) totals = .ok totals') (date : Date) :
    totals'.get? date = (response.filterMap (CapitalChange.paid tenth date)).foldl
      (fun total cash => some (total.getD 0 + cash)) (totals.get? date) := by
  induction response generalizing totals with
  | nil =>
    cases h
    rfl
  | cons record response ih =>
    rw [List.foldlM_cons] at h
    obtain ⟨totals₁, hrecord, h⟩ := Except.bind_eq_ok.mp h
    rw [ih h, get?_addCash hrecord, List.filterMap_cons]
    cases record.paid tenth date with
    | none => rfl
    | some cash => rfl

omit [LinearOrder D] in
theorem foldl_payments (payments : List D) (total : D) :
    payments.foldl (fun total cash => some (total.getD 0 + cash)) (some total) =
      some (payments.foldl (· + ·) total) := by
  induction payments generalizing total with
  | nil => rfl
  | cons cash payments ih => exact ih (total + cash)

omit [DecidableEq Symbol] [ToString Symbol] [Add D] in
theorem mapM_dividend {symbol : Symbol} {rows : List (Date × D)}
    {records : List (DividendRecord Symbol D)}
    (h : rows.mapM (fun (eventDate, amount) => dividend symbol eventDate amount) = .ok records) :
    records = rows.map fun row => .dividend symbol row.1 row.2 := by
  induction rows generalizing records with
  | nil =>
    cases h
    rfl
  | cons row rows ih =>
    obtain ⟨record, records', hrecord, hrecords, rfl⟩ := mapM_cons_eq_ok.mp h
    rw [List.map_cons, ih hrecords]
    dsimp only [dividend] at hrecord
    split at hrecord
    · cases hrecord
    · cases hrecord
      rfl

namespace DividendEnvironment

variable {env : DividendEnvironment Symbol D} {symbol : Symbol} {fetched : Table Date D}

variable (env tenth) in
/-- What the provider reports for a symbol. -/
def reported (symbol : Symbol) (date : Date) : Option D :=
  reportedTotal tenth ((env.capitalChanges symbol).toOption.getD []) date

/-- A fetch brings what the provider reports. -/
theorem get?_fetch (h : env.fetch tenth symbol = .ok fetched) (date : Date) :
    fetched.get? date = env.reported tenth symbol date := by
  obtain ⟨records, hrecords, hfetched⟩ := Except.bind_eq_ok.mp h
  obtain ⟨response, hresponse, hrecords⟩ := Except.bind_eq_ok.mp hrecords
  obtain ⟨totals, htotals, hrecords⟩ := Except.bind_eq_ok.mp hrecords
  cases mapM_dividend hrecords
  have hsame : fetched.get? date = totals.get? date := by
    refine Option.ext fun amount => ?_
    rw [Facts.get?_of_unique_eq_ok hfetched, Table.get?_eq_some]
    constructor
    · rintro ⟨record, hmem, hparse⟩
      obtain ⟨row, hrow, rfl⟩ := List.mem_map.mp hmem
      rw [validateDividend, if_neg (not_not.mpr rfl)] at hparse
      cases hparse
      exact hrow
    · intro hrow
      refine ⟨_, List.mem_map_of_mem hrow, ?_⟩
      rw [validateDividend, if_neg (not_not.mpr rfl)]
  rw [hsame, get?_foldlM_addCash htotals, Table.get?_empty, reported, hresponse]
  dsimp only [Except.toOption, Option.getD_some, reportedTotal]
  cases response.filterMap (CapitalChange.paid tenth date) with
  | nil => rfl
  | cons cash payments => exact foldl_payments payments (0 + cash)

/-! ## What a sync stores -/

variable {symbols : List Symbol} {run : DividendRun Symbol D}

omit [Zero D] [Add D] [LinearOrder D] in
theorem events_upsertMany {db db' : DividendDatabase Symbol D} {records : Symbol → Table Date D}
    (h : db.upsertMany symbols records = .ok db') (symbol : Symbol) :
    db'.events symbol = if symbol ∈ symbols then
        (db.events symbol).insertMany (records symbol).rows
      else db.events symbol := by
  unfold DividendDatabase.upsertMany at h
  dsimp only at h
  split at h
  · next hmissing =>
    cases h
    unfold DividendDatabase.events
    dsimp only
    split
    · next hmem =>
      cases hrow : db symbol with
      | none =>
        have : symbol ∈ symbols.filter fun symbol => (db symbol).isNone :=
          List.mem_filter.mpr ⟨hmem, by rw [hrow]; rfl⟩
        rw [hmissing] at this
        cases this
      | some events => rfl
    · rfl
  · cases h

variable (env tenth symbols) in
/-- What a run holds are the fetched records of its symbols, and it holds those of every symbol that
has succeeded. -/
structure Fetched (run : DividendRun Symbol D) : Prop where
  fetched : ∀ symbol records, run.pending symbol = some records →
    env.fetch tenth symbol = .ok records ∧ symbol ∈ symbols
  succeeded : ∀ symbol, run.Succeeded symbol → ∃ records, run.pending symbol = some records

theorem Fetched.takeFetched (h : env.Fetched tenth symbols run) (hmem : symbol ∈ symbols) :
    env.Fetched tenth symbols (env.takeFetched tenth run symbol) := by
  unfold DividendEnvironment.takeFetched
  cases hfetch : env.fetch tenth symbol with
  | error error =>
    refine ⟨h.fetched, fun symbol' hsucceeded => ?_⟩
    by_cases heq : symbol' = symbol
    · subst heq
      dsimp only [DividendRun.Succeeded, DividendRun.report] at hsucceeded
      rw [Function.update_self] at hsucceeded
      cases hsucceeded
    · dsimp only [DividendRun.Succeeded, DividendRun.report] at hsucceeded
      rw [Function.update_of_ne heq] at hsucceeded
      exact h.succeeded symbol' hsucceeded
  | ok records =>
    constructor
    · intro symbol' records' hpending
      dsimp only [DividendRun.report, DividendRun.hold] at hpending
      by_cases heq : symbol' = symbol
      · subst heq
        rw [Function.update_self] at hpending
        cases hpending
        exact ⟨hfetch, hmem⟩
      · rw [Function.update_of_ne heq] at hpending
        exact h.fetched symbol' records' hpending
    · intro symbol' hsucceeded
      dsimp only [DividendRun.Succeeded, DividendRun.report, DividendRun.hold] at hsucceeded ⊢
      by_cases heq : symbol' = symbol
      · subst heq
        exact ⟨records, Function.update_self ..⟩
      · rw [Function.update_of_ne heq] at hsucceeded ⊢
        exact h.succeeded symbol' hsucceeded

theorem Fetched.foldl (h : env.Fetched tenth symbols run) {l : List Symbol}
    (hl : ∀ symbol ∈ l, symbol ∈ symbols) :
    env.Fetched tenth symbols (l.foldl (env.takeFetched tenth) run) := by
  induction l generalizing run with
  | nil => exact h
  | cons symbol l ih =>
    obtain ⟨hmem, hl⟩ := List.forall_mem_cons.mp hl
    exact ih (h.takeFetched hmem) hl

theorem foldl_takeFetched_db (l : List Symbol) :
    (l.foldl (env.takeFetched tenth) run).db = run.db := by
  induction l generalizing run with
  | nil => rfl
  | cons symbol l ih =>
    rw [List.foldl_cons, ih, takeFetched]
    split <;> rfl

omit [ToString Symbol] [Zero D] [Add D] [LinearOrder D] in
theorem foldl_reportPersisted (run : DividendRun Symbol D) (l : List Symbol) :
    let run' := l.foldl (fun run symbol => run.reportPersisted symbol none) run
    run'.db = run.db ∧ ∀ symbol, run'.Succeeded symbol → symbol ∈ l ∨ run.Succeeded symbol := by
  induction l generalizing run with
  | nil => exact ⟨rfl, fun _ => .inr⟩
  | cons symbol l ih =>
    obtain ⟨hdb, hsucceeded⟩ := ih (run.reportPersisted symbol none)
    refine ⟨hdb, fun symbol' h => ?_⟩
    rcases hsucceeded symbol' h with hmem | h
    · exact .inl (List.mem_cons_of_mem _ hmem)
    · by_cases heq : symbol' = symbol
      · exact .inl (heq ▸ List.mem_cons_self)
      · dsimp only [DividendRun.Succeeded, DividendRun.reportPersisted] at h
        rw [Function.update_of_ne heq] at h
        exact .inr h

variable (env) in
omit [Zero D] [Add D] [LinearOrder D] in
/-- The retry of a symbol writes its records when it succeeds. -/
theorem events_persistSymbol (run : DividendRun Symbol D) (symbol : Symbol) :
    let run' := env.persistSymbol run symbol
    run'.pending = run.pending ∧
      (run'.Succeeded symbol → run'.db.events symbol =
        (run.db.events symbol).insertMany ((run.pending symbol).getD ∅).rows) ∧
      ∀ symbol', symbol' ≠ symbol → run'.db.events symbol' = run.db.events symbol' ∧
        run'.results symbol' = run.results symbol' := by
  unfold persistSymbol persistRecords
  cases env.outage (.retry symbol) with
  | some error =>
    refine ⟨rfl, fun h => ?_, fun symbol' hne => ⟨rfl, Function.update_of_ne hne ..⟩⟩
    dsimp only [DividendRun.Succeeded, DividendRun.reportPersisted] at h
    rw [Function.update_self, Option.any_map] at h
    obtain ⟨result, -, h⟩ := (Option.any_eq_true _ _).mp h
    cases h
  | none =>
    dsimp only
    cases hupsert : run.db.upsertMany [symbol] fun symbol => (run.pending symbol).getD ∅ with
    | ok db =>
      have hevents := events_upsertMany hupsert
      refine ⟨rfl, fun _ => ?_, fun symbol' hne => ⟨?_, Function.update_of_ne hne ..⟩⟩
      · exact (hevents symbol).trans (if_pos List.mem_cons_self)
      · exact (hevents symbol').trans (if_neg (List.not_mem_cons_of_ne_of_not_mem hne List.not_mem_nil))
    | error error =>
      refine ⟨rfl, fun h => ?_, fun symbol' hne => ⟨rfl, Function.update_of_ne hne ..⟩⟩
      dsimp only [DividendRun.Succeeded, DividendRun.reportPersisted] at h
      rw [Function.update_self, Option.any_map] at h
      obtain ⟨result, -, h⟩ := (Option.any_eq_true _ _).mp h
      cases h

variable (env) in
omit [Zero D] [Add D] [LinearOrder D] in
theorem foldl_persistSymbol (run : DividendRun Symbol D) {l : List Symbol} (hl : l.Nodup)
    (symbol : Symbol) :
    let run' := l.foldl env.persistSymbol run
    (symbol ∈ l → run'.Succeeded symbol → run'.db.events symbol =
        (run.db.events symbol).insertMany ((run.pending symbol).getD ∅).rows) ∧
      (symbol ∉ l → run'.db.events symbol = run.db.events symbol ∧
        run'.results symbol = run.results symbol) := by
  induction l generalizing run with
  | nil => exact ⟨nofun, fun _ => ⟨rfl, rfl⟩⟩
  | cons x l ih =>
    obtain ⟨hx, hl⟩ := List.nodup_cons.mp hl
    obtain ⟨hpending, hself, hframe⟩ := env.events_persistSymbol run x
    obtain ⟨hmem, hnot⟩ := ih (env.persistSymbol run x) hl
    constructor
    · intro h hsucceeded
      rcases List.mem_cons.mp h with rfl | h
      · obtain ⟨hevents, hresults⟩ := hnot hx
        refine hevents.trans (hself ?_)
        unfold DividendRun.Succeeded at hsucceeded ⊢
        rwa [List.foldl_cons, hresults] at hsucceeded
      · have hne : symbol ≠ x := fun heq => hx (heq ▸ h)
        have hevents := hmem h hsucceeded
        rwa [hpending, (hframe symbol hne).1] at hevents
    · intro h
      obtain ⟨hne, h⟩ := List.ne_and_not_mem_of_not_mem_cons h
      obtain ⟨hevents, hresults⟩ := hnot h
      exact ⟨hevents.trans (hframe symbol hne).1, hresults.trans (hframe symbol hne).2⟩

/-- A symbol that a run reports as synced has the fetched records written over its events. -/
theorem Fetched.persist (h : env.Fetched tenth symbols run) {run' : DividendRun Symbol D}
    (hpersist : env.persist symbols run = .ok run') (hsucceeded : run'.Succeeded symbol) :
    ∃ records, env.fetch tenth symbol = .ok records ∧
      run'.db.events symbol = (run.db.events symbol).insertMany records.rows := by
  have hgrouped (symbol : Symbol) (hmem : symbol ∈ run.grouped symbols) :
      ∃ records, run.pending symbol = some records := by
    obtain ⟨-, hpending⟩ := List.mem_filter.mp hmem
    obtain ⟨records, hrecords, -⟩ := (Option.any_eq_true _ _).mp hpending
    exact ⟨records, hrecords⟩
  -- a symbol with nothing to persist is left as it is
  have hother (records : Table Date D) (hrecords : run.pending symbol = some records)
      (hnot : symbol ∉ run.grouped symbols) : records.rows = [] := by
    by_contra hne
    refine hnot (List.mem_filter.mpr ⟨List.mem_dedup.mpr (h.fetched symbol records hrecords).2, ?_⟩)
    rw [hrecords, Option.any_some, decide_eq_true_eq]
    exact hne
  suffices hsuffices : ∃ records, run.pending symbol = some records ∧
      (symbol ∈ run.grouped symbols → run'.db.events symbol =
        (run.db.events symbol).insertMany ((run.pending symbol).getD ∅).rows) ∧
      (symbol ∉ run.grouped symbols → run'.db.events symbol = run.db.events symbol) by
    obtain ⟨records, hrecords, hmem, hnot⟩ := hsuffices
    refine ⟨records, (h.fetched symbol records hrecords).1, ?_⟩
    by_cases hcase : symbol ∈ run.grouped symbols
    · rw [hmem hcase, hrecords]
      rfl
    · rw [hnot hcase, hother records hrecords hcase]
      rfl
  unfold DividendEnvironment.persist at hpersist
  have hnodup : (run.grouped symbols).Nodup := (List.nodup_dedup symbols).filter _
  generalize run.grouped symbols = grouped at hpersist hgrouped hother hnodup ⊢
  dsimp only at hpersist
  split at hpersist
  · next hnil =>
    cases hpersist
    obtain ⟨records, hrecords⟩ := h.succeeded symbol hsucceeded
    exact ⟨records, hrecords, fun hmem => absurd hmem (hnil ▸ List.not_mem_nil), fun _ => rfl⟩
  · split at hpersist
    · next db hrecords =>
      cases hpersist
      obtain ⟨hdb, hcases⟩ := foldl_reportPersisted { run with db } grouped
      have hpending : ∃ records, run.pending symbol = some records :=
        (hcases symbol hsucceeded).elim (hgrouped symbol) (h.succeeded symbol)
      obtain ⟨records, hpending⟩ := hpending
      have hupsert : run.db.upsertMany grouped (fun symbol => (run.pending symbol).getD ∅) =
          .ok db := by
        unfold persistRecords at hrecords
        split at hrecords
        · cases hrecords
        · exact hrecords
      have hevents := events_upsertMany hupsert symbol
      refine ⟨records, hpending, fun hmem => ?_, fun hnot => ?_⟩
      · rw [hdb]
        exact hevents.trans (if_pos hmem)
      · rw [hdb]
        exact hevents.trans (if_neg hnot)
    · next error _ =>
      split at hpersist
      · cases hpersist
      · cases hpersist
        obtain ⟨hmem, hnot⟩ := env.foldl_persistSymbol run hnodup symbol
        by_cases hcase : symbol ∈ grouped
        · obtain ⟨records, hpending⟩ := hgrouped symbol hcase
          exact ⟨records, hpending, fun hmem' => hmem hmem' hsucceeded, fun h => absurd hcase h⟩
        · obtain ⟨hevents, hresults⟩ := hnot hcase
          unfold DividendRun.Succeeded at hsucceeded
          rw [hresults] at hsucceeded
          obtain ⟨records, hpending⟩ := h.succeeded symbol hsucceeded
          exact ⟨records, hpending, fun h => absurd h hcase, fun _ => hevents⟩

/-- A sync writes what the provider reports over the events of a symbol that it reports as
synced. -/
theorem get?_events_sync {normalizeSymbol : Raw → Except HubError Symbol}
    {bestEffortSymbol : Raw → Symbol} {rawSymbols : List Raw} {db : DividendDatabase Symbol D}
    (h : env.sync tenth normalizeSymbol bestEffortSymbol rawSymbols db = .ok run)
    (hsucceeded : run.Succeeded symbol) (date : Date) :
    (run.db.events symbol).get? date =
      (env.reported tenth symbol date).or ((db.events symbol).get? date) := by
  have hfailed := canonicalizeSymbols_failed normalizeSymbol bestEffortSymbol rawSymbols
  unfold DividendEnvironment.sync at h
  generalize canonicalizeSymbols normalizeSymbol bestEffortSymbol rawSymbols = canonicalized at h hfailed
  have hstart : env.Fetched tenth canonicalized.1
      { db, results := canonicalized.2, pending := fun _ => none } := by
    refine ⟨fun _ _ hpending => ?_, fun symbol hsucceeded => ?_⟩
    · cases hpending
    · obtain ⟨result, hresult, hstatus⟩ := (Option.any_eq_true _ _).mp hsucceeded
      rw [hfailed symbol result hresult] at hstatus
      cases hstatus
  have hfetched := hstart.foldl fun _ hmem => hmem
  obtain ⟨records, hrecords, hevents⟩ := hfetched.persist h hsucceeded
  rw [hevents, foldl_takeFetched_db, Table.get?_insertMany_table, get?_fetch hrecords]

end DividendEnvironment

/-! ## Syncs one after the other -/

/-- A sync, with what its provider answers. -/
structure DividendCall (Raw Symbol D : Type) where
  env : DividendEnvironment Symbol D
  symbols : List Raw

namespace DividendCall

variable (tenth) (normalizeSymbol : Raw → Except HubError Symbol) (bestEffortSymbol : Raw → Symbol)

/-- The database after a sync; one that raises leaves it as it is. -/
def step (db : DividendDatabase Symbol D) (call : DividendCall Raw Symbol D) :
    DividendDatabase Symbol D :=
  match call.env.sync tenth normalizeSymbol bestEffortSymbol call.symbols db with
  | .ok run => run.db
  | .error _ => db

/-- The sync reports the symbol as synced. -/
def Syncs (symbol : Symbol) (db : DividendDatabase Symbol D) (call : DividendCall Raw Symbol D) :
    Prop :=
  (call.env.sync tenth normalizeSymbol bestEffortSymbol call.symbols db).toOption.any
    fun run => run.Succeeded symbol

instance (symbol : Symbol) (db : DividendDatabase Symbol D) (call : DividendCall Raw Symbol D) :
    Decidable (Syncs tenth normalizeSymbol bestEffortSymbol symbol db call) :=
  inferInstanceAs (Decidable (_ = true))

/-- What a sync reports for a symbol. -/
def reported (symbol : Symbol) (call : DividendCall Raw Symbol D) : Date → Option D :=
  call.env.reported tenth symbol

/-- The events of the symbol after the sync are those that its provider reports. -/
def Mirrors (symbol : Symbol) (db : DividendDatabase Symbol D) (call : DividendCall Raw Symbol D) :
    Prop :=
  ∀ date, ((step tenth normalizeSymbol bestEffortSymbol db call).events symbol).get? date =
    call.reported tenth symbol date

variable {tenth normalizeSymbol bestEffortSymbol} {symbol : Symbol}
  {db : DividendDatabase Symbol D} {call : DividendCall Raw Symbol D}

theorem get?_events_step (h : Syncs tenth normalizeSymbol bestEffortSymbol symbol db call)
    (date : Date) :
    ((step tenth normalizeSymbol bestEffortSymbol db call).events symbol).get? date =
      (call.reported tenth symbol date).or ((db.events symbol).get? date) := by
  unfold Syncs at h
  unfold step
  cases hsync : call.env.sync tenth normalizeSymbol bestEffortSymbol call.symbols db with
  | error error =>
    rw [hsync] at h
    cases h
  | ok run =>
    rw [hsync] at h
    exact DividendEnvironment.get?_events_sync hsync (of_decide_eq_true h) date

/-- No date of the first events is missing from the others. -/
def KeepsDates (events events' : Date → Option D) : Prop :=
  ∀ date, (events date).isSome → (events' date).isSome

theorem mirrors_iff (h : Syncs tenth normalizeSymbol bestEffortSymbol symbol db call) :
    Mirrors tenth normalizeSymbol bestEffortSymbol symbol db call ↔
      KeepsDates (db.events symbol).get? (call.reported tenth symbol) := by
  refine forall_congr' fun date => ?_
  rw [get?_events_step h]
  cases call.reported tenth symbol date with
  | some amount => simp
  | none => cases (db.events symbol).get? date <;> simp

/-- After any number of syncs a stored amount is the one that was reported last for its date, and
a date that none of them has reported keeps its amount. -/
theorem get?_events_run {calls : List (DividendCall Raw Symbol D)}
    (h : Always (step tenth normalizeSymbol bestEffortSymbol)
      (Syncs tenth normalizeSymbol bestEffortSymbol symbol) db calls) (date : Date) :
    ((Apanel.run (step tenth normalizeSymbol bestEffortSymbol) db calls).events symbol).get? date =
      (calls.filterMap (reported tenth symbol · date)).getLast?.or
        ((db.events symbol).get? date) := by
  induction calls generalizing db with
  | nil => rfl
  | cons call calls ih =>
    obtain ⟨hcall, hcalls⟩ := h
    rw [run_cons, ih hcalls, get?_events_step hcall, List.filterMap_cons]
    cases call.reported tenth symbol date with
    | none => rfl
    | some amount =>
      rw [List.getLast?_cons]
      cases (calls.filterMap (reported tenth symbol · date)).getLast? <;> rfl

/-- Every sync stores exactly what its provider reports if and only if no stored or reported date is
missing from the next report. -/
theorem always_mirrors_iff {calls : List (DividendCall Raw Symbol D)}
    (h : Always (step tenth normalizeSymbol bestEffortSymbol)
      (Syncs tenth normalizeSymbol bestEffortSymbol symbol) db calls) :
    Always (step tenth normalizeSymbol bestEffortSymbol)
        (Mirrors tenth normalizeSymbol bestEffortSymbol symbol) db calls ↔
      List.IsChain KeepsDates ((db.events symbol).get? :: calls.map (reported tenth symbol)) := by
  induction calls generalizing db with
  | nil => simp [Always]
  | cons call calls ih =>
    obtain ⟨hcall, hcalls⟩ := h
    rw [List.map_cons, List.isChain_cons_cons, ← mirrors_iff hcall]
    refine and_congr_right fun hmirrors => ?_
    have hevents : ((step tenth normalizeSymbol bestEffortSymbol db call).events symbol).get? =
        call.reported tenth symbol := funext hmirrors
    rw [ih hcalls, hevents]

/-- After any number of syncs that report a symbol as synced, its stored events are those that were
reported last for each date; each sync stores exactly what its provider reports if and only if no
report leaves out a date that was stored or reported before. -/
theorem dividends_lastReported (tenth : D → D) (normalizeSymbol : Raw → Except HubError Symbol)
    (bestEffortSymbol : Raw → Symbol) (symbol : Symbol) (db : DividendDatabase Symbol D)
    (calls : List (DividendCall Raw Symbol D))
    (h : Always (step tenth normalizeSymbol bestEffortSymbol)
      (Syncs tenth normalizeSymbol bestEffortSymbol symbol) db calls) :
    (∀ date,
      ((Apanel.run (step tenth normalizeSymbol bestEffortSymbol) db calls).events symbol).get? date =
        (calls.filterMap (reported tenth symbol · date)).getLast?.or
          ((db.events symbol).get? date)) ∧
    (Always (step tenth normalizeSymbol bestEffortSymbol)
        (Mirrors tenth normalizeSymbol bestEffortSymbol symbol) db calls ↔
      List.IsChain KeepsDates ((db.events symbol).get? :: calls.map (reported tenth symbol))) :=
  ⟨get?_events_run h, always_mirrors_iff h⟩

end DividendCall

end Dividends

/-! ## A moved event -/

/-- A response with one cash dividend of 10 for ten shares. -/
def cashOn (date : Date) : List (CapitalChange ℚ) := [⟨.ok 1, some date, .ok 10⟩]

/-- A sync of the only security. -/
def dividendCall (response : List (CapitalChange ℚ)) : DividendCall ℕ ℕ ℚ :=
  { env := { capitalChanges := fun _ => .ok response, outage := fun _ => none }
    symbols := [600519] }

/-- The only security, without events. -/
def noDividends : DividendDatabase ℕ ℚ := fun symbol => if symbol = 600519 then some ∅ else none

/-- The event of day 1 is moved to day 2: it stays among the stored events. -/
theorem not_mirrors_moved :
    let step := DividendCall.step (· / 10) (.ok : ℕ → Except HubError ℕ) id
    let calls := [dividendCall (cashOn 1), dividendCall (cashOn 2)]
    Always step (DividendCall.Syncs (· / 10) .ok id 600519) noDividends calls ∧
      ((run step noDividends calls).events 600519).rows = [(1, 1), (2, 1)] ∧
      (dividendCall (cashOn 2)).reported (· / 10) 600519 1 = none := by
  decide +kernel

/-- A corrected amount and an added event. -/
theorem dividends_lastReported_corrected :
    let step := DividendCall.step (· / 10) (.ok : ℕ → Except HubError ℕ) id
    let calls := [dividendCall (cashOn 1), dividendCall (cashOn 1 ++ cashOn 1 ++ cashOn 2)]
    ((run step noDividends calls).events 600519).get? 1 = some 2 ∧
      ((run step noDividends calls).events 600519).get? 2 = some 1 := by
  intro step calls
  have hevents := (DividendCall.dividends_lastReported (· / 10) .ok id 600519 noDividends calls
    (by decide +kernel)).1
  exact ⟨(hevents 1).trans (by decide +kernel), (hevents 2).trans (by decide +kernel)⟩

end Apanel
