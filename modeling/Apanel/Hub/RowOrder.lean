import Apanel.Hub.Isolation
import Apanel.Library.Facts
import Mathlib.Data.Prod.Lex
import Mathlib.Data.String.Basic

/-!
# The order of provider rows

The service and the repository both collapse equal rows and reject rows that contradict each other.
In both layers the order and the repetitions of the rows do not matter (`sync_sameRows`), and a
conflict rejects the symbol as a whole (`sync_rejected`).
-/

namespace Apanel

/-- The same rows, in any order and each any number of times. -/
def SameRows {α : Type} (records records' : List α) : Prop :=
  ∀ record, record ∈ records ↔ record ∈ records'

/-- Two rows of one identity with different contents. -/
def ProviderRecord.Conflict {Symbol : Type} (records : List (ProviderRecord Symbol)) : Prop :=
  ∃ symbol tradeDate adjustment bar bar', .bar symbol tradeDate adjustment bar ∈ records ∧
    .bar symbol tradeDate adjustment bar' ∈ records ∧ bar ≠ bar'

/-- Rows of the requested series. -/
def OwnRows {Symbol : Type} (symbol : Symbol) (adjustment : Adjustment) (records : List (ProviderRecord Symbol)) :
    Prop :=
  ∀ record ∈ records, ∃ tradeDate bar, record = .bar symbol tradeDate adjustment bar

theorem SameRows.ownRows {Symbol : Type} {symbol : Symbol} {adjustment : Adjustment}
    {records records' : List (ProviderRecord Symbol)} (h : SameRows records records')
    (hown : OwnRows symbol adjustment records) : OwnRows symbol adjustment records' :=
  fun record hrecord => hown record ((h record).mpr hrecord)

/-- Two outcomes that differ at most in an error. -/
def AlikeUpTo {α : Type} (P : HubError → HubError → Prop) : Except HubError α → Except HubError α → Prop
  | .ok a, .ok b => a = b
  | .error error, .error error' => P error error'
  | _, _ => False

theorem AlikeUpTo.eq_or {α : Type} {P : HubError → HubError → Prop} {answer answer' : Except HubError α}
    (h : AlikeUpTo P answer answer') :
    (∃ error error', answer = .error error ∧ answer' = .error error' ∧ P error error') ∨
      ∃ a, answer = .ok a ∧ answer' = .ok a := by
  cases answer with
  | error error =>
    cases answer' with
    | error error' => exact .inl ⟨error, error', rfl, rfl, h⟩
    | ok => exact h.elim
  | ok a =>
    cases answer' with
    | error => exact h.elim
    | ok => exact .inr ⟨a, rfl, congrArg Except.ok (Eq.symm h)⟩

/-- Two invalid-data errors. -/
def BothInvalid (error error' : HubError) : Prop :=
  error.kind = .invalidMarketData ∧ error'.kind = .invalidMarketData

section Rows

variable {Symbol : Type} [DecidableEq Symbol] [ToString Symbol]

def conflictError : HubError :=
  ⟨.invalidMarketData, "conflicting daily bars for one identity"⟩

/-- What `_validated_bars` requires of a row on its own. -/
def parseRow (symbol : Symbol) (adjustment : Adjustment) :
    ProviderRecord Symbol → Except HubError (Date × DailyBar)
  | .other => .error ⟨.invalidMarketData, "provider returned a non-DailyBar record"⟩
  | .bar symbol' tradeDate adjustment' bar =>
    if symbol' ≠ symbol then
      .error ⟨.invalidMarketData,
        "provider returned bar for " ++ toString symbol' ++ ", requested " ++ toString symbol⟩
    else if adjustment' ≠ adjustment then
      .error ⟨.invalidMarketData, "provider returned a different adjustment mode"⟩
    else .ok (tradeDate, bar)

theorem validateBar_eq_step (symbol : Symbol) (adjustment : Adjustment) (unique : Bars)
    (record : ProviderRecord Symbol) :
    validateBar symbol adjustment unique record =
      Facts.step (parseRow symbol adjustment) conflictError unique record := by
  cases record with
  | other => rfl
  | bar symbol' tradeDate adjustment' bar =>
    unfold validateBar Facts.step parseRow
    dsimp only
    split
    · rfl
    · split <;> rfl

theorem validatedBars_eq_unique (symbol : Symbol) (records : List (ProviderRecord Symbol))
    (adjustment : Adjustment) :
    validatedBars symbol records adjustment =
      Facts.unique (parseRow symbol adjustment) conflictError records := by
  unfold validatedBars Facts.unique
  congr 1
  funext unique record
  exact validateBar_eq_step symbol adjustment unique record

theorem parseRow_eq_ok {symbol : Symbol} {adjustment : Adjustment}
    {record : ProviderRecord Symbol} {tradeDate : Date} {bar : DailyBar} :
    parseRow symbol adjustment record = .ok (tradeDate, bar) ↔
      record = .bar symbol tradeDate adjustment bar := by
  cases record with
  | other => simp [parseRow]
  | bar symbol' tradeDate' adjustment' bar' =>
    unfold parseRow
    dsimp only
    split
    · next hne =>
      simp [hne]
    · next heq =>
      rw [not_not] at heq
      split
      · next hne => simp [hne]
      · next heq' =>
        rw [not_not] at heq'
        simp [heq, heq']

theorem parseRow_invalid {symbol : Symbol} {adjustment : Adjustment}
    {record : ProviderRecord Symbol} {error : HubError}
    (h : parseRow symbol adjustment record = .error error) : error.kind = .invalidMarketData := by
  unfold parseRow at h
  split at h
  · cases h
    rfl
  · split at h
    · cases h
      rfl
    · split at h
      · cases h
        rfl
      · cases h

theorem validatedBars_invalid {symbol : Symbol} {records : List (ProviderRecord Symbol)}
    {adjustment : Adjustment} {error : HubError}
    (h : validatedBars symbol records adjustment = .error error) :
    error.kind = .invalidMarketData := by
  rw [validatedBars_eq_unique] at h
  rcases Facts.foldlM_eq_error h with rfl | ⟨record, -, hparse⟩
  · rfl
  · exact parseRow_invalid hparse

/-- The accepted bars are the rows. -/
theorem validatedBars_eq_ok {symbol : Symbol} {records : List (ProviderRecord Symbol)}
    {adjustment : Adjustment} {bars : Bars} :
    validatedBars symbol records adjustment = .ok bars ↔
      (∀ record ∈ records, ∃ tradeDate bar, record = .bar symbol tradeDate adjustment bar ∧
        bars.get? tradeDate = some bar) ∧
      ∀ tradeDate bar, bars.get? tradeDate = some bar →
        .bar symbol tradeDate adjustment bar ∈ records := by
  rw [validatedBars_eq_unique, Facts.unique_eq_ok]
  simp only [parseRow_eq_ok, exists_eq_right]

theorem validatedBars_sameRows {records records' : List (ProviderRecord Symbol)}
    (h : SameRows records records') (symbol : Symbol) (adjustment : Adjustment) :
    AlikeUpTo BothInvalid (validatedBars symbol records adjustment)
      (validatedBars symbol records' adjustment) := by
  have hok (bars : Bars) : validatedBars symbol records adjustment = .ok bars ↔
      validatedBars symbol records' adjustment = .ok bars := by
    rw [validatedBars_eq_unique, validatedBars_eq_unique]
    exact Facts.unique_congr h bars
  cases hbars : validatedBars symbol records adjustment with
  | ok bars =>
    rw [(hok bars).mp hbars]
    exact rfl
  | error error =>
    cases hbars' : validatedBars symbol records' adjustment with
    | ok bars => rw [(hok bars).mpr hbars'] at hbars; cases hbars
    | error error' => exact ⟨validatedBars_invalid hbars, validatedBars_invalid hbars'⟩

/-- Rows of the requested series can only be rejected for a conflict. -/
theorem validatedBars_ownRows {symbol : Symbol} {adjustment : Adjustment}
    {records records' : List (ProviderRecord Symbol)} (h : SameRows records records')
    (hown : OwnRows symbol adjustment records) :
    validatedBars symbol records adjustment = validatedBars symbol records' adjustment := by
  have hconflict {records : List (ProviderRecord Symbol)} (hown : OwnRows symbol adjustment records)
      {error : HubError} (herror : validatedBars symbol records adjustment = .error error) :
      error = conflictError := by
    rw [validatedBars_eq_unique] at herror
    rcases Facts.foldlM_eq_error herror with rfl | ⟨record, hrecord, hparse⟩
    · rfl
    · obtain ⟨tradeDate, bar, rfl⟩ := hown record hrecord
      rw [parseRow_eq_ok.mpr rfl] at hparse
      cases hparse
  have halike := validatedBars_sameRows h symbol adjustment
  cases hbars : validatedBars symbol records adjustment with
  | ok bars =>
    rw [hbars] at halike
    cases hbars' : validatedBars symbol records' adjustment with
    | ok bars' => rw [hbars'] at halike; exact congrArg _ halike
    | error error' => rw [hbars'] at halike; exact halike.elim
  | error error =>
    rw [hbars] at halike
    cases hbars' : validatedBars symbol records' adjustment with
    | ok bars' => rw [hbars'] at halike; exact halike.elim
    | error error' => rw [hconflict hown hbars, hconflict (h.ownRows hown) hbars']

theorem validatedBars_conflict (symbol : Symbol) (adjustment : Adjustment)
    {records : List (ProviderRecord Symbol)} (h : ProviderRecord.Conflict records) :
    ∃ error, validatedBars symbol records adjustment = .error error := by
  cases hbars : validatedBars symbol records adjustment with
  | error error => exact ⟨error, rfl⟩
  | ok bars =>
    obtain ⟨symbol', tradeDate, adjustment', bar, bar', hbar, hbar', hne⟩ := h
    have hrows := (validatedBars_eq_ok.mp hbars).1
    obtain ⟨_, _, heq, hget⟩ := hrows _ hbar
    obtain ⟨_, _, heq', hget'⟩ := hrows _ hbar'
    cases heq
    cases heq'
    exact absurd (Option.some.inj (hget.symm.trans hget')) hne

end Rows

/-! ## Two runs that get the same rows -/

/-- Two errors that are equal, or that both report invalid data. -/
def HubError.Alike (error error' : HubError) : Prop :=
  error = error' ∨ error.kind = .invalidMarketData ∧ error'.kind = .invalidMarketData

/-- Two answers to one call. -/
def AlikeAnswers {α : Type} (alike : α → α → Prop) : Except HubError α → Except HubError α → Prop
  | .ok a, .ok b => alike a b
  | .error error, .error error' => error = error'
  | _, _ => False

theorem AlikeAnswers.eq_or {α : Type} {alike : α → α → Prop} {answer answer' : Except HubError α}
    (h : AlikeAnswers alike answer answer') :
    (∃ error, answer = .error error ∧ answer' = .error error) ∨
      ∃ a b, answer = .ok a ∧ answer' = .ok b ∧ alike a b := by
  cases answer with
  | error error =>
    cases answer' with
    | error => exact .inl ⟨error, rfl, congrArg Except.error (Eq.symm h)⟩
    | ok => exact h.elim
  | ok a =>
    cases answer' with
    | error => exact h.elim
    | ok b => exact .inr ⟨a, b, rfl, rfl, h⟩

theorem AlikeAnswers.imp {α : Type} {alike alike' : α → α → Prop} {answer answer' : Except HubError α}
    (h : AlikeAnswers alike answer answer')
    (himp : ∀ a b, answer = .ok a → alike a b → alike' a b) : AlikeAnswers alike' answer answer' :=
  match answer, answer', h with
  | .ok a, .ok b, h => himp a b rfl h
  | .error _, .error _, h => h

/-- Two results that differ at most in the error. -/
def AlikeResults (P : HubError → HubError → Prop) (result result' : Option SyncItemResult) : Prop :=
  result = result' ∨ ∃ error error', P error error' ∧ result = some (.ofError error) ∧
    result' = some (.ofError error')

theorem AlikeResults.eq {result result' : Option SyncItemResult}
    (h : AlikeResults Eq result result') : result = result' := by
  rcases h with h | ⟨error, _, rfl, rfl, rfl⟩
  · exact h
  · rfl

/-- Results with different errors still have the same status, and their errors disappear in the
same updates. -/
theorem AlikeResults.map {P : HubError → HubError → Prop} {result result' : Option SyncItemResult}
    (h : AlikeResults P result result') {f : SyncItemResult → SyncItemResult}
    (hf : ∀ error error', f (.ofError error) = f (.ofError error')) : result.map f = result'.map f := by
  rcases h with rfl | ⟨error, error', -, rfl, rfl⟩
  · rfl
  · exact congrArg some (hf error error')

theorem AlikeResults.any_status {P : HubError → HubError → Prop}
    {result result' : Option SyncItemResult} (h : AlikeResults P result result')
    (status : SyncStatus) :
    result.any (·.status = status) = result'.any (·.status = status) := by
  rcases h with rfl | ⟨error, error', -, rfl, rfl⟩
  · rfl
  · rfl

/-- Two runs that differ at most in the errors they report. -/
structure SyncRun.Alike {Symbol δ R : Type} (P : HubError → HubError → Prop)
    (a b : SyncRun Symbol δ R) : Prop where
  db : a.db = b.db
  results (symbol : Symbol) : AlikeResults P (a.results symbol) (b.results symbol)
  revision : a.revisionBySymbol = b.revisionBySymbol
  normal : a.normalSymbols = b.normalSymbols
  pending : a.pending = b.pending

namespace SyncRun.Alike

variable {Symbol δ R : Type} {P : HubError → HubError → Prop} {a b : SyncRun Symbol δ R}

theorem refl (P : HubError → HubError → Prop) (a : SyncRun Symbol δ R) : Alike P a a :=
  ⟨rfl, fun _ => .inl rfl, rfl, rfl, rfl⟩

theorem foldl {ι : Type} {f g : SyncRun Symbol δ R → ι → SyncRun Symbol δ R} (l : List ι)
    (hfg : ∀ a b i, Alike P a b → Alike P (f a i) (g b i)) (h : Alike P a b) :
    Alike P (l.foldl f a) (l.foldl g b) := by
  induction l generalizing a b with
  | nil => exact h
  | cons i l ih => exact ih (hfg a b i h)

theorem withDb (h : Alike P a b) {db db' : HubDatabase Symbol δ R} (hdb : db = db') :
    Alike P { a with db } { b with db := db' } :=
  ⟨hdb, h.results, h.revision, h.normal, h.pending⟩

theorem good (h : Alike P a b) (symbols : List Symbol) : a.good symbols = b.good symbols := by
  unfold SyncRun.good
  congr 1
  funext symbol
  exact (h.results symbol).any_status .success

variable [DecidableEq Symbol]

theorem report (h : Alike P a b) (x : Symbol) (result : SyncItemResult) :
    Alike P (a.report x result) (b.report x result) where
  db := h.db
  results symbol := by
    by_cases hx : symbol = x
    · subst hx
      exact .inl (by simp [SyncRun.report])
    · simpa [SyncRun.report, hx] using h.results symbol
  revision := h.revision
  normal := h.normal
  pending := h.pending

theorem reportError (h : Alike P a b) (x : Symbol) {error error' : HubError} (hP : P error error') :
    Alike P (a.report x (.ofError error)) (b.report x (.ofError error')) where
  db := h.db
  results symbol := by
    by_cases hx : symbol = x
    · subst hx
      exact .inr ⟨error, error', hP, by simp [SyncRun.report], by simp [SyncRun.report]⟩
    · simpa [SyncRun.report, hx] using h.results symbol
  revision := h.revision
  normal := h.normal
  pending := h.pending

theorem hold (h : Alike P a b) (x : Symbol) (bars : Option Bars) :
    Alike P (a.hold x bars) (b.hold x bars) :=
  ⟨h.db, h.results, h.revision, h.normal, by simp only [SyncRun.hold, h.pending]⟩

theorem update (h : Alike P a b) (x : Symbol) {f : SyncItemResult → SyncItemResult}
    (hf : ∀ error error', f (.ofError error) = f (.ofError error')) :
    Alike P { a with results := Function.update a.results x ((a.results x).map f) }
      { b with results := Function.update b.results x ((b.results x).map f) } where
  db := h.db
  results symbol := by
    by_cases hx : symbol = x
    · subst hx
      simpa using .inl ((h.results symbol).map hf)
    · simpa [hx] using h.results symbol
  revision := h.revision
  normal := h.normal
  pending := h.pending

theorem reportPersisted (h : Alike P a b) (x : Symbol) (error : Option SyncError) :
    Alike P (a.reportPersisted x error) (b.reportPersisted x error) :=
  h.update x fun _ _ => rfl

theorem reportSuperseded (h : Alike P a b) (x : Symbol) :
    Alike P (a.reportSuperseded x) (b.reportSuperseded x) :=
  h.update x fun _ _ => rfl

theorem grouped (h : Alike P a b) (symbols : List Symbol) : a.grouped symbols = b.grouped symbols := by
  simp only [SyncRun.grouped, h.pending]

end SyncRun.Alike

section Runs

variable {Symbol δ R : Type} [DecidableEq Symbol] [DecidableEq R] [ToString Symbol]

/-- The rows of two answers come to the same bars, up to the error. -/
def AlikeRows (P : HubError → HubError → Prop) (adjustment : Adjustment) (symbol : Symbol)
    (records records' : List (ProviderRecord Symbol)) : Prop :=
  AlikeUpTo P (validatedBars symbol records adjustment) (validatedBars symbol records' adjustment)

def AlikeBatches (P : HubError → HubError → Prop) (adjustment : Adjustment)
    (bySymbol bySymbol' : ProviderBatch Symbol) : Prop :=
  ∀ symbol, Option.Rel (AlikeRows P adjustment symbol) (bySymbol symbol) (bySymbol' symbol)

theorem fetchWithInvalidSymbolIsolation_alike {P : HubError → HubError → Prop}
    {adjustment : Adjustment} {fetch fetch' : List Symbol → Except HubError (ProviderBatch Symbol)}
    (h : ∀ symbols, AlikeAnswers (AlikeBatches P adjustment) (fetch symbols) (fetch' symbols))
    (symbols : List Symbol) :
    AlikeAnswers (fun isolated isolated' => isolated.2 = isolated'.2 ∧
        List.Forall₂ (fun batch batch' => batch.1 = batch'.1 ∧
          AlikeBatches P adjustment batch.2 batch'.2) isolated.1 isolated'.1)
      (fetchWithInvalidSymbolIsolation fetch symbols)
      (fetchWithInvalidSymbolIsolation fetch' symbols) := by
  induction hn : symbols.length using Nat.strong_induction_on generalizing symbols with
  | _ n ih =>
  have hanswer := h symbols
  rw [fetchWithInvalidSymbolIsolation, fetchWithInvalidSymbolIsolation]
  cases hfetch : fetch symbols with
  | ok bySymbol =>
    rw [hfetch] at hanswer
    cases hfetch' : fetch' symbols with
    | error error' => rw [hfetch'] at hanswer; exact hanswer.elim
    | ok bySymbol' => rw [hfetch'] at hanswer; exact ⟨rfl, .cons ⟨rfl, hanswer⟩ .nil⟩
  | error error =>
    rw [hfetch] at hanswer
    cases hfetch' : fetch' symbols with
    | ok bySymbol' => rw [hfetch'] at hanswer; exact hanswer.elim
    | error error' =>
      rw [hfetch'] at hanswer
      cases hanswer
      dsimp only
      split
      · exact rfl
      · split
        · exact ⟨rfl, .nil⟩
        · have hleft := ih (symbols.take (symbols.length / 2)).length
            (by rw [List.length_take]; omega) _ rfl
          have hright := ih (symbols.drop (symbols.length / 2)).length
            (by rw [List.length_drop]; omega) _ rfl
          generalize fetchWithInvalidSymbolIsolation fetch (symbols.take _) = left,
            fetchWithInvalidSymbolIsolation fetch' (symbols.take _) = left',
            fetchWithInvalidSymbolIsolation fetch (symbols.drop _) = right,
            fetchWithInvalidSymbolIsolation fetch' (symbols.drop _) = right' at hleft hright
          match left, left', hleft with
          | .error _, .error _, hleft => exact hleft
          | .ok left, .ok left', hleft =>
            match right, right', hright with
            | .error _, .error _, hright => exact hright
            | .ok right, .ok right', hright =>
              refine ⟨?_, List.rel_append hleft.2 hright.2⟩
              rw [hleft.1, hright.1]

namespace DailyBarProvider

/-- Two answers with the same rows for every symbol. -/
def SameBatches (bySymbol bySymbol' : ProviderBatch Symbol) : Prop :=
  ∀ symbol, Option.Rel SameRows (bySymbol symbol) (bySymbol' symbol)

/-- Two providers whose answers have the same rows. -/
structure SameAnswers (p q : DailyBarProvider Symbol R) : Prop where
  single (symbol : Symbol) (start last : Date) (adjustment : Adjustment) :
    AlikeAnswers SameRows (p.getDailyBars symbol start last adjustment)
      (q.getDailyBars symbol start last adjustment)
  batch : Option.Rel (fun batchMethod batchMethod' => ∀ symbols adjustment count,
    AlikeAnswers SameBatches (batchMethod symbols adjustment count)
      (batchMethod' symbols adjustment count)) p.getDailyBarsBatch q.getDailyBarsBatch
  window : Option.Rel (fun windowMethod windowMethod' => ∀ symbols adjustment count last,
    AlikeAnswers SameBatches (windowMethod symbols adjustment count last)
      (windowMethod' symbols adjustment count last)) p.getDailyBarsWindow q.getDailyBarsWindow
  revisions : p.getAdjustmentRevision = q.getAdjustmentRevision
  authoritative : p.authoritativeHistory = q.authoritativeHistory

/-- What holds of every answer about a symbol. -/
structure Answers (p : DailyBarProvider Symbol R) (adjustment : Adjustment)
    (Q : Symbol → List (ProviderRecord Symbol) → Prop) : Prop where
  single (symbol : Symbol) (start last : Date) (records : List (ProviderRecord Symbol)) :
    p.getDailyBars symbol start last adjustment = .ok records → Q symbol records
  batch : ∀ batchMethod ∈ p.getDailyBarsBatch, ∀ symbols count bySymbol,
    batchMethod symbols adjustment count = .ok bySymbol →
    ∀ symbol, ∀ records ∈ bySymbol symbol, Q symbol records
  window : ∀ windowMethod ∈ p.getDailyBarsWindow, ∀ symbols count last bySymbol,
    windowMethod symbols adjustment count last = .ok bySymbol →
    ∀ symbol, ∀ records ∈ bySymbol symbol, Q symbol records

end DailyBarProvider

namespace SyncEnvironment

/-- Two situations that differ at most in the rows of the answers. -/
structure Alike (P : HubError → HubError → Prop) (request : SyncRequest)
    (A B : SyncEnvironment Symbol δ R) : Prop where
  batches : A.provider.getDailyBarsBatch.isSome = B.provider.getDailyBarsBatch.isSome
  revisions : A.provider.getAdjustmentRevision = B.provider.getAdjustmentRevision
  authoritative : A.provider.authoritativeHistory = B.provider.authoritativeHistory
  concurrent : A.concurrent = B.concurrent
  outage : A.outage = B.outage
  batch (count : ℤ) (symbols : List Symbol) : AlikeAnswers (AlikeBatches P request.adjustment)
    (A.fetchBatch request count symbols) (B.fetchBatch request count symbols)
  single (symbol : Symbol) (start last : Date) :
    AlikeAnswers (AlikeRows P request.adjustment symbol)
      (A.provider.getDailyBars symbol start last request.adjustment)
      (B.provider.getDailyBars symbol start last request.adjustment)

variable {P : HubError → HubError → Prop} {A B : SyncEnvironment Symbol δ R}
  {request : SyncRequest} {a b : SyncRun Symbol δ R}

omit [DecidableEq R] in
theorem Alike.before (h : Alike P request A B) : A.before = B.before := by
  funext step db symbol
  simp only [SyncEnvironment.before, h.concurrent]

omit [DecidableEq R] in
theorem Alike.beforeSymbol (h : Alike P request A B) : A.beforeSymbol = B.beforeSymbol := by
  funext step symbol db
  simp only [SyncEnvironment.beforeSymbol, h.concurrent]

omit [DecidableEq R] in
theorem Alike.sampleRevision (h : Alike P request A B) : A.sampleRevision = B.sampleRevision := by
  funext sample symbol
  simp only [SyncEnvironment.sampleRevision, h.revisions]

omit [DecidableEq R] in
theorem Alike.call_eq (h : Alike P request A B) (hubCall : HubCall Symbol) {α : Type}
    (outcome : Except HubError α) : A.call hubCall outcome = B.call hubCall outcome := by
  unfold call
  rw [h.outage]

theorem Alike.readStaleHistory (h : Alike P request A B) :
    A.readStaleHistory = B.readStaleHistory := by
  funext turn db symbol revision
  simp only [SyncEnvironment.readStaleHistory, h.outage]

theorem planRebuild_alike (h : Alike P request A B) (hP : ∀ error, P error error) (count : ℤ)
    (symbol : Symbol) (revision : R) (existing : Bars) :
    AlikeUpTo P (A.planRebuild request count symbol revision existing)
      (B.planRebuild request count symbol revision existing) := by
  have hbatch := h.batch (fullCount count existing) [symbol]
  have hcheck : A.checkRebuild request symbol revision existing =
      B.checkRebuild request symbol revision existing := by
    funext bars
    simp only [checkRebuild, h.authoritative, h.sampleRevision]
  rw [planRebuild_eq, planRebuild_eq, hcheck]
  split
  · exact hP _
  · generalize A.fetchBatch request (fullCount count existing) [symbol] = answer,
      B.fetchBatch request (fullCount count existing) [symbol] = answer' at hbatch
    obtain ⟨error, rfl, rfl⟩ | ⟨bySymbol, bySymbol', rfl, rfl, hbatch⟩ := hbatch.eq_or
    · exact hP error
    · rw [Except.ok_bind, Except.ok_bind]
      have hrows := hbatch symbol
      generalize bySymbol symbol = records, bySymbol' symbol = records' at hrows
      cases hrows with
      | none => exact hP _
      | @some records records' hrows =>
        unfold AlikeRows at hrows
        dsimp only
        generalize validatedBars symbol records request.adjustment = bars,
          validatedBars symbol records' request.adjustment = bars' at hrows
        obtain ⟨error, error', rfl, rfl, herror⟩ | ⟨bars, rfl, rfl⟩ := hrows.eq_or
        · exact herror
        · rw [Except.ok_bind]
          cases B.checkRebuild request symbol revision existing bars with
          | ok rebuild => exact rfl
          | error error => exact hP error

omit [DecidableEq R] in
theorem writeRebuild_alike (h : Alike P request A B) (hP : ∀ error, P error error)
    (generations : Symbol → Option ℤ) (turn : ℕ) (symbol : Symbol) (revision : R)
    (rebuild : RevisionRebuild) (hrun : SyncRun.Alike P a b) :
    SyncRun.Alike P (A.writeRebuild request generations turn symbol revision rebuild a)
      (B.writeRebuild request generations turn symbol revision rebuild b) := by
  unfold writeRebuild
  dsimp only
  rw [h.beforeSymbol, hrun.db]
  split
  · exact hrun.report _ _
  · rw [h.call_eq]
    split
    · exact (hrun.withDb rfl).report _ _
    · split
      · exact (hrun.withDb rfl).reportError symbol (hP _)
      · exact (hrun.withDb rfl).report _ _

theorem syncRevision_alike (h : Alike P request A B) (hP : ∀ error, P error error)
    (generations : Symbol → Option ℤ) (count : ℤ) (turn : ℕ) (symbol : Symbol)
    (hrun : SyncRun.Alike P a b) :
    SyncRun.Alike P (A.syncRevision request generations count turn a symbol)
      (B.syncRevision request generations count turn b symbol) := by
  unfold syncRevision
  rw [h.sampleRevision, h.readStaleHistory, h.beforeSymbol, hrun.db, hrun.revision]
  split
  · exact hrun.reportError symbol (hP _)
  · next revision _ =>
    have hrun' : SyncRun.Alike P
        { a with
          revisionBySymbol := Function.update b.revisionBySymbol symbol (some revision)
          db := B.beforeSymbol .read symbol b.db }
        { b with
          revisionBySymbol := Function.update b.revisionBySymbol symbol (some revision)
          db := B.beforeSymbol .read symbol b.db } :=
      ⟨rfl, hrun.results, rfl, hrun.normal, hrun.pending⟩
    dsimp only
    split
    · exact hrun'.reportError symbol (hP _)
    · exact ⟨rfl, hrun.results, rfl, congrArg (· ++ [symbol]) hrun.normal, hrun.pending⟩
    · next existing _ =>
      have hplan := planRebuild_alike h hP count symbol revision existing
      generalize A.planRebuild request count symbol revision existing = plan,
        B.planRebuild request count symbol revision existing = plan' at hplan
      match plan, plan', hplan with
      | .error error, .error error', hplan => exact hrun'.reportError symbol hplan
      | .ok rebuild, .ok _, rfl =>
        exact writeRebuild_alike h hP generations turn symbol revision rebuild hrun'

omit [DecidableEq R] in
theorem takeFetched_alike {bySymbol bySymbol' : ProviderBatch Symbol}
    (h : AlikeBatches P request.adjustment bySymbol bySymbol') (hP : ∀ error, P error error)
    (a b : SyncRun Symbol δ R) (symbol : Symbol) (hrun : SyncRun.Alike P a b) :
    SyncRun.Alike P (takeFetched request bySymbol a symbol)
      (takeFetched request bySymbol' b symbol) := by
  have hrows := h symbol
  unfold takeFetched
  generalize bySymbol symbol = records, bySymbol' symbol = records' at hrows
  cases hrows with
  | none => exact hrun.reportError symbol (hP _)
  | @some records records' hrows =>
    dsimp only
    unfold AlikeRows at hrows
    generalize validatedBars symbol records request.adjustment = bars,
      validatedBars symbol records' request.adjustment = bars' at hrows
    obtain ⟨error, error', rfl, rfl, herror⟩ | ⟨bars, rfl, rfl⟩ := hrows.eq_or
    · exact hrun.reportError symbol herror
    · exact (hrun.hold symbol _).report symbol _

omit [DecidableEq R] in
theorem syncChunk_alike (h : Alike P request A B) (hP : ∀ error, P error error) (count : ℤ)
    (a b : SyncRun Symbol δ R) (chunk : List Symbol) (hrun : SyncRun.Alike P a b) :
    SyncRun.Alike P (A.syncChunk request count a chunk) (B.syncChunk request count b chunk) := by
  have hisolated := fetchWithInvalidSymbolIsolation_alike (h.batch count) chunk
  unfold syncChunk
  generalize fetchWithInvalidSymbolIsolation (A.fetchBatch request count) chunk = isolated,
    fetchWithInvalidSymbolIsolation (B.fetchBatch request count) chunk = isolated' at hisolated
  match isolated, isolated', hisolated with
  | .error error, .error _, rfl =>
    exact hrun.foldl chunk fun a b symbol hrun => hrun.reportError symbol (hP error)
  | .ok (batches, errors), .ok (batches', errors'), ⟨heq, hbatches⟩ =>
    dsimp only at heq hbatches ⊢
    subst heq
    have herrors := hrun.foldl errors
      (f := fun run error => run.report error.1 (.ofError error.2))
      (g := fun run error => run.report error.1 (.ofError error.2))
      fun a b error hrun => hrun.report _ _
    generalize errors.foldl _ a = a₀, errors.foldl _ b = b₀ at herrors
    clear hrun
    induction hbatches generalizing a₀ b₀ with
    | nil => exact herrors
    | @cons batch batch' batches batches' hbatch hbatches ih =>
      obtain ⟨symbols, bySymbol⟩ := batch
      obtain ⟨symbols', bySymbol'⟩ := batch'
      obtain ⟨rfl, hbatch⟩ := hbatch
      exact ih _ _ (herrors.foldl symbols (takeFetched_alike hbatch hP))

omit [DecidableEq R] in
theorem syncSingle_alike (h : Alike P request A B) (hP : ∀ error, P error error) (start last : Date)
    (a b : SyncRun Symbol δ R) (symbol : Symbol) (hrun : SyncRun.Alike P a b) :
    SyncRun.Alike P (A.syncSingle request start last a symbol)
      (B.syncSingle request start last b symbol) := by
  have hanswer := h.single symbol start last
  unfold syncSingle
  generalize A.provider.getDailyBars symbol start last request.adjustment = answer,
    B.provider.getDailyBars symbol start last request.adjustment = answer' at hanswer
  obtain ⟨error, rfl, rfl⟩ | ⟨records, records', rfl, rfl, hrows⟩ := hanswer.eq_or
  · exact hrun.reportError symbol (hP error)
  · simp only [Except.ok_bind]
    change AlikeUpTo P _ _ at hrows
    generalize validatedBars symbol records request.adjustment = bars,
      validatedBars symbol records' request.adjustment = bars' at hrows
    obtain ⟨error, error', rfl, rfl, herror⟩ | ⟨bars, rfl, rfl⟩ := hrows.eq_or
    · exact hrun.reportError symbol herror
    · exact (hrun.hold symbol _).report symbol _

theorem recheckRevision_alike (h : Alike P request A B) (hP : ∀ error, P error error)
    (a b : SyncRun Symbol δ R) (symbol : Symbol) (hrun : SyncRun.Alike P a b) :
    SyncRun.Alike P (A.recheckRevision a symbol) (B.recheckRevision b symbol) := by
  unfold recheckRevision
  rw [h.sampleRevision, hrun.pending, hrun.revision]
  split
  · split
    · exact (hrun.hold symbol none).reportError symbol (hP _)
    · split
      · exact (hrun.hold symbol none).reportError symbol (hP _)
      · exact hrun
  · exact hrun

variable {service : DailyBarSyncService}

variable (service) in
theorem fetch_alike (h : Alike P request A B) (hP : ∀ error, P error error)
    (generations : Symbol → Option ℤ) (count : ℤ) (symbols : List Symbol)
    (hrun : SyncRun.Alike P a b) :
    AlikeAnswers (SyncRun.Alike P) (A.fetch service request generations count symbols a)
      (B.fetch service request generations count symbols b) := by
  have hcompared : SyncRun.Alike P
      (A.compareRevisions service request generations count symbols a)
      (B.compareRevisions service request generations count symbols b) := by
    unfold compareRevisions tracksRevisions
    rw [h.batches, h.revisions]
    split
    · exact hrun.foldl symbols.zipIdx fun a b next =>
        syncRevision_alike h hP generations count next.2 next.1
    · exact ⟨hrun.db, hrun.results, hrun.revision, rfl, hrun.pending⟩
  have hnormal : AlikeAnswers (SyncRun.Alike P)
      (A.fetchNormal service request count
        (A.compareRevisions service request generations count symbols a))
      (B.fetchNormal service request count
        (B.compareRevisions service request generations count symbols b)) := by
    unfold fetchNormal
    rw [h.batches, hcompared.normal]
    split
    · exact hcompared.foldl _ (syncChunk_alike h hP count)
    · split
      · next start last _ _ => exact hcompared.foldl _ (syncSingle_alike h hP start last)
      · exact rfl
  unfold fetch
  generalize A.fetchNormal service request count _ = fetched,
    B.fetchNormal service request count _ = fetched' at hnormal
  match fetched, fetched', hnormal with
  | .error _, .error _, heq => exact heq
  | .ok a, .ok b, hrun => exact SyncRun.Alike.foldl symbols (recheckRevision_alike h hP) hrun

theorem persistRecords_alike (h : Alike P request A B) (hubCall : HubCall Symbol)
    (generations : Symbol → Option ℤ) (hrun : SyncRun.Alike P a b) (symbols : List Symbol) :
    A.persistRecords request hubCall generations a symbols =
      B.persistRecords request hubCall generations b symbols := by
  simp only [persistRecords, h.call_eq, hrun.db, hrun.pending, hrun.revision]

theorem persistSymbol_alike (h : Alike P request A B) (generations : Symbol → Option ℤ)
    (a b : SyncRun Symbol δ R) (symbol : Symbol) (hrun : SyncRun.Alike P a b) :
    SyncRun.Alike P (A.persistSymbol request generations a symbol)
      (B.persistSymbol request generations b symbol) := by
  unfold persistSymbol
  rw [persistRecords_alike h (.retry symbol) generations hrun]
  split
  · exact (hrun.withDb rfl).reportPersisted symbol none
  · exact hrun.reportPersisted symbol _

theorem persist_alike (h : Alike P request A B) (generations : Symbol → Option ℤ)
    (symbols : List Symbol) (hrun : SyncRun.Alike P a b) :
    AlikeAnswers (SyncRun.Alike P) (A.persist request generations symbols a)
      (B.persist request generations symbols b) := by
  have hbefore : SyncRun.Alike P { a with db := A.before .persist a.db }
      { b with db := B.before .persist b.db } :=
    hrun.withDb (by rw [h.before, hrun.db])
  unfold persist
  rw [hrun.grouped symbols]
  dsimp only
  split
  · exact hbefore
  · rw [persistRecords_alike h (.upsert _) generations hbefore]
    split
    · next db _ =>
      exact (hbefore.withDb (rfl : db = db)).foldl _ fun a b symbol hrun =>
        hrun.reportPersisted symbol none
    · split
      · exact rfl
      · exact hbefore.foldl _ (persistSymbol_alike h generations)

omit [DecidableEq R] in
theorem complete_alike (h : Alike P request A B) (generations : Symbol → Option ℤ)
    (symbols : List Symbol) (hrun : SyncRun.Alike P a b) :
    AlikeAnswers (SyncRun.Alike P) (A.complete request generations symbols a)
      (B.complete request generations symbols b) := by
  have hbefore : SyncRun.Alike P { a with db := A.before .complete a.db }
      { b with db := B.before .complete b.db } :=
    hrun.withDb (by rw [h.before, hrun.db])
  unfold complete
  rw [hrun.good symbols, h.before, hrun.db]
  dsimp only
  rw [h.call_eq]
  split
  · exact hrun.withDb rfl
  · split
    · exact rfl
    · rw [h.before, hrun.db] at hbefore
      exact hbefore.foldl _ fun a b symbol hrun => hrun.reportSuperseded symbol

variable (service) in
theorem syncReserved_alike (h : Alike P request A B) (hP : ∀ error, P error error)
    (generations : Symbol → Option ℤ) (count : ℤ) (symbols : List Symbol)
    (hrun : SyncRun.Alike P a b) :
    AlikeAnswers (SyncRun.Alike P) (A.syncReserved service request generations count symbols a)
      (B.syncReserved service request generations count symbols b) := by
  have hfetch := fetch_alike service h hP generations count symbols hrun
  unfold syncReserved
  generalize A.fetch service request generations count symbols a = fetched,
    B.fetch service request generations count symbols b = fetched' at hfetch
  match fetched, fetched', hfetch with
  | .error _, .error _, heq => exact heq
  | .ok a, .ok b, hrun => exact persist_alike h generations symbols hrun

variable (service) in
/-- Two runs over the same symbols. -/
theorem sync_alike {Raw : Type} (h : Alike P request A B) (hP : ∀ error, P error error)
    (normalizeSymbol : Raw → Except HubError Symbol) (bestEffortSymbol : Raw → Symbol)
    (symbols : List Raw) (db : HubDatabase Symbol δ R) :
    AlikeAnswers (SyncRun.Alike P)
      (A.sync service request normalizeSymbol bestEffortSymbol symbols db)
      (B.sync service request normalizeSymbol bestEffortSymbol symbols db) := by
  unfold sync syncCanonical
  rw [h.outage, h.before]
  cases request.count with
  | error error => exact rfl
  | ok count =>
    cases B.outage .reserve with
    | some error => exact rfl
    | none =>
      generalize canonicalizeSymbols normalizeSymbol bestEffortSymbol symbols = canonical
      dsimp only
      generalize (B.before .reserve db).reserveSync canonical.1 request.adjustment = reserved
      have hreserved := syncReserved_alike service h hP reserved.1 count canonical.1
        (.refl P { db := reserved.2, results := canonical.2, revisionBySymbol := fun _ => none,
                   normalSymbols := [], pending := fun _ => none })
      generalize A.syncReserved service request reserved.1 count canonical.1 _ = result,
        B.syncReserved service request reserved.1 count canonical.1 _ = result' at hreserved ⊢
      match result, result', hreserved with
      | .error _, .error _, heq => exact heq
      | .ok a, .ok b, hrun => exact complete_alike h reserved.1 canonical.1 hrun

/-! ## Answers with the same rows -/

variable {Q : Symbol → List (ProviderRecord Symbol) → Prop}

omit [DecidableEq Symbol] [DecidableEq R] [ToString Symbol] in
theorem fetchBatch_answers (h : A.provider.Answers request.adjustment Q) {count : ℤ}
    {symbols : List Symbol} {bySymbol : ProviderBatch Symbol}
    (hfetch : A.fetchBatch request count symbols = .ok bySymbol) {symbol : Symbol}
    {records : List (ProviderRecord Symbol)} (hrecords : bySymbol symbol = some records) :
    Q symbol records := by
  unfold fetchBatch at hfetch
  split at hfetch
  · next windowMethod hmethod =>
    exact h.window windowMethod hmethod _ _ _ _ hfetch symbol records hrecords
  · next batchMethod _ hmethod =>
    exact h.batch batchMethod hmethod _ _ _ hfetch symbol records hrecords
  · cases hfetch

omit [DecidableEq R] in
theorem alike_of_sameAnswers {provider' : DailyBarProvider Symbol R}
    (h : A.provider.SameAnswers provider') (hanswers : A.provider.Answers request.adjustment Q)
    (hrows : ∀ symbol records records', Q symbol records → SameRows records records' →
      AlikeRows P request.adjustment symbol records records') :
    Alike P request A { A with provider := provider' } where
  batches := by
    have hbatch := h.batch
    dsimp only
    generalize A.provider.getDailyBarsBatch = batchMethod,
      provider'.getDailyBarsBatch = batchMethod' at hbatch
    cases hbatch <;> rfl
  revisions := h.revisions
  authoritative := h.authoritative
  concurrent := rfl
  outage := rfl
  batch count symbols := by
    have hsame : AlikeAnswers DailyBarProvider.SameBatches (A.fetchBatch request count symbols)
        (SyncEnvironment.fetchBatch { A with provider := provider' } request count symbols) := by
      have hbatch := h.batch
      have hwindow := h.window
      unfold fetchBatch
      dsimp only
      generalize A.provider.getDailyBarsBatch = batchMethod,
        provider'.getDailyBarsBatch = batchMethod', A.provider.getDailyBarsWindow = windowMethod,
        provider'.getDailyBarsWindow = windowMethod' at hbatch hwindow
      cases hwindow with
      | some hwindow => exact hwindow _ _ _ _
      | none =>
        cases hbatch with
        | some hbatch => exact hbatch _ _ _
        | none => exact rfl
    refine hsame.imp fun bySymbol bySymbol' hfetch hsame symbol => ?_
    have hrel := hsame symbol
    cases hrecords : bySymbol symbol with
    | none =>
      rw [hrecords] at hrel
      generalize bySymbol' symbol = records' at hrel
      cases hrel
      exact .none
    | some records =>
      rw [hrecords] at hrel
      generalize bySymbol' symbol = records' at hrel
      cases hrel with
      | some hrel =>
        exact .some (hrows symbol _ _ (fetchBatch_answers hanswers hfetch hrecords) hrel)
  single symbol start last :=
    (h.single symbol start last request.adjustment).imp fun records records' hfetch hsame =>
      hrows symbol _ _ (hanswers.single symbol start last records hfetch) hsame

omit [DecidableEq R] in
theorem alike_of_rows {provider' : DailyBarProvider Symbol R}
    (h : A.provider.SameAnswers provider') (request : SyncRequest) :
    Alike HubError.Alike request A { A with provider := provider' } := by
  refine alike_of_sameAnswers (Q := fun _ _ => True) h ⟨?_, ?_, ?_⟩ ?_
  · exact fun _ _ _ _ _ => trivial
  · exact fun _ _ _ _ _ _ _ _ _ => trivial
  · exact fun _ _ _ _ _ _ _ _ _ _ => trivial
  · intro symbol records records' _ hrows
    have hsame := validatedBars_sameRows hrows symbol request.adjustment
    unfold AlikeRows
    generalize validatedBars symbol records request.adjustment = bars,
      validatedBars symbol records' request.adjustment = bars' at hsame
    match bars, bars', hsame with
    | .ok _, .ok _, heq => exact heq
    | .error _, .error _, hinvalid => exact .inr hinvalid

omit [DecidableEq R] in
theorem alike_of_ownRows {provider' : DailyBarProvider Symbol R}
    (h : A.provider.SameAnswers provider')
    (hown : A.provider.Answers request.adjustment (OwnRows · request.adjustment)) :
    Alike Eq request A { A with provider := provider' } := by
  refine alike_of_sameAnswers h hown fun symbol records records' hown hrows => ?_
  unfold AlikeRows
  rw [validatedBars_ownRows hrows hown]
  cases validatedBars symbol records' request.adjustment with
  | ok bars => exact rfl
  | error error => exact rfl

/-! ## A symbol whose rows conflict -/

omit [DecidableEq Symbol] [ToString Symbol] in
theorem fetchWithInvalidSymbolIsolation_covers
    {fetch : List Symbol → Except HubError (ProviderBatch Symbol)} {symbols : List Symbol}
    {batches : List (List Symbol × ProviderBatch Symbol)} {errors : List (Symbol × HubError)}
    (h : fetchWithInvalidSymbolIsolation fetch symbols = .ok (batches, errors)) :
    (∀ batch ∈ batches, fetch batch.1 = .ok batch.2) ∧
      ∀ y, y ∈ symbols ↔ (∃ batch ∈ batches, y ∈ batch.1) ∨ ∃ error ∈ errors, error.1 = y := by
  induction hn : symbols.length using Nat.strong_induction_on generalizing symbols batches errors with
  | _ n ih =>
  rw [fetchWithInvalidSymbolIsolation] at h
  cases hfetch : fetch symbols with
  | ok bySymbol =>
    rw [hfetch] at h
    cases h
    refine ⟨fun batch hbatch => ?_, fun y => ?_⟩
    · cases List.mem_singleton.mp hbatch
      exact hfetch
    · simp
  | error error =>
    rw [hfetch] at h
    dsimp only at h
    split at h
    · cases h
    · split at h
      · cases h
        refine ⟨nofun, fun y => ?_⟩
        simp
      · obtain ⟨left, hleft, h⟩ := Except.bind_eq_ok.mp h
        obtain ⟨right, hright, h⟩ := Except.bind_eq_ok.mp h
        cases h
        obtain ⟨hfetched, hcovers⟩ := ih (symbols.take (symbols.length / 2)).length
          (by rw [List.length_take]; omega) hleft rfl
        obtain ⟨hfetched', hcovers'⟩ := ih (symbols.drop (symbols.length / 2)).length
          (by rw [List.length_drop]; omega) hright rfl
        refine ⟨fun batch hbatch => ?_, fun y => ?_⟩
        · exact (List.mem_append.mp hbatch).elim (hfetched batch) (hfetched' batch)
        · rw [← List.take_append_drop (symbols.length / 2) symbols, List.mem_append, hcovers,
            hcovers']
          simp only [List.mem_append, or_and_right, exists_or]
          exact or_or_or_comm

/-- The stored bars of a security. -/
def storedBars (row : Option (SecuritySeries δ R)) : Option (Adjustment → Bars) :=
  row.map fun series adjustment => (series adjustment).bars

/-- The bars of a symbol are as before, there are none to persist, and it is not reported as
synchronized. -/
structure Rejects (x : Symbol) (stored : Option (Adjustment → Bars)) (run : SyncRun Symbol δ R) :
    Prop where
  stored : storedBars (run.db x) = stored
  pending : run.pending x = none
  failed : ∀ result ∈ run.results x, result.status = .failed

variable {x : Symbol} {stored : Option (Adjustment → Bars)}

omit [DecidableEq Symbol] [DecidableEq R] [ToString Symbol] in
theorem Rejects.of_agree (h : Rejects x stored b) (hrun : SyncRun.AgreeOn x a b) :
    Rejects x stored a :=
  ⟨by rw [hrun.db, h.stored], by rw [hrun.pending, h.pending], by rw [hrun.results]; exact h.failed⟩

omit [DecidableEq R] [ToString Symbol] in
theorem Rejects.report (h : Rejects x stored a) (error : HubError) :
    Rejects x stored (a.report x (.ofError error)) := by
  refine ⟨h.stored, h.pending, fun result hresult => ?_⟩
  simp only [SyncRun.report, Function.update_self] at hresult
  cases hresult
  rfl

/-- The symbol is on its way to the batches, or it has a result. -/
def Settled (x : Symbol) (run : SyncRun Symbol δ R) : Prop :=
  x ∈ run.normalSymbols ∨ (run.results x).isSome

omit [DecidableEq Symbol] [DecidableEq R] [ToString Symbol] in
theorem Settled.of_agree (h : Settled x b) (hrun : SyncRun.AgreeOn x a b) : Settled x a := by
  unfold Settled
  rw [hrun.normal, hrun.results]
  exact h

omit [DecidableEq R] [ToString Symbol] in
theorem settled_report (a : SyncRun Symbol δ R) (result : SyncItemResult) :
    ((a.report x result).results x).isSome := by
  simp [SyncRun.report]

omit [DecidableEq Symbol] [DecidableEq R] [ToString Symbol] in
/-- A loop in which no iteration touches the symbol. -/
theorem foldl_frame {ι : Type} {f : SyncRun Symbol δ R → ι → SyncRun Symbol δ R} {l : List ι}
    (hframe : ∀ i ∈ l, ∀ a, SyncRun.AgreeOn x (f a i) a) (a : SyncRun Symbol δ R) :
    SyncRun.AgreeOn x (l.foldl f a) a := by
  induction l generalizing a with
  | nil => exact .refl x a
  | cons i l ih =>
    exact (ih (fun j hj => hframe j (List.mem_cons_of_mem _ hj)) _).trans
      (hframe i List.mem_cons_self a)

omit [DecidableEq R] in
theorem takeFetched_foldl_frame {batch : List Symbol} (hx : x ∉ batch)
    (bySymbol : ProviderBatch Symbol) (a : SyncRun Symbol δ R) :
    SyncRun.AgreeOn x (batch.foldl (takeFetched request bySymbol) a) a :=
  foldl_frame (fun _ hy a => takeFetched_frame (ne_of_mem_of_not_mem hy hx) bySymbol a) a

omit [DecidableEq Symbol] [DecidableEq R] [ToString Symbol] in
/-- A loop in which the symbol is settled by each iteration that touches it. -/
theorem foldl_touch {ι : Type} {f : SyncRun Symbol δ R → ι → SyncRun Symbol δ R}
    {I G : SyncRun Symbol δ R → Prop} (touches : ι → Prop)
    (hI : ∀ a b, SyncRun.AgreeOn x a b → I b → I a) (hG : ∀ a b, SyncRun.AgreeOn x a b → G b → G a)
    {l : List ι} (hframe : ∀ i ∈ l, ¬ touches i → ∀ a, SyncRun.AgreeOn x (f a i) a)
    (htouch : ∀ i ∈ l, touches i → ∀ a, I a → I (f a i) ∧ G (f a i)) (ha : I a) :
    I (l.foldl f a) ∧ ((∃ i ∈ l, touches i) ∨ G a → G (l.foldl f a)) := by
  induction l generalizing a with
  | nil => exact ⟨ha, fun h => h.resolve_left fun ⟨i, hi, _⟩ => absurd hi List.not_mem_nil⟩
  | cons i l ih =>
    have ih := fun {a} => @ih a (fun j hj => hframe j (List.mem_cons_of_mem _ hj))
      (fun j hj => htouch j (List.mem_cons_of_mem _ hj))
    by_cases hi : touches i
    · obtain ⟨hinv, hgoal⟩ := htouch i List.mem_cons_self hi a ha
      exact ⟨(ih hinv).1, fun _ => (ih hinv).2 (.inr hgoal)⟩
    · have hagree := hframe i List.mem_cons_self hi a
      obtain ⟨hinv, hgoal⟩ := ih (hI _ _ hagree ha)
      refine ⟨hinv, fun h => hgoal ?_⟩
      rcases h with ⟨j, hj, htouches⟩ | hga
      · rcases List.mem_cons.mp hj with rfl | hj
        · exact absurd htouches hi
        · exact .inl ⟨j, hj, htouches⟩
      · exact .inr (hG _ _ hagree hga)

/-- The provider has nothing about the symbol but rows that conflict. -/
def Conflicts (A : SyncEnvironment Symbol δ R) (request : SyncRequest) (x : Symbol) : Prop :=
  A.provider.Answers request.adjustment fun symbol records =>
    symbol = x → ProviderRecord.Conflict records

theorem planRebuild_conflicts (h : A.Conflicts request x) (count : ℤ) (revision : R)
    (existing : Bars) :
    ∃ error, A.planRebuild request count x revision existing = .error error := by
  rw [planRebuild_eq]
  split
  · exact ⟨_, rfl⟩
  · cases hfetch : A.fetchBatch request (fullCount count existing) [x] with
    | error error => exact ⟨error, rfl⟩
    | ok bySymbol =>
      rw [Except.ok_bind]
      cases hrecords : bySymbol x with
      | none => exact ⟨_, rfl⟩
      | some records =>
        obtain ⟨error, herror⟩ := validatedBars_conflict x request.adjustment (fetchBatch_answers h hfetch hrecords rfl)
        exact ⟨error, by dsimp only; rw [herror]; rfl⟩

variable (request) in
omit [DecidableEq R] in
theorem takeFetched_conflicts {bySymbol : ProviderBatch Symbol}
    (h : ∀ records ∈ bySymbol x, ProviderRecord.Conflict records) (a : SyncRun Symbol δ R) :
    ∃ error, takeFetched request bySymbol a x = a.report x (.ofError error) := by
  unfold takeFetched
  cases hrecords : bySymbol x with
  | none => exact ⟨_, rfl⟩
  | some records =>
    obtain ⟨error, herror⟩ := validatedBars_conflict x request.adjustment (h records hrecords)
    dsimp only
    rw [herror]
    exact ⟨error, rfl⟩

omit [DecidableEq R] in
theorem syncSingle_conflicts (h : A.Conflicts request x) (start last : Date)
    (a : SyncRun Symbol δ R) :
    ∃ error, A.syncSingle request start last a x = a.report x (.ofError error) := by
  unfold syncSingle
  cases hfetch : A.provider.getDailyBars x start last request.adjustment with
  | error error => exact ⟨error, rfl⟩
  | ok records =>
    obtain ⟨error, herror⟩ := validatedBars_conflict x request.adjustment (h.single x start last records hfetch rfl)
    simp only [Except.ok_bind, herror]
    exact ⟨error, rfl⟩

omit [DecidableEq R] in
/-- A chunk leaves the other symbols alone, whatever the provider answers. -/
theorem syncChunk_frame (count : ℤ) (a : SyncRun Symbol δ R) {chunk : List Symbol}
    (hx : x ∉ chunk) : SyncRun.AgreeOn x (A.syncChunk request count a chunk) a := by
  unfold syncChunk
  split
  · exact foldl_frame (fun y hy a => .report_of_ne (ne_of_mem_of_not_mem hy hx) a _) a
  · next batches errors hisolated =>
    have hcovers := (fetchWithInvalidSymbolIsolation_covers hisolated).2 x
    refine (foldl_frame (fun batch hbatch a => ?_) _).trans
      (foldl_frame (fun error herror a => ?_) a)
    · refine takeFetched_foldl_frame (fun hxb => ?_) batch.2 a
      exact hx (hcovers.mpr (.inl ⟨batch, hbatch, hxb⟩))
    · refine .report_of_ne (fun heq => ?_) a _
      exact hx (hcovers.mpr (.inr ⟨error, herror, heq⟩))

omit [DecidableEq R] in
theorem syncChunk_conflicts (h : A.Conflicts request x) (count : ℤ) {chunk : List Symbol}
    (hx : x ∈ chunk) (ha : Rejects x stored a) :
    Rejects x stored (A.syncChunk request count a chunk) ∧
      ((A.syncChunk request count a chunk).results x).isSome := by
  have htouch (a : SyncRun Symbol δ R) (error : HubError) (ha : Rejects x stored a) :
      Rejects x stored (a.report x (.ofError error)) ∧
        ((a.report x (.ofError error)).results x).isSome :=
    ⟨ha.report error, settled_report a _⟩
  have hI : ∀ a b : SyncRun Symbol δ R, SyncRun.AgreeOn x a b → Rejects x stored b →
      Rejects x stored a := fun a b hagree hb => hb.of_agree hagree
  have hG : ∀ a b : SyncRun Symbol δ R, SyncRun.AgreeOn x a b → (b.results x).isSome →
      (a.results x).isSome := fun a b hagree hb => by rw [hagree.results]; exact hb
  unfold syncChunk
  split
  · next error _ =>
    obtain ⟨hrejects, hreported⟩ := foldl_touch (· = x) hI hG (l := chunk)
      (fun y _ hy a => .report_of_ne hy a (.ofError error))
      (fun y _ hy a ha => hy ▸ htouch a error ha) ha
    exact ⟨hrejects, hreported (.inl ⟨x, hx, rfl⟩)⟩
  · next batches errors hisolated =>
    obtain ⟨hanswers, hcovers⟩ := fetchWithInvalidSymbolIsolation_covers hisolated
    obtain ⟨hrejects, hreported⟩ := foldl_touch (fun error => error.1 = x) hI hG (l := errors)
      (f := fun run error => run.report error.1 (.ofError error.2))
      (fun error _ hne a => .report_of_ne hne a _)
      (fun error _ heq a ha => heq ▸ htouch a error.2 ha) ha
    have hbatch (batch) (hbatch : batch ∈ batches) (a : SyncRun Symbol δ R)
        (ha : Rejects x stored a) :
        Rejects x stored (batch.1.foldl (takeFetched request batch.2) a) ∧
          ((∃ y ∈ batch.1, y = x) ∨ (a.results x).isSome →
            ((batch.1.foldl (takeFetched request batch.2) a).results x).isSome) := by
      refine foldl_touch (· = x) hI hG (fun y _ hy a => takeFetched_frame hy _ a) ?_ ha
      rintro y - rfl a ha
      obtain ⟨error, heq⟩ := takeFetched_conflicts request (x := y)
        (fun records hrecords => fetchBatch_answers h (hanswers batch hbatch) hrecords rfl) a
      rw [heq]
      exact htouch a error ha
    obtain ⟨hrejects, hreported'⟩ := foldl_touch (fun batch => x ∈ batch.1) hI hG (l := batches)
      (f := fun run batch => batch.1.foldl (takeFetched request batch.2) run)
      (fun batch _ hx a => takeFetched_foldl_frame hx batch.2 a)
      (fun batch hmem htouches a ha => by
        obtain ⟨hrejects, hreported⟩ := hbatch batch hmem a ha
        exact ⟨hrejects, hreported (.inl ⟨x, htouches, rfl⟩)⟩) hrejects
    refine ⟨hrejects, hreported' ?_⟩
    rcases (hcovers x).mp hx with hbatch | herror
    · exact .inl hbatch
    · exact .inr (hreported (.inl herror))

theorem syncRevision_conflicts (h : A.Conflicts request x) (generations : Symbol → Option ℤ)
    (count : ℤ) (turn : ℕ)
    (hkeeps : ∀ step row, storedBars (A.concurrent step x row) = storedBars row)
    (a : SyncRun Symbol δ R) (ha : Rejects x stored a) :
    Rejects x stored (A.syncRevision request generations count turn a x) ∧
      Settled x (A.syncRevision request generations count turn a x) := by
  unfold syncRevision
  split
  · exact ⟨ha.report _, .inr (settled_report a _)⟩
  · next revision _ =>
    have hread : Rejects x stored { a with
        revisionBySymbol := Function.update a.revisionBySymbol x (some revision)
        db := A.beforeSymbol .read x a.db } := by
      refine ⟨?_, ha.pending, ha.failed⟩
      simp only [beforeSymbol, Function.update_self, hkeeps]
      exact ha.stored
    dsimp only
    split
    · exact ⟨hread.report _, .inr (settled_report _ _)⟩
    · exact ⟨⟨hread.stored, hread.pending, hread.failed⟩,
        .inl (List.mem_append_right _ List.mem_cons_self)⟩
    · next existing _ =>
      obtain ⟨error, herror⟩ := A.planRebuild_conflicts h count revision existing
      rw [herror]
      exact ⟨hread.report _, .inr (settled_report _ _)⟩

theorem fetch_conflicts (h : A.Conflicts request x) (generations : Symbol → Option ℤ) (count : ℤ)
    (hkeeps : ∀ step row, storedBars (A.concurrent step x row) = storedBars row)
    {symbols : List Symbol} (hx : x ∈ symbols) (ha : Rejects x stored a)
    (hfetch : A.fetch service request generations count symbols a = .ok b) :
    Rejects x stored b ∧ (b.results x).isSome := by
  have hI : ∀ a b : SyncRun Symbol δ R, SyncRun.AgreeOn x a b → Rejects x stored b →
      Rejects x stored a := fun a b hagree hb => hb.of_agree hagree
  have hG : ∀ a b : SyncRun Symbol δ R, SyncRun.AgreeOn x a b → (b.results x).isSome →
      (a.results x).isSome := fun a b hagree hb => by rw [hagree.results]; exact hb
  have hcompared : Rejects x stored
      (A.compareRevisions service request generations count symbols a) ∧
      Settled x (A.compareRevisions service request generations count symbols a) := by
    unfold compareRevisions
    split
    · obtain ⟨hrejects, hsettled⟩ := foldl_touch (fun next => next.1 = x) hI
        (G := Settled x) (fun a b hagree hb => hb.of_agree hagree) (l := symbols.zipIdx)
        (f := fun run next => A.syncRevision request generations count next.2 run next.1)
        (fun next _ hy a => syncRevision_frame hy generations count a)
        (fun next _ hy a ha => hy ▸ syncRevision_conflicts h generations count next.2 hkeeps a ha)
        ha
      rw [← List.zipIdx_map_fst 0 symbols] at hx
      exact ⟨hrejects, hsettled (.inl (List.mem_map.mp hx))⟩
    · exact ⟨⟨ha.stored, ha.pending, ha.failed⟩, .inl hx⟩
  obtain ⟨run, hnormal, hb⟩ := Except.bind_eq_ok.mp hfetch
  have hfetched : Rejects x stored run ∧ (run.results x).isSome := by
    obtain ⟨hrejects, hsettled⟩ := hcompared
    unfold fetchNormal at hnormal
    generalize A.compareRevisions service request generations count symbols a = a
      at hnormal hrejects hsettled
    split at hnormal
    · cases hnormal
      obtain ⟨hrejects, hreported⟩ := foldl_touch (fun chunk => x ∈ chunk) hI hG
        (l := chunks (max 1 service.batchSize) a.normalSymbols)
        (fun chunk _ hx a => syncChunk_frame count a hx)
        (fun chunk _ hx a ha => syncChunk_conflicts h count hx ha) hrejects
      refine ⟨hrejects, hreported (hsettled.imp_left fun hx => ?_)⟩
      exact (mem_chunks (by omega)).mpr hx
    · split at hnormal
      · next start last _ _ =>
        cases hnormal
        obtain ⟨hrejects, hreported⟩ := foldl_touch (· = x) hI hG (l := a.normalSymbols)
          (f := A.syncSingle request start last)
          (fun y _ hy a => syncSingle_frame hy start last a)
          (fun y _ hy a ha => by
            subst hy
            obtain ⟨error, heq⟩ := syncSingle_conflicts h start last a
            rw [heq]
            exact ⟨ha.report error, settled_report a _⟩) hrejects
        exact ⟨hrejects, hreported (hsettled.imp_left fun hx => ⟨x, hx, rfl⟩)⟩
      · cases hnormal
  cases hb
  -- without bars to persist there is nothing to recheck
  obtain ⟨hrejects, hreported⟩ := foldl_touch (I := fun run => Rejects x stored run ∧
      (run.results x).isSome) (G := fun _ => True) (· = x)
    (fun a b hagree hb => ⟨hI a b hagree hb.1, hG a b hagree hb.2⟩) (fun _ _ _ _ => trivial)
    (l := symbols) (fun y _ hy a => recheckRevision_frame hy a)
    (fun y _ hy a ha => by
      subst hy
      unfold recheckRevision
      rw [ha.1.pending]
      exact ⟨ha, trivial⟩) hfetched
  exact hrejects

omit [DecidableEq R] [ToString Symbol] in
theorem notMem_grouped (h : a.pending x = none) (symbols : List Symbol) : x ∉ a.grouped symbols := by
  intro hx
  have hany := (List.mem_filter.mp hx).2
  rw [h] at hany
  cases hany

theorem persist_frame {generations : Symbol → Option ℤ} {symbols : List Symbol}
    (hx : x ∉ a.grouped symbols) (h : A.persist request generations symbols a = .ok b) :
    SyncRun.AgreeOn x b { a with db := A.before .persist a.db } := by
  unfold persist at h
  dsimp only at h
  split at h
  · cases h
    exact .refl x _
  · split at h
    · next db hdb =>
      cases h
      refine (foldl_frame (fun y hy a =>
        reportPersisted_frame (ne_of_mem_of_not_mem hy hx) a none) _).trans ?_
      refine ⟨?_, rfl, rfl, .rfl, rfl⟩
      have hupsert := eq_ok_of_call hdb
      unfold HubDatabase.upsertFenced at hupsert
      obtain ⟨-, -, hupsert⟩ := Except.bind_eq_ok.mp hupsert
      cases hupsert
      dsimp only
      exact HubDatabase.modify_of_notMem hx
    · split at h
      · cases h
      · cases h
        exact foldl_frame (fun y hy a =>
          persistSymbol_frame (ne_of_mem_of_not_mem hy hx) generations a) _

omit [DecidableEq R] [ToString Symbol] in
theorem storedBars_modify {db : HubDatabase Symbol δ R} {adjustment : Adjustment}
    {f : Symbol → SeriesFacts δ R → SeriesFacts δ R} (hf : ∀ facts, (f x facts).bars = facts.bars)
    (symbols : List Symbol) :
    storedBars (db.modify symbols adjustment f x) = storedBars (db x) := by
  unfold HubDatabase.modify storedBars
  split
  · rw [Option.map_map]
    congr 1
    funext series adjustment'
    by_cases hadjustment : adjustment' = adjustment
    · subst hadjustment
      simp [hf]
    · simp [hadjustment]
  · rfl

omit [DecidableEq R] in
theorem complete_rejects {generations : Symbol → Option ℤ} {symbols : List Symbol}
    (hkeeps : ∀ step row, storedBars (A.concurrent step x row) = storedBars row)
    (ha : Rejects x stored a) (hreported : (a.results x).isSome)
    (h : A.complete request generations symbols a = .ok b) :
    storedBars (b.db x) = stored ∧ ∃ result, b.results x = some result ∧ result.status = .failed := by
  obtain ⟨result, hresult⟩ := Option.isSome_iff_exists.mp hreported
  have hstored : storedBars (A.before .complete a.db x) = stored := by
    rw [before, hkeeps, ha.stored]
  have hbad : x ∉ a.good symbols := by
    intro hx
    have hgood := (List.mem_filter.mp hx).2
    simp [hresult, ha.failed result hresult] at hgood
  unfold complete at h
  dsimp only at h
  split at h
  · next db hcall =>
    cases h
    refine ⟨?_, result, hresult, ha.failed result hresult⟩
    have hdb := eq_ok_of_ite_call hcall
    unfold HubDatabase.completeSync at hdb
    split at hdb
    · cases hdb
      exact hstored
    · obtain ⟨-, -, hdb⟩ := Except.bind_eq_ok.mp hdb
      cases hdb
      rw [storedBars_modify fun _ => rfl]
      exact hstored
  · split at h
    · cases h
    · cases h
      have hframe := foldl_frame (x := x) (f := SyncRun.reportSuperseded) (l := a.good symbols)
        (fun y hy a => ⟨rfl, Function.update_of_ne (ne_of_mem_of_not_mem hy hbad).symm _ _, rfl,
          .rfl, rfl⟩) { a with db := A.before .complete a.db }
      rw [hframe.db, hframe.results]
      exact ⟨hstored, result, hresult, ha.failed result hresult⟩

/-- The phases of a run that returns, from a start where nothing is known of a symbol. -/
theorem sync_phases {Raw : Type} (x : Symbol)
    (hkeeps : ∀ step row, storedBars (A.concurrent step x row) = storedBars row)
    {normalizeSymbol : Raw → Except HubError Symbol} {bestEffortSymbol : Raw → Symbol}
    {symbols : List Raw} {canonical : List Symbol} {db : HubDatabase Symbol δ R}
    (hcanonical : (canonicalizeSymbols normalizeSymbol bestEffortSymbol symbols).1 = canonical)
    (hsync : A.sync service request normalizeSymbol bestEffortSymbol symbols db = .ok b) :
    ∃ count generations start fetched persisted, request.count = .ok count ∧
      Rejects x (storedBars (db x)) start ∧ start.normalSymbols = [] ∧
      A.fetch service request generations count canonical start = .ok fetched ∧
      A.persist request generations canonical fetched = .ok persisted ∧
      A.complete request generations canonical persisted = .ok b := by
  have hfailed := canonicalizeSymbols_failed normalizeSymbol bestEffortSymbol symbols x
  unfold sync syncCanonical at hsync
  generalize canonicalizeSymbols normalizeSymbol bestEffortSymbol symbols = canonicalized
    at hcanonical hfailed hsync
  subst hcanonical
  cases hcount : request.count with
  | error error =>
    rw [hcount] at hsync
    cases hsync
  | ok count =>
    rw [hcount] at hsync
    cases houtage : A.outage .reserve with
    | some error =>
      rw [houtage] at hsync
      cases hsync
    | none =>
      rw [houtage] at hsync
      dsimp only at hsync
      have hreserved : storedBars (((A.before .reserve db).reserveSync canonicalized.1
          request.adjustment).2 x) = storedBars (db x) := by
        unfold HubDatabase.reserveSync
        rw [storedBars_modify fun _ => rfl, before, hkeeps]
      generalize (A.before .reserve db).reserveSync canonicalized.1 request.adjustment = reserved
        at hsync hreserved
      cases hrun : A.syncReserved service request reserved.1 count canonicalized.1
          { db := reserved.2, results := canonicalized.2, revisionBySymbol := fun _ => none,
            normalSymbols := [], pending := fun _ => none } with
      | error error =>
        rw [hrun] at hsync
        cases hsync
      | ok run =>
        rw [hrun] at hsync
        obtain ⟨fetched, hfetch, hpersist⟩ := Except.bind_eq_ok.mp hrun
        exact ⟨count, reserved.1, _, fetched, run, rfl, ⟨hreserved, rfl, hfailed⟩, rfl, hfetch,
          hpersist, hsync⟩

/-- Nothing is stored for a symbol whose rows conflict, and it is reported as failed. -/
theorem sync_rejected {Raw : Type} (h : A.Conflicts request x)
    (hkeeps : ∀ step row, storedBars (A.concurrent step x row) = storedBars row)
    {normalizeSymbol : Raw → Except HubError Symbol} {bestEffortSymbol : Raw → Symbol}
    {symbols : List Raw} (hx : x ∈ (canonicalizeSymbols normalizeSymbol bestEffortSymbol symbols).1)
    {db : HubDatabase Symbol δ R}
    (hsync : A.sync service request normalizeSymbol bestEffortSymbol symbols db = .ok b) :
    storedBars (b.db x) = storedBars (db x) ∧
      ∃ result, b.results x = some result ∧ result.status = .failed := by
  obtain ⟨count, generations, start, fetched, persisted, -, hstart, -, hfetch, hpersist, hcomplete⟩ :=
    sync_phases x hkeeps rfl hsync
  obtain ⟨hrejects, hreported⟩ := fetch_conflicts h generations count hkeeps hx hstart hfetch
  have hframe := persist_frame (notMem_grouped hrejects.pending _) hpersist
  have hbefore : Rejects x (storedBars (db x))
      { fetched with db := A.before .persist fetched.db } := by
    refine ⟨?_, hrejects.pending, hrejects.failed⟩
    simp only [before, hkeeps, hrejects.stored]
  refine complete_rejects hkeeps (hbefore.of_agree hframe) ?_ hcomplete
  rw [hframe.results]
  exact hreported

end SyncEnvironment

end Runs

/-! ## The repository -/

instance : LinearOrder Adjustment :=
  LinearOrder.lift' Adjustment.value fun a b h => by
    cases a <;> cases b <;> simp_all [Adjustment.value]

section Repository

variable {Symbol : Type} [LinearOrder Symbol]

/-- The identity of a daily bar, in the order of the repository. -/
abbrev BarIdentity (Symbol : Type) := Symbol ×ₗ Adjustment ×ₗ Date

def invalidRecordError : HubError := ⟨.record, "daily-bar repository received an invalid record"⟩

def identifyRecord : ProviderRecord Symbol → Except HubError (BarIdentity Symbol × DailyBar)
  | .other => .error invalidRecordError
  | .bar symbol tradeDate adjustment bar =>
    .ok (toLex (symbol, toLex (adjustment, tradeDate)), bar)

/-- `_unique_records` of the daily bars. -/
def uniqueRecords (records : List (ProviderRecord Symbol)) :
    Except HubError (Table (BarIdentity Symbol) DailyBar) :=
  Facts.unique identifyRecord ⟨.record, "conflicting market records for one identity"⟩ records

def ProviderRecord.isOther : ProviderRecord Symbol → Bool
  | .other => true
  | .bar .. => false

/-- `_validated_records` of `SqlAlchemyDailyBarRepository`, which every write begins with. -/
def validatedRecords (records : List (ProviderRecord Symbol)) :
    Except HubError (Table (BarIdentity Symbol) DailyBar) :=
  if records.any ProviderRecord.isOther then .error invalidRecordError else uniqueRecords records

omit [LinearOrder Symbol] in
theorem identifyRecord_eq_ok {record : ProviderRecord Symbol} {symbol : Symbol}
    {adjustment : Adjustment} {tradeDate : Date} {bar : DailyBar} :
    identifyRecord record = .ok (toLex (symbol, toLex (adjustment, tradeDate)), bar) ↔
      record = .bar symbol tradeDate adjustment bar := by
  cases record with
  | other => simp [identifyRecord]
  | bar symbol' tradeDate' adjustment' bar' =>
    simp only [identifyRecord, Except.ok.injEq, Prod.mk.injEq, toLex_inj,
      ProviderRecord.bar.injEq]
    tauto

/-- The order and the repetitions of the records do not matter to the repository. -/
theorem validatedRecords_sameRows {records records' : List (ProviderRecord Symbol)}
    (h : SameRows records records') : validatedRecords records = validatedRecords records' := by
  have hother : records.any ProviderRecord.isOther = records'.any ProviderRecord.isOther := by
    rw [Bool.eq_iff_iff, List.any_eq_true, List.any_eq_true]
    exact exists_congr fun record => and_congr_left fun _ => h record
  unfold validatedRecords
  rw [← hother]
  split
  · rfl
  · next hbars =>
    -- among daily bars the conflict is the only error
    have hconflict {records : List (ProviderRecord Symbol)}
        (hbars : ¬ records.any ProviderRecord.isOther) {error : HubError}
        (herror : uniqueRecords records = .error error) :
        error = ⟨.record, "conflicting market records for one identity"⟩ := by
      rcases Facts.foldlM_eq_error herror with heq | ⟨record, hrecord, hparse⟩
      · exact heq
      · cases record with
        | other => exact absurd (List.any_eq_true.mpr ⟨_, hrecord, rfl⟩) hbars
        | bar => cases hparse
    have hok (facts) : uniqueRecords records = .ok facts ↔ uniqueRecords records' = .ok facts :=
      Facts.unique_congr h facts
    cases hunique : uniqueRecords records with
    | ok facts => rw [(hok facts).mp hunique]
    | error error =>
      cases hunique' : uniqueRecords records' with
      | ok facts => rw [(hok facts).mpr hunique'] at hunique; cases hunique
      | error error' => rw [hconflict hbars hunique, hconflict (hother ▸ hbars) hunique']

theorem validatedRecords_conflict {records : List (ProviderRecord Symbol)}
    (h : ProviderRecord.Conflict records) :
    ∃ error, validatedRecords records = .error error ∧ error.kind = .record := by
  obtain ⟨symbol, tradeDate, adjustment, bar, bar', hbar, hbar', hne⟩ := h
  unfold validatedRecords
  split
  · exact ⟨_, rfl, rfl⟩
  · next hbars =>
    cases hunique : uniqueRecords records with
    | ok facts =>
      exact absurd hunique (Facts.unique_ne_ok hbar hbar' rfl rfl hne facts)
    | error error =>
      rcases Facts.foldlM_eq_error hunique with rfl | ⟨record, hrecord, hparse⟩
      · exact ⟨_, rfl, rfl⟩
      · cases record with
        | other => exact absurd (List.any_eq_true.mpr ⟨_, hrecord, rfl⟩) hbars
        | bar => cases hparse

/-- The bars of a sync, as the repository gets them. -/
def recordsOf (symbols : List Symbol) (bars : Symbol → Bars) (adjustment : Adjustment) :
    List (ProviderRecord Symbol) :=
  symbols.flatMap fun symbol =>
    (bars symbol).rows.map fun row => .bar symbol row.1 adjustment row.2

/-- The repository accepts the bars of a sync as they are. -/
theorem validatedRecords_recordsOf (symbols : List Symbol) (bars : Symbol → Bars)
    (adjustment : Adjustment) :
    ∃ records, validatedRecords (recordsOf symbols bars adjustment) = .ok records ∧
      ∀ symbol tradeDate bar, records.get? (toLex (symbol, toLex (adjustment, tradeDate))) = some bar ↔
        symbol ∈ symbols ∧ (bars symbol).get? tradeDate = some bar := by
  have hmem (record : ProviderRecord Symbol) : record ∈ recordsOf symbols bars adjustment ↔
      ∃ symbol ∈ symbols, ∃ tradeDate bar, (bars symbol).get? tradeDate = some bar ∧
        record = .bar symbol tradeDate adjustment bar := by
    simp only [recordsOf, List.mem_flatMap, List.mem_map, Prod.exists, Table.get?_eq_some,
      eq_comm (a := record)]
  have hbars : ¬ (recordsOf symbols bars adjustment).any ProviderRecord.isOther := by
    rw [List.any_eq_true]
    rintro ⟨record, hrecord, hother⟩
    obtain ⟨_, _, _, _, _, rfl⟩ := (hmem record).mp hrecord
    cases hother
  unfold validatedRecords
  rw [if_neg hbars]
  obtain ⟨records, hunique⟩ :
      ∃ records, uniqueRecords (recordsOf symbols bars adjustment) = .ok records := by
    refine Facts.exists_unique_eq_ok (fun record hrecord => ?_)
      fun record hrecord record' hrecord' key fact fact' hparse hparse' => ?_
    · obtain ⟨symbol, -, tradeDate, bar, -, rfl⟩ := (hmem record).mp hrecord
      exact ⟨_, bar, rfl⟩
    · obtain ⟨symbol, -, tradeDate, bar, hbar, rfl⟩ := (hmem record).mp hrecord
      obtain ⟨symbol', -, tradeDate', bar', hbar', rfl⟩ := (hmem record').mp hrecord'
      cases hparse
      cases hparse'
      exact Option.some.inj (hbar.symm.trans hbar')
  refine ⟨records, hunique, fun symbol tradeDate bar => ?_⟩
  rw [Facts.get?_of_unique_eq_ok hunique]
  constructor
  · rintro ⟨record, hrecord, hparse⟩
    obtain ⟨symbol', hsymbol, tradeDate', bar', hbar, rfl⟩ := (hmem record).mp hrecord
    cases identifyRecord_eq_ok.mp hparse
    exact ⟨hsymbol, hbar⟩
  · rintro ⟨hsymbol, hbar⟩
    refine ⟨.bar symbol tradeDate adjustment bar, ?_, rfl⟩
    exact (hmem _).mpr ⟨symbol, hsymbol, tradeDate, bar, hbar, rfl⟩

end Repository

/-! ## The rows of a sync -/

section Sync

variable {Symbol δ R Raw : Type} [LinearOrder Symbol] [DecidableEq R] [ToString Symbol]

/-- Providers that answer with the same rows lead to the same database and to the same results, up
to the text of an invalid-data error; to the same results altogether when the rows are of the
requested series. Conflicting rows reject their symbol. The repository judges its records in the
same way. -/
theorem sync_sameRows (env : SyncEnvironment Symbol δ R) (service : DailyBarSyncService)
    (request : SyncRequest) (normalizeSymbol : Raw → Except HubError Symbol)
    (bestEffortSymbol : Raw → Symbol) (symbols : List Raw) (db : HubDatabase Symbol δ R) :
    (∀ provider', env.provider.SameAnswers provider' →
      AlikeAnswers (SyncRun.Alike HubError.Alike)
        (env.sync service request normalizeSymbol bestEffortSymbol symbols db)
        (SyncEnvironment.sync { env with provider := provider' } service request normalizeSymbol
          bestEffortSymbol symbols db)) ∧
    (∀ provider', env.provider.SameAnswers provider' →
      env.provider.Answers request.adjustment (OwnRows · request.adjustment) →
      AlikeAnswers (fun a b => a.db = b.db ∧ a.results = b.results)
        (env.sync service request normalizeSymbol bestEffortSymbol symbols db)
        (SyncEnvironment.sync { env with provider := provider' } service request normalizeSymbol
          bestEffortSymbol symbols db)) ∧
    (∀ x run, env.Conflicts request x →
      (∀ step row, SyncEnvironment.storedBars (env.concurrent step x row) =
        SyncEnvironment.storedBars row) →
      x ∈ (canonicalizeSymbols normalizeSymbol bestEffortSymbol symbols).1 →
      env.sync service request normalizeSymbol bestEffortSymbol symbols db = .ok run →
      SyncEnvironment.storedBars (run.db x) = SyncEnvironment.storedBars (db x) ∧
        ∃ result, run.results x = some result ∧ result.status = .failed) ∧
    (∀ records records' : List (ProviderRecord Symbol), SameRows records records' →
      validatedRecords records = validatedRecords records') ∧
    ∀ records : List (ProviderRecord Symbol), ProviderRecord.Conflict records →
      ∃ error, validatedRecords records = .error error ∧ error.kind = .record := by
  refine ⟨fun provider' h => ?_, fun provider' h hown => ?_, fun x run hconflicts hkeeps hx hrun => ?_,
    fun records records' h => validatedRecords_sameRows h,
    fun records h => validatedRecords_conflict h⟩
  · exact SyncEnvironment.sync_alike service (SyncEnvironment.alike_of_rows h request)
      (fun error => .inl rfl) normalizeSymbol bestEffortSymbol symbols db
  · refine (SyncEnvironment.sync_alike service (SyncEnvironment.alike_of_ownRows h hown)
      (fun _ => rfl) normalizeSymbol bestEffortSymbol symbols db).imp fun a b _ hrun => ?_
    exact ⟨hrun.db, funext fun symbol => (hrun.results symbol).eq⟩
  · exact SyncEnvironment.sync_rejected hconflicts hkeeps hx hrun

end Sync

/-! ## Two orders of three invalid rows -/

/-- A provider that has the given rows of 600519. -/
def rowProvider (rows : List (ProviderRecord ℕ)) : DailyBarProvider ℕ Unit where
  getDailyBars _ _ _ _ := .ok rows
  getDailyBarsBatch := some fun _ _ _ => .ok fun symbol => if symbol = 600519 then some rows else none
  getDailyBarsWindow := none
  getAdjustmentRevision := none
  authoritativeHistory := false

def rowEnvironment (rows : List (ProviderRecord ℕ)) : SyncEnvironment ℕ Unit Unit where
  provider := rowProvider rows
  concurrent _ _ row := row
  outage _ := none

/-- A qfq row among two conflicting unadjusted ones. -/
def invalidRows : List (ProviderRecord ℕ) :=
  [.bar 600519 1 .qfq ⟨10, 10, 10, 10, 1, none⟩, .bar 600519 2 .none ⟨10, 10, 10, 10, 1, none⟩,
    .bar 600519 2 .none ⟨11, 11, 11, 11, 1, none⟩]

theorem rowProvider_sameAnswers {rows rows' : List (ProviderRecord ℕ)} (h : rows.Perm rows') :
    (rowProvider rows).SameAnswers (rowProvider rows') where
  single _ _ _ _ _ := h.mem_iff
  batch := .some fun _ _ _ symbol => by
    dsimp only
    split
    · exact .some fun _ => h.mem_iff
    · exact .none
  window := .none
  revisions := rfl
  authoritative := rfl

/-- The reversed rows are rejected with another text. -/
theorem not_sync_sameResult :
    (rowProvider invalidRows).SameAnswers (rowProvider invalidRows.reverse) ∧
    ((rowEnvironment invalidRows).sync ⟨true, 50⟩ twoDayRequest .ok id [600519]
        (securitiesOnly [600519])).map (fun run => (run.results 600519).bind (·.error)) =
      .ok (some ⟨.invalidMarketData, "provider returned a different adjustment mode"⟩) ∧
    ((rowEnvironment invalidRows.reverse).sync ⟨true, 50⟩ twoDayRequest .ok id [600519]
        (securitiesOnly [600519])).map (fun run => (run.results 600519).bind (·.error)) =
      .ok (some ⟨.invalidMarketData, "conflicting daily bars for one identity"⟩) :=
  ⟨rowProvider_sameAnswers (List.reverse_perm _).symm, by decide +kernel, by decide +kernel⟩

end Apanel
