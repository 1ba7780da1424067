import Apanel.Hub.Sync
import Apanel.Library.Causal
import Mathlib.Algebra.Order.Ring.Unbundled.Rat

/-!
# Daily bars of eltdx

`EltdxProvider.get_daily_bars_window` (`app/providers/eltdx.py`): pages of a series, counted from its
newest bar, are read until each symbol has enough bars up to the cutoff, until its series ends, or
until the page budget is spent. `getDailyBarsWindow_eq` says what comes of it for a series that does
not change meanwhile.
-/

namespace Apanel

/-- One bar of an eltdx series. A value that is not a finite decimal, and a time that is not a
datetime, are missing; only the date of the time matters. -/
structure EltdxBar where
  time : Option Date
  openPrice : Option ℚ
  high : Option ℚ
  low : Option ℚ
  close : Option ℚ
  volumeLots : Option ℚ
  amount : Option (Option ℚ)

/-- One series of a response, with its `adjust_mode` stripped and in lower case. -/
structure EltdxSeries where
  adjustMode : String
  bars : Option (List EltdxBar)

/-- A response: the series by code, of a mapping or of a sequence, or an object of another type. -/
inductive EltdxResponse (Code : Type)
  | series (entries : List (Code × Option EltdxSeries))
  | other (series : EltdxSeries)

/-- What `EltdxProvider` uses of its client, and its paging limits. `getBars` is `_call` of
`bars.get`, with its arguments `codes`, `adjust`, `count` and `start`. -/
structure EltdxProvider (Symbol Code : Type) where
  getBars : List Code → Adjustment → ℕ → ℕ → Except HubError (EltdxResponse Code)
  normalizeSymbol : Code → Except HubError Symbol
  fullCode : Symbol → Code
  barPageSize : ℕ := 800
  barMaxPages : ℕ := 64
  barPageSize_pos : 0 < barPageSize := by decide
  barPageSize_le : barPageSize ≤ 800 := by decide
  barMaxPages_pos : 0 < barMaxPages := by decide

/-! ## The newest rows -/

namespace Table

variable {κ α : Type} [LinearOrder κ]

/-- The rows from `start` on, counted from the newest one. -/
def page (t : Table κ α) (count start : ℕ) : List (κ × α) :=
  (t.rows.reverse.drop start).take count

theorem rows_filter (t : Table κ α) (q : κ → Bool) : (t.filter q).rows = t.rows.filter (q ·.1) := rfl

/-- The rows from a key on, where the rows are in key order. -/
theorem filter_append_of_pairwise {front back : List (κ × α)}
    (h : (front ++ back).Pairwise fun r s => r.1 < s.1) :
    ((front ++ back).filter fun r => back.head?.any (·.1 ≤ r.1)) = back := by
  obtain ⟨-, hback, hbefore⟩ := List.pairwise_append.mp h
  cases back with
  | nil => simp
  | cons row back =>
    have hold : front.filter (fun r => (row :: back).head?.any (·.1 ≤ r.1)) = [] := by
      rw [List.filter_eq_nil_iff]
      intro r hr
      simpa using hbefore r hr row List.mem_cons_self
    have hnew : (row :: back).filter (fun r => (row :: back).head?.any (·.1 ≤ r.1)) =
        row :: back := by
      rw [List.filter_eq_self]
      intro r hr
      rcases List.mem_cons.mp hr with rfl | hr
      · simp
      · simpa using ((List.pairwise_cons.mp hback).1 r hr).le
    rw [List.filter_append, hold, hnew, List.nil_append]

theorem rows_takeLast (t : Table κ α) (n : ℤ) :
    (t.takeLast n).rows = t.rows.drop (t.rows.length - n.toNat) := by
  have holdest : (t.keys.drop (t.keys.length - n.toNat)).head? =
      (t.rows.drop (t.rows.length - n.toNat)).head?.map (·.1) := by
    rw [keys, List.length_map, ← List.map_drop, List.head?_map]
  have hsorted := t.sorted
  rw [← List.take_append_drop (t.rows.length - n.toNat) t.rows] at hsorted
  have hrows := filter_append_of_pairwise hsorted
  rw [List.take_append_drop] at hrows
  unfold takeLast
  dsimp only
  rw [rows_filter, holdest]
  simpa only [Option.any_map, Function.comp_def] using hrows

theorem get?_takeLast {t : Table κ α} {n : ℕ} {key : κ} {x : α} :
    (t.takeLast n).get? key = some x ↔ (key, x) ∈ t.rows.reverse.take n := by
  rw [get?_eq_some, rows_takeLast, Int.toNat_natCast, List.take_reverse, List.mem_reverse]

/-- Enough of the newest rows decide which rows are the newest of those kept. -/
theorem takeLast_filter (t : Table κ α) (q : κ → Bool) {n : ℕ} {k : ℤ}
    (h : k ≤ ((t.takeLast n).filter q).rows.length ∨ t.rows.length ≤ n) :
    ((t.takeLast n).filter q).takeLast k = (t.filter q).takeLast k := by
  refine ext_rows ?_
  rw [rows_takeLast, rows_takeLast, rows_filter, rows_filter, rows_takeLast, Int.toNat_natCast]
  rw [rows_filter, rows_takeLast, Int.toNat_natCast] at h
  rcases h with h | h
  · have hsplit := List.take_append_drop (t.rows.length - n) t.rows
    conv_rhs => rw [← hsplit]
    rw [List.filter_append]
    generalize (t.rows.take (t.rows.length - n)).filter _ = old,
      (t.rows.drop (t.rows.length - n)).filter _ = new at h ⊢
    have hold : old.drop ((old ++ new).length - k.toNat) = [] :=
      List.drop_eq_nil_of_le (by rw [List.length_append]; omega)
    rw [List.drop_append, hold, List.nil_append, List.length_append]
    congr 1
    omega
  · rw [Nat.sub_eq_zero_of_le h, List.drop_zero]

end Table

/-! ## Records -/

/-- `_decimal`. -/
def decimal (value : Option ℚ) (field : String) : Except HubError ℚ :=
  match value with
  | none => .error ⟨.invalidMarketData, field ++ " must be a finite decimal"⟩
  | some value => .ok value

/-- `_optional_decimal`. -/
def optionalDecimal (value : Option (Option ℚ)) (field : String) : Except HubError (Option ℚ) :=
  match value with
  | none => .ok none
  | some value => (decimal value field).map some

/-- The checks of `DailyBar`. -/
def DailyBar.check (bar : DailyBar) : Except HubError DailyBar :=
  if bar.openPrice ≤ 0 ∨ bar.high ≤ 0 ∨ bar.low ≤ 0 ∨ bar.close ≤ 0 then
    .error ⟨.invalidMarketData, "OHLC prices must be greater than zero"⟩
  else if bar.volume < 0 then .error ⟨.invalidMarketData, "volume must not be negative"⟩
  else if bar.amount.any (· < 0) then .error ⟨.invalidMarketData, "amount must not be negative"⟩
  else if bar.high < max bar.openPrice (max bar.close bar.low) then
    .error ⟨.invalidMarketData, "high must be at least open, close, and low"⟩
  else if bar.low > min bar.openPrice (min bar.close bar.high) then
    .error ⟨.invalidMarketData, "low must be at most open, close, and high"⟩
  else .ok bar

/-- `DailyBar(...)` of the values of a bar. -/
def EltdxBar.record (bar : EltdxBar) : Except HubError DailyBar := do
  let openPrice ← decimal bar.openPrice "open"
  let high ← decimal bar.high "high"
  let low ← decimal bar.low "low"
  let close ← decimal bar.close "close"
  let volume ← decimal bar.volumeLots "volume"
  let amount ← optionalDecimal bar.amount "amount"
  DailyBar.check { openPrice, high, low, close, volume, amount }

/-- One bar of a page. -/
def collectBar (last : Option Date) (collected : Bars) (bar : EltdxBar) : Except HubError Bars :=
  match bar.time with
  | none => .error ⟨.invalidMarketData, "eltdx daily bar is missing a datetime"⟩
  | some tradeDate =>
    if last.any (tradeDate > ·) then .ok collected
    else do
      let record ← bar.record
      if (collected.get? tradeDate).any (· ≠ record) then
        throw ⟨.invalidMarketData, "conflicting daily bars across provider pages"⟩
      return collected.insert tradeDate record

/-! ## Pages -/

section Window

variable {Symbol Code : Type} [DecidableEq Symbol]

/-- The variables of `get_daily_bars_window`; `next_pending` is the `pending` of the next page. -/
structure WindowRun (Symbol : Type) where
  pending : List Symbol
  collected : Symbol → Bars
  result : Symbol → Option Bars

namespace EltdxProvider

variable (p : EltdxProvider Symbol Code)

/-- The series of a response by symbol. -/
def readResponse (pending : List Symbol) (response : EltdxResponse Code) :
    Except HubError (Symbol → Option EltdxSeries) :=
  match response with
  | .series entries => entries.foldlM (fun raw (code, series) => do
      let symbol ← p.normalizeSymbol code
      return Function.update raw symbol series) fun _ => none
  | .other series =>
    match pending with
    | [symbol] => .ok (Function.update (fun _ => none) symbol (some series))
    | _ => .error ⟨.unavailable, "eltdx returned an invalid batch response"⟩

/-- The page of one symbol. -/
def takeSeries (adjustment : Adjustment) (count pageSize : ℕ) (last : Option Date)
    (raw : Symbol → Option EltdxSeries) (run : WindowRun Symbol) (symbol : Symbol) :
    Except HubError (WindowRun Symbol) :=
  match raw symbol with
  | none => .ok run
  | some series =>
    if series.adjustMode ≠ "" ∧ series.adjustMode ≠ adjustment.value then
      .error ⟨.invalidMarketData, "eltdx daily-bar adjustment does not match request"⟩
    else
      match series.bars with
      | none => .error ⟨.unavailable, "eltdx daily-bar series has no bars field"⟩
      | some bars => do
        let collected ← bars.foldlM (collectBar last) (run.collected symbol)
        let run := { run with collected := Function.update run.collected symbol collected }
        if count ≤ collected.rows.length ∨ bars.length < pageSize then
          return { run with
            result := Function.update run.result symbol (some (collected.takeLast count)) }
        else return { run with pending := run.pending ++ [symbol] }

/-- One page. -/
def readPage (adjustment : Adjustment) (count pageSize : ℕ) (last : Option Date) (page : ℕ)
    (run : WindowRun Symbol) : Except HubError (WindowRun Symbol) := do
  let response ← p.getBars (run.pending.map p.fullCode) adjustment pageSize (page * pageSize)
  let raw ← p.readResponse run.pending response
  run.pending.foldlM (takeSeries adjustment count pageSize last raw) { run with pending := [] }

/-- The loop over the pages, of which some are left in the budget. -/
def readPages (adjustment : Adjustment) (count pageSize : ℕ) (last : Option Date) :
    ℕ → ℕ → WindowRun Symbol → Except HubError (WindowRun Symbol)
  | 0, _, run => .ok run
  | left + 1, page, run =>
    if run.pending = [] then .ok run
    else do
      let run ← p.readPage adjustment count pageSize last page run
      readPages adjustment count pageSize last left (page + 1) run

/-- `get_daily_bars_window` of canonical symbols: missing symbols remain missing. -/
def getDailyBarsWindow (symbols : List Symbol) (adjustment : Adjustment) (count : ℤ)
    (last : Option Date) : Except HubError (ProviderBatch Symbol) := do
  if count ≤ 0 then throw ⟨.invalidMarketData, "count must be a positive integer"⟩
  let run ← p.readPages adjustment count.toNat (min count.toNat p.barPageSize) last p.barMaxPages 0
    { pending := symbols.eraseDups, collected := fun _ => ∅, result := fun _ => none }
  if run.pending ≠ [] then
    throw ⟨.unavailable, "eltdx history coverage exceeds bounded paging budget"⟩
  return fun symbol => (run.result symbol).map fun bars =>
    bars.rows.map fun row => .bar symbol row.1 adjustment row.2

end EltdxProvider

/-! ## Reading a fixed series -/

/-- A series with the given rows, in any order. -/
def EltdxSeries.IsPage (adjustment : Adjustment) (rows : List (Date × DailyBar))
    (series : EltdxSeries) : Prop :=
  (series.adjustMode = "" ∨ series.adjustMode = adjustment.value) ∧
    ∃ bars rows', series.bars = some bars ∧ rows'.Perm rows ∧
      List.Forall₂ (fun (bar : EltdxBar) row => bar.time = some row.1 ∧ bar.record = .ok row.2)
        bars rows'

namespace EltdxProvider

variable {p : EltdxProvider Symbol Code}

/-- A client that serves the pages of fixed series; a symbol without a series is missing from the
responses. -/
def Serves (p : EltdxProvider Symbol Code) (adjustment : Adjustment)
    (upstream : Symbol → Option Bars) : Prop :=
  ∀ pending count start, pending ≠ [] → ∃ response raw,
    p.getBars (pending.map p.fullCode) adjustment count start = .ok response ∧
    p.readResponse pending response = .ok raw ∧
    ∀ symbol ∈ pending, Option.Rel (fun bars => EltdxSeries.IsPage adjustment (bars.page count start))
      (upstream symbol) (raw symbol)

/-- The bars of a page join those collected so far. -/
theorem collectBars {upstream : Bars} (last : Option Date) {bars : List EltdxBar}
    {rows : List (Date × DailyBar)}
    (h : List.Forall₂ (fun (bar : EltdxBar) row => bar.time = some row.1 ∧ bar.record = .ok row.2)
      bars rows)
    (hrows : ∀ row ∈ rows, upstream.get? row.1 = some row.2) {collected : Bars}
    (hcollected : ∀ day bar, collected.get? day = some bar → upstream.get? day = some bar) :
    ∃ collected', bars.foldlM (collectBar last) collected = .ok collected' ∧
      ∀ day bar, collected'.get? day = some bar ↔
        collected.get? day = some bar ∨ (day, bar) ∈ rows ∧ last.all (day ≤ ·) := by
  induction h generalizing collected with
  | nil => exact ⟨collected, rfl, by simp⟩
  | @cons bar row bars rows hbar h ih =>
    obtain ⟨htime, hrecord⟩ := hbar
    have hrow := hrows row List.mem_cons_self
    have hstep : ∃ collected', collectBar last collected bar = .ok collected' ∧
        ∀ day bar, collected'.get? day = some bar ↔
          collected.get? day = some bar ∨ (day, bar) = row ∧ last.all (day ≤ ·) := by
      unfold collectBar
      rw [htime]
      dsimp only
      split
      · next hlate =>
        refine ⟨collected, rfl, fun day bar => ?_⟩
        rw [iff_comm, or_iff_left_iff_imp]
        rintro ⟨rfl, hin⟩
        obtain ⟨cutoff, hcutoff, hlt⟩ := (Option.any_eq_true _ _).mp hlate
        simp only [hcutoff, Option.all_some, decide_eq_true_eq] at hin hlt
        exact absurd hin (not_le.mpr hlt)
      · next hin =>
        have hin : last.all (row.1 ≤ ·) := by
          cases last with
          | none => rfl
          | some cutoff => simpa using hin
        have hsame (bar) (hbar : collected.get? row.1 = some bar) : bar = row.2 :=
          Option.some.inj ((hcollected row.1 bar hbar).symm.trans hrow)
        have hagree : ¬ (collected.get? row.1).any (· ≠ row.2) := by
          rw [Option.any_eq_true]
          rintro ⟨bar, hbar, hne⟩
          exact of_decide_eq_true hne (hsame bar hbar)
        rw [hrecord, Except.ok_bind, if_neg hagree]
        refine ⟨_, rfl, fun day bar => ?_⟩
        rw [Table.get?_insert]
        split
        · next heq =>
          subst heq
          constructor
          · intro hbar
            exact .inr ⟨Prod.ext rfl (Option.some.inj hbar).symm, hin⟩
          · rintro (hbar | ⟨heq, -⟩)
            · rw [hsame bar hbar]
            · rw [← heq]
        · next hne =>
          rw [iff_comm, or_iff_left_iff_imp]
          rintro ⟨rfl, -⟩
          exact absurd rfl hne
    obtain ⟨collected', hstep, hget⟩ := hstep
    have hcollected' (day bar') (hbar' : collected'.get? day = some bar') :
        upstream.get? day = some bar' := by
      rcases (hget day bar').mp hbar' with hold | ⟨rfl, -⟩
      · exact hcollected day bar' hold
      · exact hrow
    obtain ⟨collected'', hrest, hget'⟩ :=
      ih (fun row' hrow' => hrows row' (List.mem_cons_of_mem _ hrow')) hcollected'
    refine ⟨collected'', by rw [List.foldlM_cons, hstep, Except.ok_bind, hrest], fun day bar' => ?_⟩
    rw [hget', hget, List.mem_cons, or_and_right, or_assoc]

/-- What has been collected of a series after the given number of its newest bars. -/
def collectedOf (bars : Bars) (last : Option Date) (n : ℕ) : Bars :=
  (bars.takeLast n).window none last

/-- Enough bars have been collected, or there are no more. -/
def DoneAt (bars : Bars) (count : ℕ) (last : Option Date) (n : ℕ) : Prop :=
  count ≤ (collectedOf bars last n).rows.length ∨ bars.rows.length < n

instance (bars : Bars) (count : ℕ) (last : Option Date) (n : ℕ) :
    Decidable (DoneAt bars count last n) :=
  inferInstanceAs (Decidable (_ ∨ _))

theorem get?_collectedOf {bars : Bars} {last : Option Date} {n : ℕ} {day : Date} {bar : DailyBar} :
    (collectedOf bars last n).get? day = some bar ↔
      (day, bar) ∈ bars.rows.reverse.take n ∧ last.all (day ≤ ·) := by
  unfold collectedOf
  rw [Table.get?_window, ← Table.get?_takeLast]
  simp only [Option.all_none, true_and]
  split
  · next h => simp [h]
  · next h => simp [h]

theorem DoneAt.mono {bars : Bars} {count : ℕ} {last : Option Date} {n m : ℕ} (hle : n ≤ m)
    (h : DoneAt bars count last n) : DoneAt bars count last m := by
  rcases h with hcount | hlength
  · left
    have hsub : (collectedOf bars last n).rows.Sublist (collectedOf bars last m).rows := by
      unfold collectedOf Table.window
      rw [Table.rows_filter, Table.rows_filter, Table.rows_takeLast, Table.rows_takeLast]
      exact (List.drop_sublist_drop_left _ (by omega)).filter _
    exact hcount.trans hsub.length_le
  · exact .inr (hlength.trans_le hle)

/-- What is returned of a series when it is done. -/
theorem DoneAt.takeLast {bars : Bars} {count : ℕ} {last : Option Date} {n : ℕ}
    (h : DoneAt bars count last n) :
    (collectedOf bars last n).takeLast count = (bars.window none last).takeLast count :=
  Table.takeLast_filter bars _ (h.imp (fun h => Int.ofNat_le.mpr h) fun h => h.le)

/-- The page that follows what has been collected. -/
theorem takeSeries_page {adjustment : Adjustment} {pageSize : ℕ} {last : Option Date}
    {raw : Symbol → Option EltdxSeries} {run : WindowRun Symbol} {symbol : Symbol} {bars : Bars}
    {series : EltdxSeries} {page : ℕ} (hpos : 0 < pageSize) (hraw : raw symbol = some series)
    (hpage : series.IsPage adjustment (bars.page pageSize (page * pageSize)))
    (hcollected : run.collected symbol = collectedOf bars last (page * pageSize)) (count : ℕ) :
    ∃ run', takeSeries adjustment count pageSize last raw run symbol = .ok run' ∧
      run'.pending = (if DoneAt bars count last ((page + 1) * pageSize) then run.pending
        else run.pending ++ [symbol]) ∧
      run'.collected = Function.update run.collected symbol
        (collectedOf bars last ((page + 1) * pageSize)) ∧
      run'.result = if DoneAt bars count last ((page + 1) * pageSize) then
        Function.update run.result symbol (some ((bars.window none last).takeLast count))
        else run.result := by
  obtain ⟨hmode, served, rows, hserved, hperm, hbars⟩ := hpage
  have hnext : (page + 1) * pageSize = page * pageSize + pageSize := Nat.succ_mul ..
  have hrows : ∀ row ∈ rows, bars.get? row.1 = some row.2 := by
    intro row hrow
    have hmem := List.mem_of_mem_drop (List.mem_of_mem_take (hperm.mem_iff.mp hrow))
    exact Table.get?_eq_some.mpr (List.mem_reverse.mp hmem)
  have hbefore (day bar) (hbar : (collectedOf bars last (page * pageSize)).get? day = some bar) :
      bars.get? day = some bar := by
    have hmem := List.mem_of_mem_take (get?_collectedOf.mp hbar).1
    exact Table.get?_eq_some.mpr (List.mem_reverse.mp hmem)
  obtain ⟨collected, hcollect, hget⟩ := collectBars last hbars hrows hbefore
  have heq : collected = collectedOf bars last ((page + 1) * pageSize) := by
    refine Table.ext_get? fun day => Option.ext fun bar => ?_
    rw [hget, get?_collectedOf, get?_collectedOf, hperm.mem_iff, ← or_and_right, hnext,
      List.take_add, List.mem_append]
    rfl
  have hlength : served.length = min pageSize (bars.rows.length - page * pageSize) := by
    rw [hbars.length_eq, hperm.length_eq, Table.page, List.length_take, List.length_drop,
      List.length_reverse]
  have hdone : (count ≤ collected.rows.length ∨ served.length < pageSize) ↔
      DoneAt bars count last ((page + 1) * pageSize) := by
    unfold DoneAt
    rw [heq, hlength, hnext]
    refine or_congr_right ?_
    omega
  unfold takeSeries
  rw [hraw]
  dsimp only
  rw [if_neg (by tauto), hserved, hcollected]
  dsimp only
  rw [hcollect, Except.ok_bind]
  split
  · next h =>
    have h := hdone.mp h
    refine ⟨_, rfl, (if_pos h).symm, by rw [heq], ?_⟩
    rw [if_pos h, heq, h.takeLast]
  · next h =>
    have h := fun hd => h (hdone.mpr hd)
    exact ⟨_, rfl, (if_neg h).symm, by rw [heq], (if_neg h).symm⟩

/-- A page for each of some symbols. -/
theorem takeSeries_foldlM {adjustment : Adjustment} {upstream : Symbol → Option Bars}
    (count : ℕ) {pageSize page : ℕ} {last : Option Date} {raw : Symbol → Option EltdxSeries}
    {symbols : List Symbol} (hpos : 0 < pageSize) (hnodup : symbols.Nodup)
    (hraw : ∀ symbol ∈ symbols, Option.Rel (fun bars =>
      EltdxSeries.IsPage adjustment (bars.page pageSize (page * pageSize)))
      (upstream symbol) (raw symbol))
    {run : WindowRun Symbol} (hcollected : ∀ symbol ∈ symbols, ∀ bars ∈ upstream symbol,
      run.collected symbol = collectedOf bars last (page * pageSize)) :
    ∃ run', symbols.foldlM (takeSeries adjustment count pageSize last raw) run = .ok run' ∧
      run'.pending = run.pending ++ symbols.filter (fun symbol => (upstream symbol).any fun bars =>
        ¬ DoneAt bars count last ((page + 1) * pageSize)) ∧
      (∀ symbol, symbol ∉ symbols ∨ upstream symbol = none →
        run'.collected symbol = run.collected symbol ∧ run'.result symbol = run.result symbol) ∧
      ∀ symbol ∈ symbols, ∀ bars ∈ upstream symbol,
        run'.collected symbol = collectedOf bars last ((page + 1) * pageSize) ∧
        run'.result symbol = if DoneAt bars count last ((page + 1) * pageSize) then
          some ((bars.window none last).takeLast count) else run.result symbol := by
  induction symbols generalizing run with
  | nil => exact ⟨run, rfl, by simp, fun _ _ => ⟨rfl, rfl⟩, nofun⟩
  | cons symbol symbols ih =>
    obtain ⟨hnotMem, hnodup⟩ := List.nodup_cons.mp hnodup
    have hrel := hraw symbol List.mem_cons_self
    have hraw' := fun symbol' hsymbol' => hraw symbol' (List.mem_cons_of_mem symbol hsymbol')
    rw [List.foldlM_cons]
    cases hupstream : upstream symbol with
    | none =>
      have hnone : raw symbol = none := by
        rw [hupstream] at hrel
        generalize raw symbol = series at hrel
        cases hrel
        rfl
      obtain ⟨run', hrun', hpending, hframe, hdone⟩ := ih hnodup hraw'
        (fun symbol' hsymbol' => hcollected symbol' (List.mem_cons_of_mem _ hsymbol'))
      have hstep : takeSeries adjustment count pageSize last raw run symbol = .ok run := by
        unfold takeSeries
        rw [hnone]
      refine ⟨run', by rw [hstep, Except.ok_bind, hrun'], ?_, fun symbol' hsymbol' => ?_,
        fun symbol' hsymbol' bars' hbars' => ?_⟩
      · rw [hpending, List.filter_cons_of_neg (by simp [hupstream])]
      · exact hframe symbol' (hsymbol'.imp_left fun h h' => h (List.mem_cons_of_mem _ h'))
      · rcases List.mem_cons.mp hsymbol' with rfl | hsymbol'
        · rw [hupstream] at hbars'
          cases hbars'
        · exact hdone symbol' hsymbol' bars' hbars'
    | some bars =>
      obtain ⟨series, hseries, hpage⟩ : ∃ series, raw symbol = some series ∧
          series.IsPage adjustment (bars.page pageSize (page * pageSize)) := by
        rw [hupstream] at hrel
        generalize raw symbol = series at hrel
        cases hrel with
        | some hpage => exact ⟨_, rfl, hpage⟩
      obtain ⟨run₁, hstep, hpending₁, hcollected₁, hresult₁⟩ :=
        takeSeries_page hpos hseries hpage (hcollected symbol List.mem_cons_self bars hupstream)
          count
      have hne (symbol') (hsymbol' : symbol' ∈ symbols) : symbol' ≠ symbol :=
        ne_of_mem_of_not_mem hsymbol' hnotMem
      have hresult_ne (symbol') (h : symbol' ≠ symbol) : run₁.result symbol' = run.result symbol' := by
        rw [hresult₁]
        split
        · exact Function.update_of_ne h _ _
        · rfl
      have hcollected' : ∀ symbol' ∈ symbols, ∀ bars' ∈ upstream symbol',
          run₁.collected symbol' = collectedOf bars' last (page * pageSize) := by
        intro symbol' hsymbol' bars' hbars'
        rw [hcollected₁, Function.update_of_ne (hne symbol' hsymbol')]
        exact hcollected symbol' (List.mem_cons_of_mem _ hsymbol') bars' hbars'
      obtain ⟨run', hrun', hpending, hframe, hdone⟩ := ih hnodup hraw' hcollected'
      refine ⟨run', by rw [hstep, Except.ok_bind, hrun'], ?_, fun symbol' hsymbol' => ?_,
        fun symbol' hsymbol' bars' hbars' => ?_⟩
      · rw [hpending, hpending₁]
        split
        · next h => rw [List.filter_cons_of_neg (by simp [hupstream, h])]
        · next h => rw [List.filter_cons_of_pos (by simp [hupstream, h]), List.append_assoc]; rfl
      · have hsymbol : symbol' ≠ symbol := by
          rintro rfl
          rcases hsymbol' with h | h
          · exact h List.mem_cons_self
          · rw [hupstream] at h
            cases h
        obtain ⟨hc, hr⟩ := hframe symbol'
          (hsymbol'.imp_left fun h h' => h (List.mem_cons_of_mem _ h'))
        rw [hc, hr, hcollected₁, Function.update_of_ne hsymbol, hresult_ne symbol' hsymbol]
        exact ⟨rfl, rfl⟩
      · rcases List.mem_cons.mp hsymbol' with rfl | hsymbol'
        · cases hupstream.symm.trans hbars'
          obtain ⟨hc, hr⟩ := hframe symbol' (.inl hnotMem)
          rw [hc, hr, hcollected₁, Function.update_self, hresult₁]
          refine ⟨rfl, ?_⟩
          split
          · exact Function.update_self ..
          · rfl
        · rw [← hresult_ne symbol' (hne symbol' hsymbol')]
          exact hdone symbol' hsymbol' bars' hbars'

theorem nodup_eraseDups {α : Type} [DecidableEq α] (l : List α) : l.eraseDups.Nodup := by
  induction hn : l.length using Nat.strong_induction_on generalizing l with
  | _ n ih =>
  cases l with
  | nil => exact List.nodup_nil
  | cons a l =>
    rw [List.eraseDups_cons, List.nodup_cons]
    refine ⟨fun hmem => ?_, ih _ ?_ _ rfl⟩
    · simp [List.mem_eraseDups] at hmem
    · rw [← hn, List.length_cons]
      exact Nat.lt_succ_of_le (List.length_filter_le _ _)

/-- A symbol that still needs pages after the given number of newest bars. -/
def Open (upstream : Symbol → Option Bars) (count pageSize : ℕ) (last : Option Date) (page : ℕ)
    (symbol : Symbol) : Bool :=
  page = 0 || (upstream symbol).any fun bars => ¬ DoneAt bars count last (page * pageSize)

/-- The variables after the given number of pages. -/
structure Reading (upstream : Symbol → Option Bars) (symbols : List Symbol) (count pageSize : ℕ)
    (last : Option Date) (page : ℕ) (run : WindowRun Symbol) : Prop where
  pending : run.pending = symbols.filter (Open upstream count pageSize last page)
  collected : ∀ symbol ∈ run.pending, ∀ bars ∈ upstream symbol,
    run.collected symbol = collectedOf bars last (page * pageSize)
  result (symbol : Symbol) : run.result symbol =
    if symbol ∈ symbols ∧ ¬ Open upstream count pageSize last page symbol then
      (upstream symbol).map fun bars => (bars.window none last).takeLast count
    else none

omit [DecidableEq Symbol] in
theorem Open.mono {upstream : Symbol → Option Bars} {count pageSize : ℕ} {last : Option Date}
    {page : ℕ} {symbol : Symbol} (h : Open upstream count pageSize last (page + 1) symbol) :
    Open upstream count pageSize last page symbol := by
  unfold Open at h ⊢
  rw [Bool.or_eq_true, Option.any_eq_true] at h ⊢
  obtain hzero | ⟨bars, hbars, hopen⟩ := h
  · cases of_decide_eq_true hzero
  · refine .inr ⟨bars, hbars, ?_⟩
    simp only [decide_eq_true_eq] at hopen ⊢
    exact fun hdone => hopen (hdone.mono (Nat.mul_le_mul_right _ (Nat.le_succ page)))

omit [DecidableEq Symbol] in
theorem open_succ {upstream : Symbol → Option Bars} {count pageSize : ℕ} {last : Option Date}
    {page : ℕ} {symbol : Symbol} :
    Open upstream count pageSize last (page + 1) symbol =
      (upstream symbol).any fun bars => ¬ DoneAt bars count last ((page + 1) * pageSize) := by
  simp [Open]

theorem Reading.step {adjustment : Adjustment} {upstream : Symbol → Option Bars}
    (hserves : p.Serves adjustment upstream) {symbols : List Symbol} (hnodup : symbols.Nodup)
    {count pageSize : ℕ} (hpos : 0 < pageSize) {last : Option Date} {page : ℕ}
    {run : WindowRun Symbol} (h : Reading upstream symbols count pageSize last page run)
    (hpending : run.pending ≠ []) :
    ∃ run', p.readPage adjustment count pageSize last page run = .ok run' ∧
      Reading upstream symbols count pageSize last (page + 1) run' := by
  obtain ⟨response, raw, hresponse, hraw, hpages⟩ :=
    hserves run.pending pageSize (page * pageSize) hpending
  have hnodup' : run.pending.Nodup := h.pending ▸ hnodup.filter _
  have hcollected : ∀ symbol ∈ run.pending, ∀ bars ∈ upstream symbol,
      ({ run with pending := [] } : WindowRun Symbol).collected symbol =
        collectedOf bars last (page * pageSize) := h.collected
  obtain ⟨run', hrun', hpending', hframe, hdone⟩ :=
    takeSeries_foldlM count hpos hnodup' hpages hcollected
  simp only [← open_succ, List.nil_append] at hpending'
  refine ⟨run', ?_, ?_, ?_, fun symbol => ?_⟩
  · unfold readPage
    rw [hresponse, Except.ok_bind, hraw, Except.ok_bind]
    exact hrun'
  · rw [hpending', h.pending, List.filter_filter]
    refine List.filter_congr fun symbol _ => ?_
    rw [Bool.and_eq_left_iff_imp]
    exact Open.mono
  · intro symbol hsymbol
    rw [hpending'] at hsymbol
    exact fun bars hbars => (hdone symbol (List.mem_filter.mp hsymbol).1 bars hbars).1
  · have hresult := h.result symbol
    by_cases hmem : symbol ∈ run.pending
    · have hopen := hmem
      rw [h.pending, List.mem_filter] at hopen
      rw [if_neg fun h => h.2 hopen.2] at hresult
      cases hupstream : upstream symbol with
      | none => rw [(hframe symbol (.inr hupstream)).2, hresult, Option.map_none, ite_self]
      | some bars =>
        rw [(hdone symbol hmem bars hupstream).2, hresult, open_succ, hupstream]
        simp only [hopen.1, Option.any_some, decide_eq_true_eq, not_not, true_and, Option.map_some]
    · rw [(hframe symbol (.inl hmem)).2, hresult]
      rw [h.pending, List.mem_filter] at hmem
      by_cases hsymbol : symbol ∈ symbols
      · have hopen : ¬ Open upstream count pageSize last page symbol := fun h => hmem ⟨hsymbol, h⟩
        rw [if_pos ⟨hsymbol, hopen⟩, if_pos ⟨hsymbol, fun h => hopen (Open.mono h)⟩]
      · rw [if_neg fun h => hsymbol h.1, if_neg fun h => hsymbol h.1]

/-- The pages that are left. -/
theorem readPages_reading {adjustment : Adjustment} {upstream : Symbol → Option Bars}
    (hserves : p.Serves adjustment upstream) {symbols : List Symbol} (hnodup : symbols.Nodup)
    {count pageSize : ℕ} (hpos : 0 < pageSize) {last : Option Date} (left : ℕ) {page : ℕ}
    {run : WindowRun Symbol} (h : Reading upstream symbols count pageSize last page run) :
    ∃ run' page', p.readPages adjustment count pageSize last left page run = .ok run' ∧
      Reading upstream symbols count pageSize last page' run' ∧
      (run'.pending = [] ∧ page' ≤ page + left ∨ page' = page + left) := by
  induction left generalizing page run with
  | zero => exact ⟨run, page, rfl, h, .inr rfl⟩
  | succ left ih =>
    unfold readPages
    split
    · next hpending => exact ⟨run, page, rfl, h, .inl ⟨hpending, Nat.le_add_right _ _⟩⟩
    · next hpending =>
      obtain ⟨run', hrun', hreading⟩ := h.step hserves hnodup hpos hpending
      obtain ⟨run'', page', hrun'', hreading', hend⟩ := ih hreading
      refine ⟨run'', page', by rw [hrun', Except.ok_bind, hrun''], hreading', ?_⟩
      rcases hend with ⟨hnil, hle⟩ | heq
      · exact .inl ⟨hnil, by omega⟩
      · exact .inr (by omega)

/-- The bars the budget reads, of which the first page is the newest one. -/
def budget (p : EltdxProvider Symbol Code) (count : ℤ) : ℕ :=
  p.barMaxPages * min count.toNat p.barPageSize

/-- The budget does not reach the oldest bar, nor enough bars up to the cutoff. -/
def OverBudget (p : EltdxProvider Symbol Code) (count : ℤ) (last : Option Date) (bars : Bars) :
    Prop :=
  p.budget count ≤ bars.rows.length ∧
    ((bars.takeLast (p.budget count)).window none last).rows.length < count

def barRecords (symbol : Symbol) (adjustment : Adjustment) (bars : Bars) :
    List (ProviderRecord Symbol) :=
  bars.rows.map fun row => .bar symbol row.1 adjustment row.2

def budgetError : HubError :=
  ⟨.unavailable, "eltdx history coverage exceeds bounded paging budget"⟩

/-- The newest bars up to the cutoff of every symbol, or an error when a series is over budget. -/
theorem getDailyBarsWindow_eq {adjustment : Adjustment} {upstream : Symbol → Option Bars}
    (hserves : p.Serves adjustment upstream) (symbols : List Symbol) {count : ℤ}
    (hcount : 0 < count) (last : Option Date) :
    ((∃ symbol ∈ symbols, ∃ bars ∈ upstream symbol, p.OverBudget count last bars) →
      p.getDailyBarsWindow symbols adjustment count last = .error budgetError) ∧
    ((∀ symbol ∈ symbols, ∀ bars ∈ upstream symbol, ¬ p.OverBudget count last bars) →
      p.getDailyBarsWindow symbols adjustment count last = .ok fun symbol =>
        if symbol ∈ symbols then (upstream symbol).map fun bars =>
          barRecords symbol adjustment ((bars.window none last).takeLast count)
        else none) := by
  have hpos : 0 < min count.toNat p.barPageSize :=
    Nat.lt_min.mpr ⟨by omega, p.barPageSize_pos⟩
  have hstart : Reading upstream symbols.eraseDups count.toNat (min count.toNat p.barPageSize) last 0
      { pending := symbols.eraseDups, collected := fun _ => ∅, result := fun _ => none } := by
    refine ⟨?_, fun symbol _ bars _ => ?_, fun symbol => ?_⟩
    · exact (List.filter_eq_self.mpr fun symbol _ => rfl).symm
    · refine Table.ext_get? fun day => Option.ext fun bar => ?_
      rw [get?_collectedOf]
      simp
    · rw [if_neg fun h => h.2 rfl]
  obtain ⟨run, page, hrun, hreading, hend⟩ :=
    readPages_reading hserves (nodup_eraseDups symbols) hpos p.barMaxPages hstart
  have hover (bars : Bars) : p.OverBudget count last bars ↔
      ¬ DoneAt bars count.toNat last (p.budget count) := by
    unfold OverBudget DoneAt collectedOf
    omega
  have hmem (symbol : Symbol) : symbol ∈ run.pending ↔ symbol ∈ symbols ∧
      Open upstream count.toNat (min count.toNat p.barPageSize) last page symbol := by
    rw [hreading.pending, List.mem_filter, List.mem_eraseDups]
  unfold getDailyBarsWindow
  rw [if_neg (not_le.mpr hcount)]
  simp only [pure, Except.pure, Except.ok_bind, hrun]
  by_cases hpending : run.pending = []
  · have hclosed (symbol : Symbol) (hsymbol : symbol ∈ symbols) :
        ¬ Open upstream count.toNat (min count.toNat p.barPageSize) last page symbol :=
      fun hopen => List.ne_nil_of_mem ((hmem symbol).mpr ⟨hsymbol, hopen⟩) hpending
    have hpage : page ≤ p.barMaxPages := by
      rcases hend with ⟨-, hle⟩ | heq <;> omega
    constructor
    · rintro ⟨symbol, hsymbol, bars, hbars, hbudget⟩
      refine absurd ?_ (hclosed symbol hsymbol)
      have hnot : ¬ DoneAt bars count.toNat last (page * min count.toNat p.barPageSize) :=
        fun hdone => (hover bars).mp hbudget (hdone.mono (Nat.mul_le_mul_right _ hpage))
      unfold Open
      rw [Bool.or_eq_true, Option.any_eq_true]
      exact .inr ⟨bars, hbars, decide_eq_true hnot⟩
    · intro _
      rw [if_neg (not_not.mpr hpending)]
      refine congrArg Except.ok (funext fun symbol => ?_)
      rw [hreading.result symbol, Int.toNat_of_nonneg hcount.le]
      simp only [List.mem_eraseDups]
      by_cases hsymbol : symbol ∈ symbols
      · rw [if_pos ⟨hsymbol, hclosed symbol hsymbol⟩, if_pos hsymbol, Option.map_map]
        rfl
      · rw [if_neg fun h => hsymbol h.1, if_neg hsymbol, Option.map_none]
  · have hpage : page = p.barMaxPages := by
      rcases hend with ⟨hnil, -⟩ | heq
      · exact absurd hnil hpending
      · omega
    obtain ⟨symbol, hsymbol⟩ := List.exists_mem_of_ne_nil _ hpending
    obtain ⟨hsymbol, hopen⟩ := (hmem symbol).mp hsymbol
    unfold Open at hopen
    rw [Bool.or_eq_true, Option.any_eq_true] at hopen
    obtain hzero | ⟨bars, hbars, hnot⟩ := hopen
    · have := p.barMaxPages_pos
      have := of_decide_eq_true hzero
      omega
    · rw [hpage] at hnot
      have hbudget : p.OverBudget count last bars := (hover bars).mpr (of_decide_eq_true hnot)
      rw [if_pos hpending]
      exact ⟨fun _ => rfl, fun hnone => absurd hbudget (hnone symbol hsymbol bars hbars)⟩

end EltdxProvider

end Window

/-! ## A client with fixed series -/

section Fixed

variable {Symbol : Type} [DecidableEq Symbol]

def EltdxBar.ofRow (row : Date × DailyBar) : EltdxBar where
  time := some row.1
  openPrice := some row.2.openPrice
  high := some row.2.high
  low := some row.2.low
  close := some row.2.close
  volumeLots := some row.2.volume
  amount := row.2.amount.map some

theorem EltdxBar.record_ofRow (row : Date × DailyBar) :
    (EltdxBar.ofRow row).record = row.2.check := by
  obtain ⟨_, ⟨_, _, _, _, _, amount⟩⟩ := row
  cases amount <;> rfl

/-- A provider whose client has the given series. -/
def seriesProvider (upstream : Symbol → Option Bars) : EltdxProvider Symbol Symbol where
  getBars codes adjustment count start := .ok (.series (codes.map fun code =>
    (code, (upstream code).map fun bars =>
      { adjustMode := adjustment.value
        bars := some ((bars.page count start).map EltdxBar.ofRow) })))
  normalizeSymbol := .ok
  fullCode := id

theorem seriesProvider_serves {upstream : Symbol → Option Bars}
    (hvalid : ∀ symbol, ∀ bars ∈ upstream symbol, ∀ row ∈ bars.rows, row.2.check = .ok row.2)
    (adjustment : Adjustment) : (seriesProvider upstream).Serves adjustment upstream := by
  intro pending count start _
  have hread (series : Symbol → Option EltdxSeries) (codes : List Symbol)
      (before : Symbol → Option EltdxSeries) :
      ∃ raw, (codes.map fun code => (code, series code)).foldlM (fun raw (code, series) => do
        let symbol ← (seriesProvider upstream).normalizeSymbol code
        return Function.update raw symbol series) before = .ok raw ∧
        ∀ symbol, raw symbol = if symbol ∈ codes then series symbol else before symbol := by
    induction codes generalizing before with
    | nil => exact ⟨before, rfl, fun _ => rfl⟩
    | cons code codes ih =>
      obtain ⟨raw, hraw, hget⟩ := ih (Function.update before code (series code))
      refine ⟨raw, hraw, fun symbol => ?_⟩
      rw [hget]
      by_cases hcode : symbol = code
      · subst hcode
        simp
      · simp [hcode]
  obtain ⟨raw, hraw, hget⟩ := hread (fun code => (upstream code).map fun bars =>
    { adjustMode := adjustment.value
      bars := some ((bars.page count start).map EltdxBar.ofRow) }) pending fun _ => none
  refine ⟨_, raw, rfl, ?_, fun symbol hsymbol => ?_⟩
  · have hcodes : pending.map (seriesProvider upstream).fullCode = pending := List.map_id _
    rw [hcodes]
    exact hraw
  · rw [hget, if_pos hsymbol]
    cases hupstream : upstream symbol with
    | none => exact .none
    | some bars =>
      refine .some ⟨.inr rfl, _, bars.page count start, rfl, .refl _, ?_⟩
      rw [List.forall₂_map_left_iff, List.forall₂_same]
      intro row hrow
      refine ⟨rfl, ?_⟩
      rw [EltdxBar.record_ofRow]
      exact hvalid symbol bars hupstream row
        (List.mem_reverse.mp (List.mem_of_mem_drop (List.mem_of_mem_take hrow)))

end Fixed

/-- The days from 1 to 5, at one price. -/
def fiveDays : Bars :=
  .ofList ([1, 2, 3, 4, 5].map fun day => (day, ⟨10, 10, 10, 10, 1, none⟩))

example :
    (EltdxProvider.getDailyBarsWindow { seriesProvider (fun _ : ℕ => some fiveDays) with
        barPageSize := 2, barPageSize_pos := by decide, barPageSize_le := by decide }
      [600519] .none 3 (some 4)).map (fun bySymbol => (bySymbol 600519).map (·.length)) =
      .ok (some 3) := by
  decide +kernel

end Apanel
