import Apanel.Library.Causal
import Apanel.Library.IsoFormat
import Apanel.Library.Ranking
import Mathlib.Data.Prod.Lex
import Mathlib.Order.OrderDual

/-!
# Dividend yields

The yield of a security is what it paid in the twelve months up to its price, divided by the price.
The service computes it for one security, and for many with one query for each table. The batch
returns the yields of the single computation, unless the price of a security in it lies at an end of
the calendar: then it raises, and no security of the batch has a yield (`batchYield_eq_iff`).
-/

namespace Apanel

namespace DividendYield

/-! ## Dates -/

structure CalendarDate where
  year : ℕ
  month : ℕ
  day : ℕ
  valid : (1 ≤ year ∧ year ≤ 9999) ∧ (1 ≤ month ∧ month ≤ 12) ∧
    (1 ≤ day ∧ day ≤ daysInMonth year month)
deriving DecidableEq

namespace CalendarDate

def fields (d : CalendarDate) : ℕ ×ₗ ℕ ×ₗ ℕ := toLex (d.year, toLex (d.month, d.day))

theorem fields_injective : Function.Injective fields := by
  rintro ⟨year, month, day, _⟩ ⟨year', month', day', _⟩ h
  obtain ⟨rfl, h⟩ := Prod.mk.inj (toLex.injective h)
  obtain ⟨rfl, rfl⟩ := Prod.mk.inj (toLex.injective h)
  rfl

instance calendarOrder : LinearOrder CalendarDate := LinearOrder.lift' fields fields_injective

/-- The constructor `date`, which raises beyond the calendar. -/
def of? (year month day : ℕ) : Option CalendarDate :=
  if valid : (1 ≤ year ∧ year ≤ 9999) ∧ (1 ≤ month ∧ month ≤ 12) ∧
      (1 ≤ day ∧ day ≤ daysInMonth year month) then
    some ⟨year, month, day, valid⟩
  else none

end CalendarDate

/-- A time in UTC: its date and the microsecond of the day. -/
structure UtcTimestamp where
  date : CalendarDate
  microsecond : ℕ
deriving DecidableEq

namespace UtcTimestamp

def fields (t : UtcTimestamp) : CalendarDate ×ₗ ℕ := toLex (t.date, t.microsecond)

theorem fields_injective : Function.Injective fields := by
  rintro ⟨date, microsecond⟩ ⟨date', microsecond'⟩ h
  obtain ⟨rfl, rfl⟩ := Prod.mk.inj (toLex.injective h)
  rfl

instance timeOrder : LinearOrder UtcTimestamp := LinearOrder.lift' fields fields_injective

end UtcTimestamp

/-- `datetime.combine(day, time.min, tzinfo=UTC)`. -/
def startOfDay (day : CalendarDate) : UtcTimestamp := ⟨day, 0⟩

/-! ## Tables -/

/-- The decimals of the numeric columns. Sums and quotients are rounded to the precision of the
context; a quotient that is not defined is none. -/
class PyDecimal (δ : Type) where
  isFinite : δ → Bool
  isPositive : δ → Bool
  isNegative : δ → Bool
  zero : δ
  add : δ → δ → δ
  div : δ → δ → Option δ

structure QuoteSnapshot (δ : Type) where
  id : ℤ
  securityId : ℤ
  price : δ
  timestamp : UtcTimestamp

structure DailyBar (δ : Type) where
  id : ℤ
  securityId : ℤ
  tradeDate : CalendarDate
  close : δ
  adjustType : String

structure DividendEventRecord (δ : Type) where
  id : ℤ
  securityId : ℤ
  date : CalendarDate
  cashAmount : δ

/-- The rows of the three tables, in no order, under their primary keys. -/
structure MarketTables (δ : Type) where
  quotes : List (QuoteSnapshot δ)
  dailyBars : List (DailyBar δ)
  events : List (DividendEventRecord δ)
  quotes_nodup : (quotes.map (·.id)).Nodup
  dailyBars_nodup : (dailyBars.map (·.id)).Nodup
  events_nodup : (events.map (·.id)).Nodup

section Repository

variable {δ : Type}

/-- `ORDER BY timestamp DESC, id DESC`. -/
def quoteKey (quote : QuoteSnapshot δ) : (UtcTimestamp ×ₗ ℤ)ᵒᵈ :=
  .toDual (toLex (quote.timestamp, quote.id))

/-- `ORDER BY trade_date DESC, CASE adjust_type WHEN 'none' THEN 0 ELSE 1 END, id DESC`. -/
def dailyBarKey (bar : DailyBar δ) : CalendarDateᵒᵈ ×ₗ ℕ ×ₗ ℤᵒᵈ :=
  toLex (.toDual bar.tradeDate, toLex (if bar.adjustType = "none" then 0 else 1, .toDual bar.id))

/-- `ORDER BY date, id`. -/
def eventKey (event : DividendEventRecord δ) : CalendarDate ×ₗ ℤ := toLex (event.date, event.id)

/-- `ORDER BY security_id, date, id`. -/
def batchEventKey (event : DividendEventRecord δ) : ℤ ×ₗ CalendarDate ×ₗ ℤ :=
  toLex (event.securityId, eventKey event)

def uniqueIds (securityIds : List ℤ) : List ℤ := securityIds.eraseDups

/-- The dates from `startDate` to `endDate`, where these are given. -/
def Between (startDate endDate : Option CalendarDate) (event : DividendEventRecord δ) : Prop :=
  (∀ start ∈ startDate, start ≤ event.date) ∧ ∀ last ∈ endDate, event.date ≤ last

instance (startDate endDate : Option CalendarDate) (event : DividendEventRecord δ) :
    Decidable (Between startDate endDate event) :=
  inferInstanceAs (Decidable (_ ∧ _))

/-- `result[event.security_id].append(event)`. -/
def appendEvent (result : Table ℤ (List (DividendEventRecord δ))) (event : DividendEventRecord δ) :
    Table ℤ (List (DividendEventRecord δ)) :=
  result.insert event.securityId ((result.get? event.securityId).getD [] ++ [event])

namespace MarketTables

variable (t : MarketTables δ)

def latestQuote (securityId : ℤ) : Option (QuoteSnapshot δ) :=
  Ranking.first quoteKey (t.quotes.filter fun quote => quote.securityId = securityId)

def latestQuotesBatch (securityIds : List ℤ) : Table ℤ (QuoteSnapshot δ) :=
  Ranking.firstRows quoteKey (·.securityId)
    (t.quotes.filter fun quote => quote.securityId ∈ uniqueIds securityIds)

def latestDailyBar (securityId : ℤ) : Option (DailyBar δ) :=
  Ranking.first dailyBarKey
    (t.dailyBars.filter fun bar => bar.securityId = securityId ∧ bar.adjustType = "none")

def latestDailyBarsBatch (securityIds : List ℤ) : Table ℤ (DailyBar δ) :=
  Ranking.firstRows dailyBarKey (·.securityId)
    (t.dailyBars.filter fun bar =>
      bar.securityId ∈ uniqueIds securityIds ∧ bar.adjustType = "none")

def dividendEvents (securityId : ℤ) (startDate endDate : Option CalendarDate) :
    List (DividendEventRecord δ) :=
  Keyset.after eventKey
    (t.events.filter fun event => event.securityId = securityId ∧ Between startDate endDate event)
    none

def dividendEventsBatch (securityIds : List ℤ) (startDate endDate : Option CalendarDate) :
    Table ℤ (List (DividendEventRecord δ)) :=
  let ids := uniqueIds securityIds
  let rows := Keyset.after batchEventKey
    (t.events.filter fun event => event.securityId ∈ ids ∧ Between startDate endDate event) none
  rows.foldl appendEvent (Table.ofList (ids.map fun id => (id, [])))

end MarketTables

end Repository

/-! ## The service -/

/-- The exceptions that no handler of the service meets. -/
inductive Raised
  | valueError
  | overflowError
deriving DecidableEq

structure ApiError where
  code : String
  message : String
  statusCode : ℕ
deriving DecidableEq

structure CalculationError where
  code : String
  message : String

def CalculationError.toApiError (e : CalculationError) : ApiError := ⟨e.code, e.message, 422⟩

def priceNotFound : ApiError :=
  ⟨"PRICE_NOT_FOUND", "No quote or daily close is available for this security.", 404⟩

def invalidPrice : CalculationError :=
  ⟨"INVALID_PRICE", "Price must be greater than zero to calculate yield."⟩

def negativeDividend : CalculationError :=
  ⟨"INVALID_DIVIDEND_DATA", "Cash dividend amounts must not be negative."⟩

/-- The price of a yield, the time it is of and where it is from. -/
structure PricePoint (δ : Type) where
  price : δ
  asOf : UtcTimestamp
  priceSource : String

structure DividendYieldResult (δ : Type) where
  dividendTotal : δ
  price : δ
  dividendYield : δ
  asOf : UtcTimestamp
  priceSource : String
  windowStart : CalendarDate
  windowEnd : CalendarDate
  dividendEventCount : ℕ
deriving DecidableEq

/-- The twelve months up to a time. `date` raises in the year 0. -/
def ttmWindow (asOf : UtcTimestamp) : Except Raised (CalendarDate × CalendarDate) :=
  let last := asOf.date
  let priorYear := last.year - 1
  let priorMonthDay := min last.day (daysInMonth priorYear last.month)
  match CalendarDate.of? priorYear last.month priorMonthDay with
  | none => .error .valueError
  | some start => .ok (start, last)

section Calculation

variable {δ : Type} [PyDecimal δ]

def toDecimal (value : δ) (field : String) : Except CalculationError δ :=
  if PyDecimal.isFinite value then .ok value
  else .error ⟨if field = "price" then "INVALID_PRICE" else "INVALID_DIVIDEND_DATA",
    field ++ " must be finite."⟩

def normalizePrice (price : δ) : Except CalculationError δ := do
  let normalizedPrice ← toDecimal price "price"
  if PyDecimal.isPositive normalizedPrice then .ok normalizedPrice else .error invalidPrice

/-- The loop over the events. Those outside the window are not looked at. -/
def sumEvents (windowStart windowEnd : CalendarDate) :
    List (DividendEventRecord δ) → δ → ℕ → Except CalculationError (δ × ℕ)
  | [], total, eventCount => .ok (total, eventCount)
  | event :: events, total, eventCount =>
    if event.date < windowStart ∨ windowEnd < event.date then
      sumEvents windowStart windowEnd events total eventCount
    else
      toDecimal event.cashAmount "cash_amount" >>= fun amount =>
        if PyDecimal.isNegative amount then .error negativeDividend
        else sumEvents windowStart windowEnd events (PyDecimal.add total amount) (eventCount + 1)

def calculateTtmDividendYield (events : List (DividendEventRecord δ)) (point : PricePoint δ) :
    Except Raised (Except CalculationError (DividendYieldResult δ)) :=
  match normalizePrice point.price with
  | .error e => .ok (.error e)
  | .ok normalizedPrice =>
    (ttmWindow point.asOf).map fun window =>
      sumEvents window.1 window.2 events PyDecimal.zero 0 >>= fun sum =>
        match PyDecimal.div sum.1 normalizedPrice with
        | none => .error invalidPrice
        | some dividendYield =>
          .ok { dividendTotal := sum.1, price := normalizedPrice, dividendYield, asOf := point.asOf,
                priceSource := point.priceSource, windowStart := window.1, windowEnd := window.2,
                dividendEventCount := sum.2 }

end Calculation

section Service

variable {δ : Type} (shanghaiDate : UtcTimestamp → Option CalendarDate)

/-- The time zone is looked up only beside a daily bar. Its date may lie beyond the calendar. -/
def quoteIsAtLeastAsFresh (timestamp : UtcTimestamp) (dailyBar : Option (DailyBar δ)) :
    Except Raised Bool :=
  match dailyBar with
  | none => .ok true
  | some bar =>
    match shanghaiDate timestamp with
    | none => .error .overflowError
    | some day => .ok (bar.tradeDate < day)

def closePrice (dailyBar : Option (DailyBar δ)) : Except ApiError (PricePoint δ) :=
  match dailyBar with
  | none => .error priceNotFound
  | some bar => .ok ⟨bar.close, startOfDay bar.tradeDate, "DAILY_BAR_CLOSE"⟩

/-- The quote, or the close of the last bar if that is newer. Both computations have this text. -/
def choosePrice (quote : Option (QuoteSnapshot δ)) (dailyBar : Option (DailyBar δ)) :
    Except Raised (Except ApiError (PricePoint δ)) :=
  match quote with
  | none => .ok (closePrice dailyBar)
  | some quote =>
    (quoteIsAtLeastAsFresh shanghaiDate quote.timestamp dailyBar).map fun fresh =>
      if fresh then .ok ⟨quote.price, quote.timestamp, "QUOTE"⟩ else closePrice dailyBar

variable [PyDecimal δ] (t : MarketTables δ)

def calculateForSecurity (securityId : ℤ) :
    Except Raised (Except ApiError (DividendYieldResult δ)) := do
  let chosen ← choosePrice shanghaiDate (t.latestQuote securityId) (t.latestDailyBar securityId)
  match chosen with
  | .error e => .ok (.error e)
  | .ok point =>
    ttmWindow point.asOf >>= fun window =>
      (calculateTtmDividendYield (t.dividendEvents securityId window.1 window.2) point).map
        fun result => result.mapError CalculationError.toApiError

/-- The securities without a price. -/
def failures (chosen : List (ℤ × Except ApiError (PricePoint δ))) :
    List (ℤ × Except ApiError (DividendYieldResult δ)) :=
  chosen.filterMap fun c =>
    match c.2 with
    | .error e => some (c.1, .error e)
    | .ok _ => none

def priceData (chosen : List (ℤ × Except ApiError (PricePoint δ))) : List (ℤ × PricePoint δ) :=
  chosen.filterMap fun c =>
    match c.2 with
    | .error _ => none
    | .ok point => some (c.1, point)

/-- The caller may have read the quotes and the bars before. -/
def calculateForSecurities (securityIds : List ℤ) (quotes : Option (Table ℤ (QuoteSnapshot δ)))
    (dailyBars : Option (Table ℤ (DailyBar δ))) :
    Except Raised (Table ℤ (Except ApiError (DividendYieldResult δ))) := do
  let ids := uniqueIds securityIds
  let quoteRows := quotes.getD (t.latestQuotesBatch ids)
  let dailyBarRows := dailyBars.getD (t.latestDailyBarsBatch ids)
  let chosen ← ids.mapM fun id =>
    (choosePrice shanghaiDate (quoteRows.get? id) (dailyBarRows.get? id)).map fun c => (id, c)
  let windows ← (priceData chosen).mapM fun p => ttmWindow p.2.asOf
  let events := t.dividendEventsBatch ((priceData chosen).map (·.1)) (windows.map (·.1)).min?
    (windows.map (·.2)).max?
  let results ← (priceData chosen).mapM fun p =>
    (calculateTtmDividendYield ((events.get? p.1).getD []) p.2).map fun result =>
      (p.1, result.mapError CalculationError.toApiError)
  .ok (Table.ofList (failures chosen ++ results))

/-- What the single computation returns, if it does not raise. -/
def singleYield (securityId : ℤ) : Option (Except ApiError (DividendYieldResult δ)) :=
  (calculateForSecurity shanghaiDate t securityId).toOption

/-- What a batch returns for a security. -/
def batchYield (securityIds : List ℤ) (quotes : Option (Table ℤ (QuoteSnapshot δ)))
    (dailyBars : Option (Table ℤ (DailyBar δ))) (securityId : ℤ) :
    Option (Except ApiError (DividendYieldResult δ)) :=
  (calculateForSecurities shanghaiDate t securityIds quotes dailyBars).toOption.bind
    fun results => results.get? securityId

/-- The price is chosen by a time whose date in Shanghai lies beyond the calendar, or it is of its
first year, in which no window starts. -/
def OutsideCalendar (quote : Option (QuoteSnapshot δ)) (dailyBar : Option (DailyBar δ)) : Prop :=
  match quote, dailyBar with
  | none, none => False
  | none, some bar => bar.tradeDate.year = 1
  | some quote, none => quote.timestamp.date.year = 1
  | some quote, some bar =>
    match shanghaiDate quote.timestamp with
    | none => True
    | some day => (if bar.tradeDate < day then quote.timestamp.date else bar.tradeDate).year = 1

instance decidableOutsideCalendar : ∀ (quote : Option (QuoteSnapshot δ))
    (dailyBar : Option (DailyBar δ)), Decidable (OutsideCalendar shanghaiDate quote dailyBar)
  | none, none => instDecidableFalse
  | none, some bar => inferInstanceAs (Decidable (bar.tradeDate.year = 1))
  | some quote, none => inferInstanceAs (Decidable (quote.timestamp.date.year = 1))
  | some quote, some bar =>
    match hday : shanghaiDate quote.timestamp with
    | none => .isTrue (by simp only [OutsideCalendar, hday])
    | some day => decidable_of_iff
        ((if bar.tradeDate < day then quote.timestamp.date else bar.tradeDate).year = 1)
        (by simp only [OutsideCalendar, hday])

end Service

/-! ## What the queries return -/

section Queries

variable {δ : Type} (t : MarketTables δ)

@[simp] theorem mem_uniqueIds {securityIds : List ℤ} {id : ℤ} :
    id ∈ uniqueIds securityIds ↔ id ∈ securityIds :=
  List.mem_eraseDups

theorem keys_nodup {α κ : Type} {key : α → κ} {id : α → ℤ} {rows : List α} (idOf : κ → ℤ)
    (h : (rows.map id).Nodup) (hkey : ∀ row, idOf (key row) = id row) : (rows.map key).Nodup := by
  have hcomp : rows.map id = (rows.map key).map idOf := by simp [hkey]
  exact List.Nodup.of_map _ (hcomp ▸ h)

theorem keys_filter_nodup {α κ : Type} {key : α → κ} {rows : List α} (h : (rows.map key).Nodup)
    (p : α → Bool) : ((rows.filter p).map key).Nodup :=
  h.sublist (List.filter_sublist.map key)

theorem quoteKeys_nodup : (t.quotes.map quoteKey).Nodup :=
  keys_nodup (fun key => (ofLex key.ofDual).2) t.quotes_nodup fun _ => rfl

theorem dailyBarKeys_nodup : (t.dailyBars.map dailyBarKey).Nodup :=
  keys_nodup (fun key => (ofLex (ofLex key).2).2.ofDual) t.dailyBars_nodup fun _ => rfl

theorem eventKeys_nodup : (t.events.map eventKey).Nodup :=
  keys_nodup (fun key => (ofLex key).2) t.events_nodup fun _ => rfl

theorem batchEventKeys_nodup : (t.events.map batchEventKey).Nodup :=
  keys_nodup (fun key => (ofLex (ofLex key).2).2) t.events_nodup fun _ => rfl

variable {t} {ids : List ℤ} {id : ℤ}

theorem latestQuotesBatch_get? (hid : id ∈ ids) :
    (t.latestQuotesBatch ids).get? id = t.latestQuote id := by
  rw [MarketTables.latestQuotesBatch,
    Ranking.get?_firstRows (keys_filter_nodup (quoteKeys_nodup t) _),
    MarketTables.latestQuote, List.filter_filter]
  refine congrArg _ (List.filter_congr fun quote _ => ?_)
  by_cases h : quote.securityId = id <;> simp [h, hid]

theorem latestDailyBarsBatch_get? (hid : id ∈ ids) :
    (t.latestDailyBarsBatch ids).get? id = t.latestDailyBar id := by
  rw [MarketTables.latestDailyBarsBatch,
    Ranking.get?_firstRows (keys_filter_nodup (dailyBarKeys_nodup t) _),
    MarketTables.latestDailyBar, List.filter_filter]
  refine congrArg _ (List.filter_congr fun bar _ => ?_)
  by_cases h : bar.securityId = id <;> simp [h, hid]

theorem getD_foldl_appendEvent (rows : List (DividendEventRecord δ))
    (result : Table ℤ (List (DividendEventRecord δ))) (id : ℤ) :
    ((rows.foldl appendEvent result).get? id).getD [] =
      (result.get? id).getD [] ++ rows.filter (·.securityId = id) := by
  induction rows generalizing result with
  | nil => simp
  | cons row rows ih =>
    rw [List.foldl_cons, ih, appendEvent, Table.get?_insert, List.filter_cons]
    by_cases h : row.securityId = id
    · simp [h]
    · simp [h, Ne.symm h]

/-- The events of one security in a batch: all of the window of the batch, in order. -/
theorem dividendEventsBatch_getD (hid : id ∈ ids) (startDate endDate : Option CalendarDate) :
    ((t.dividendEventsBatch ids startDate endDate).get? id).getD [] =
      t.dividendEvents id startDate endDate := by
  have hempty : ((Table.ofList ((uniqueIds ids).map fun id =>
      (id, ([] : List (DividendEventRecord δ))))).get? id).getD [] = [] := by
    cases hget : (Table.ofList _).get? id with
    | none => rfl
    | some events =>
      rcases Table.of_get?_insertMany hget with hmem | hmem
      · obtain ⟨_, -, heq⟩ := List.mem_map.mp hmem
        exact (Prod.mk.inj heq).2.symm
      · cases hmem
  rw [MarketTables.dividendEventsBatch, getD_foldl_appendEvent, hempty, List.nil_append]
  set P : DividendEventRecord δ → Bool :=
    fun event => event.securityId ∈ uniqueIds ids ∧ Between startDate endDate event with hP
  have hstrict := Keyset.after_strict (keys_filter_nodup (batchEventKeys_nodup t) P) none
  have hsingle := Keyset.after_strict (keys_filter_nodup (eventKeys_nodup t)
    fun event => event.securityId = id ∧ Between startDate endDate event) none
  refine Keyset.eq_of_perm_of_strict ?_ ?_ hsingle
  · refine ((Keyset.after_none_perm _).filter _).trans (.trans ?_ (Keyset.after_none_perm _).symm)
    rw [List.filter_filter]
    refine .of_eq (List.filter_congr fun event _ => ?_)
    by_cases h : event.securityId = id <;> simp [hP, h, hid]
  · -- Within one security the order of the batch is that of the single query.
    refine (List.pairwise_filter.mpr (hstrict.imp fun hlt hrow hrow' => ?_))
    rcases Prod.Lex.lt_iff.mp hlt with hlt | ⟨-, hlt⟩
    · exact absurd ((of_decide_eq_true hrow).trans (of_decide_eq_true hrow').symm) hlt.ne
    · exact hlt

/-- The events of a window are those of a larger one that lie in it. -/
theorem dividendEvents_filter {first last : CalendarDate} {startDate endDate : Option CalendarDate}
    (hstart : ∀ start ∈ startDate, start ≤ first) (hend : ∀ d ∈ endDate, last ≤ d) :
    (t.dividendEvents id startDate endDate).filter
        (fun event => Between (some first) (some last) event) =
      t.dividendEvents id (some first) (some last) := by
  have hstrict (start last : Option CalendarDate) := Keyset.after_strict
    (keys_filter_nodup (eventKeys_nodup t)
      fun event => event.securityId = id ∧ Between start last event) none
  refine Keyset.eq_of_perm_of_strict ?_ ((hstrict startDate endDate).filter _)
    (hstrict (some first) (some last))
  refine ((Keyset.after_none_perm _).filter _).trans (.trans ?_ (Keyset.after_none_perm _).symm)
  rw [List.filter_filter]
  refine .of_eq (List.filter_congr fun event _ => ?_)
  have hwider : Between (some first) (some last) event → Between startDate endDate event := by
    rintro ⟨hfirst, hlast⟩
    exact ⟨fun start h => (hstart start h).trans (hfirst first rfl),
      fun d h => (hlast last rfl).trans (hend d h)⟩
  by_cases hin : Between (some first) (some last) event
  · simp [hin, hwider hin]
  · simp [hin]

end Queries

/-! ## What the calculation reads -/

section Calculation

variable {δ : Type} [PyDecimal δ]

theorem sumEvents_filter (first last : CalendarDate) (events : List (DividendEventRecord δ))
    (total : δ) (eventCount : ℕ) :
    sumEvents first last (events.filter fun event => Between (some first) (some last) event) total
      eventCount = sumEvents first last events total eventCount := by
  induction events generalizing total eventCount with
  | nil => rfl
  | cons event events ih =>
    rw [List.filter_cons]
    by_cases hout : event.date < first ∨ last < event.date
    · have hin : ¬ Between (some first) (some last) event := by
        rintro ⟨hfirst, hlast⟩
        exact hout.elim (hfirst first rfl).not_gt (hlast last rfl).not_gt
      rw [if_neg (by simpa using hin), ih, sumEvents, if_pos hout]
    · have hin : Between (some first) (some last) event := by
        rw [not_or, not_lt, not_lt] at hout
        exact ⟨fun _ h => Option.some.inj h ▸ hout.1, fun _ h => Option.some.inj h ▸ hout.2⟩
      rw [if_pos (by simpa using hin), sumEvents, if_neg hout, sumEvents, if_neg hout]
      simp only [ih]

/-- The calculation reads the events of its own window only. -/
theorem calculateTtmDividendYield_congr {events events' : List (DividendEventRecord δ)}
    {point : PricePoint δ} {window : CalendarDate × CalendarDate}
    (hwindow : ttmWindow point.asOf = .ok window)
    (h : events.filter (fun event => Between (some window.1) (some window.2) event) =
      events'.filter fun event => Between (some window.1) (some window.2) event) :
    calculateTtmDividendYield events point = calculateTtmDividendYield events' point := by
  have hsum : sumEvents window.1 window.2 events PyDecimal.zero 0 =
      sumEvents window.1 window.2 events' PyDecimal.zero 0 := by
    rw [← sumEvents_filter, h, sumEvents_filter]
  rw [calculateTtmDividendYield, calculateTtmDividendYield, hwindow]
  simp only [Except.map, hsum]

theorem calculateTtmDividendYield_ok {point : PricePoint δ} {window : CalendarDate × CalendarDate}
    (hwindow : ttmWindow point.asOf = .ok window) (events : List (DividendEventRecord δ)) :
    ∃ result, calculateTtmDividendYield events point = .ok result := by
  rw [calculateTtmDividendYield, hwindow]
  cases normalizePrice point.price with
  | error e => exact ⟨_, rfl⟩
  | ok price => exact ⟨_, rfl⟩

theorem ttmWindow_ok_iff {asOf : UtcTimestamp} :
    (∃ window, ttmWindow asOf = .ok window) ↔ asOf.date.year ≠ 1 := by
  obtain ⟨⟨hyear, hyear'⟩, hmonth, hday, -⟩ := asOf.date.valid
  have hdays : 1 ≤ daysInMonth (asOf.date.year - 1) asOf.date.month := by
    rw [daysInMonth]
    split_ifs <;> decide
  rw [ttmWindow, CalendarDate.of?]
  constructor
  · rintro ⟨window, h⟩ hone
    rw [dif_neg (by omega)] at h
    cases h
  · intro hone
    rw [dif_pos ⟨by omega, hmonth, le_min hday hdays, min_le_right _ _⟩]
    exact ⟨_, rfl⟩

end Calculation

/-! ## One security and many -/

section Service

variable {δ : Type} {shanghaiDate : UtcTimestamp → Option CalendarDate}

/-- A price is chosen and has a window, or there is none. -/
def Priced (shanghaiDate : UtcTimestamp → Option CalendarDate) (quote : Option (QuoteSnapshot δ))
    (dailyBar : Option (DailyBar δ)) : Prop :=
  ∃ c, choosePrice shanghaiDate quote dailyBar = .ok c ∧
    ∀ point, c = .ok point → ∃ window, ttmWindow point.asOf = .ok window

theorem priced_iff {quote : Option (QuoteSnapshot δ)} {dailyBar : Option (DailyBar δ)} :
    Priced shanghaiDate quote dailyBar ↔ ¬ OutsideCalendar shanghaiDate quote dailyBar := by
  simp only [Priced, ttmWindow_ok_iff]
  cases quote with
  | none =>
    cases dailyBar with
    | none => simp [choosePrice, closePrice, OutsideCalendar]
    | some bar => simp [choosePrice, closePrice, OutsideCalendar, startOfDay]
  | some quote =>
    cases dailyBar with
    | none => simp [choosePrice, quoteIsAtLeastAsFresh, OutsideCalendar, Except.map]
    | some bar =>
      cases hday : shanghaiDate quote.timestamp with
      | none => simp [choosePrice, quoteIsAtLeastAsFresh, hday, OutsideCalendar, Except.map]
      | some day =>
        simp only [choosePrice, quoteIsAtLeastAsFresh, hday, OutsideCalendar, Except.map,
          closePrice, startOfDay, decide_eq_true_eq, Except.ok.injEq]
        split <;> simp

variable [PyDecimal δ] {t : MarketTables δ} {ids : List ℤ} {id : ℤ}
  {quotes : Option (Table ℤ (QuoteSnapshot δ))} {dailyBars : Option (Table ℤ (DailyBar δ))}

theorem calculateForSecurity_eq_ok {outcome : Except ApiError (DividendYieldResult δ)} :
    calculateForSecurity shanghaiDate t id = .ok outcome ↔
      ∃ c, choosePrice shanghaiDate (t.latestQuote id) (t.latestDailyBar id) = .ok c ∧
        match c with
        | .error e => outcome = .error e
        | .ok point => ∃ window result, ttmWindow point.asOf = .ok window ∧
            calculateTtmDividendYield (t.dividendEvents id (some window.1) (some window.2)) point =
              .ok result ∧ outcome = result.mapError CalculationError.toApiError := by
  rw [calculateForSecurity, Except.bind_eq_ok]
  refine exists_congr fun c => and_congr_right fun _ => ?_
  cases c with
  | error e => simp [eq_comm]
  | ok point =>
    simp only [Except.bind_eq_ok]
    constructor
    · rintro ⟨window, hwindow, h⟩
      obtain ⟨result, hresult, rfl⟩ := Except.map_eq_ok.mp h
      exact ⟨window, result, hwindow, hresult, rfl⟩
    · rintro ⟨window, result, hwindow, hresult, rfl⟩
      exact ⟨window, hwindow, by rw [hresult]; rfl⟩

theorem calculateForSecurity_ok_iff :
    (∃ outcome, calculateForSecurity shanghaiDate t id = .ok outcome) ↔
      Priced shanghaiDate (t.latestQuote id) (t.latestDailyBar id) := by
  simp only [calculateForSecurity_eq_ok]
  constructor
  · rintro ⟨outcome, c, hc, h⟩
    refine ⟨c, hc, ?_⟩
    rintro point rfl
    obtain ⟨window, -, hwindow, -⟩ := h
    exact ⟨window, hwindow⟩
  · rintro ⟨c, hc, h⟩
    cases c with
    | error e => exact ⟨_, _, hc, rfl⟩
    | ok point =>
      obtain ⟨window, hwindow⟩ := h point rfl
      obtain ⟨result, hresult⟩ := calculateTtmDividendYield_ok hwindow
        (t.dividendEvents id (some window.1) (some window.2))
      exact ⟨_, _, hc, window, result, hwindow, hresult, rfl⟩

/-! ### The batch -/

omit [PyDecimal δ] in
theorem mem_failures {chosen : List (ℤ × Except ApiError (PricePoint δ))}
    {outcome : Except ApiError (DividendYieldResult δ)} :
    (id, outcome) ∈ failures chosen ↔ ∃ e, (id, .error e) ∈ chosen ∧ outcome = .error e := by
  rw [failures, List.mem_filterMap]
  constructor
  · rintro ⟨⟨k, c⟩, hmem, h⟩
    cases c with
    | error e =>
      obtain ⟨rfl, rfl⟩ := Prod.mk.inj (Option.some.inj h)
      exact ⟨e, hmem, rfl⟩
    | ok point => cases h
  · rintro ⟨e, hmem, rfl⟩
    exact ⟨_, hmem, rfl⟩

omit [PyDecimal δ] in
theorem mem_priceData {chosen : List (ℤ × Except ApiError (PricePoint δ))} {point : PricePoint δ} :
    (id, point) ∈ priceData chosen ↔ (id, .ok point) ∈ chosen := by
  rw [priceData, List.mem_filterMap]
  constructor
  · rintro ⟨⟨k, c⟩, hmem, h⟩
    cases c with
    | error e => cases h
    | ok point' =>
      obtain ⟨rfl, rfl⟩ := Prod.mk.inj (Option.some.inj h)
      exact hmem
  · exact fun hmem => ⟨_, hmem, rfl⟩

/-- What a batch goes through that does not raise. -/
structure Computes (shanghaiDate : UtcTimestamp → Option CalendarDate) (t : MarketTables δ)
    (ids : List ℤ) (quoteRows : Table ℤ (QuoteSnapshot δ)) (dailyBarRows : Table ℤ (DailyBar δ))
    (chosen : List (ℤ × Except ApiError (PricePoint δ)))
    (windows : List (CalendarDate × CalendarDate))
    (results : List (ℤ × Except ApiError (DividendYieldResult δ))) : Prop where
  prices : (uniqueIds ids).mapM (fun id =>
    (choosePrice shanghaiDate (quoteRows.get? id) (dailyBarRows.get? id)).map fun c => (id, c)) =
      .ok chosen
  frames : (priceData chosen).mapM (fun p => ttmWindow p.2.asOf) = .ok windows
  yields : (priceData chosen).mapM (fun p =>
    (calculateTtmDividendYield
      (((t.dividendEventsBatch ((priceData chosen).map (·.1)) (windows.map (·.1)).min?
        (windows.map (·.2)).max?).get? p.1).getD []) p.2).map fun result =>
          (p.1, result.mapError CalculationError.toApiError)) = .ok results

theorem calculateForSecurities_eq_ok
    {outcomes : Table ℤ (Except ApiError (DividendYieldResult δ))} :
    calculateForSecurities shanghaiDate t ids quotes dailyBars = .ok outcomes ↔
      ∃ chosen windows results,
        Computes shanghaiDate t ids (quotes.getD (t.latestQuotesBatch (uniqueIds ids)))
          (dailyBars.getD (t.latestDailyBarsBatch (uniqueIds ids))) chosen windows results ∧
        outcomes = Table.ofList (failures chosen ++ results) := by
  rw [calculateForSecurities]
  simp only [Except.bind_eq_ok, Except.ok.injEq]
  constructor
  · rintro ⟨chosen, hchosen, windows, hwindows, results, hresults, rfl⟩
    exact ⟨chosen, windows, results, ⟨hchosen, hwindows, hresults⟩, rfl⟩
  · rintro ⟨chosen, windows, results, ⟨hchosen, hwindows, hresults⟩, rfl⟩
    exact ⟨chosen, hchosen, windows, hwindows, results, hresults, rfl⟩

section Rows

variable {quoteRows : Table ℤ (QuoteSnapshot δ)} {dailyBarRows : Table ℤ (DailyBar δ)}
  {chosen : List (ℤ × Except ApiError (PricePoint δ))}
  {windows : List (CalendarDate × CalendarDate)}
  {results : List (ℤ × Except ApiError (DividendYieldResult δ))}

theorem Computes.mem_chosen
    (h : Computes shanghaiDate t ids quoteRows dailyBarRows chosen windows results)
    {c : Except ApiError (PricePoint δ)} :
    (id, c) ∈ chosen ↔
      id ∈ ids ∧ choosePrice shanghaiDate (quoteRows.get? id) (dailyBarRows.get? id) = .ok c := by
  rw [mem_of_mapM h.prices]
  constructor
  · rintro ⟨k, hk, hmap⟩
    obtain ⟨c', hc', heq⟩ := Except.map_eq_ok.mp hmap
    obtain ⟨rfl, rfl⟩ := Prod.mk.inj heq
    exact ⟨mem_uniqueIds.mp hk, hc'⟩
  · rintro ⟨hid, hc⟩
    exact ⟨id, mem_uniqueIds.mpr hid, by rw [hc]; rfl⟩

/-- The window of the batch holds the window of each of its securities. -/
theorem Computes.window
    (h : Computes shanghaiDate t ids quoteRows dailyBarRows chosen windows results)
    {point : PricePoint δ} (hpoint : (id, point) ∈ priceData chosen) :
    ∃ window, ttmWindow point.asOf = .ok window ∧
      (∀ start ∈ (windows.map (·.1)).min?, start ≤ window.1) ∧
        ∀ last ∈ (windows.map (·.2)).max?, window.2 ≤ last := by
  obtain ⟨window, hwindow⟩ := exists_mapM_eq_ok.mp ⟨_, h.frames⟩ _ hpoint
  have hmem : window ∈ windows := (mem_of_mapM h.frames).mpr ⟨_, hpoint, hwindow⟩
  refine ⟨window, hwindow, fun start hstart => ?_, fun last hlast => ?_⟩
  · exact (List.min?_eq_some_iff.mp hstart).2 _ (List.mem_map_of_mem hmem)
  · exact (List.max?_eq_some_iff.mp hlast).2 _ (List.mem_map_of_mem hmem)

theorem Computes.calculate
    (h : Computes shanghaiDate t ids quoteRows dailyBarRows chosen windows results)
    {point : PricePoint δ} (hpoint : (id, point) ∈ priceData chosen) :
    ∃ window, ttmWindow point.asOf = .ok window ∧
      calculateTtmDividendYield
        (((t.dividendEventsBatch ((priceData chosen).map (·.1)) (windows.map (·.1)).min?
          (windows.map (·.2)).max?).get? id).getD []) point =
        calculateTtmDividendYield (t.dividendEvents id (some window.1) (some window.2)) point := by
  obtain ⟨window, hwindow, hstart, hend⟩ := h.window hpoint
  refine ⟨window, hwindow, calculateTtmDividendYield_congr hwindow ?_⟩
  have hid : id ∈ (priceData chosen).map (·.1) := List.mem_map_of_mem hpoint
  have hself (d : CalendarDate) : ∀ d' ∈ some d, d' ≤ d := fun _ h => (Option.some.inj h).ge
  have hself' (d : CalendarDate) : ∀ d' ∈ some d, d ≤ d' := fun _ h => (Option.some.inj h).le
  rw [dividendEventsBatch_getD hid, dividendEvents_filter hstart hend,
    dividendEvents_filter (hself _) (hself' _)]

/-- What the batch returns for a security is what the single computation returns. -/
theorem Computes.outcome
    (h : Computes shanghaiDate t ids quoteRows dailyBarRows chosen windows results)
    (hquote : quoteRows.get? id = t.latestQuote id)
    (hdailyBar : dailyBarRows.get? id = t.latestDailyBar id)
    {outcome : Except ApiError (DividendYieldResult δ)}
    (hmem : (id, outcome) ∈ failures chosen ++ results) :
    calculateForSecurity shanghaiDate t id = .ok outcome := by
  rw [calculateForSecurity_eq_ok, ← hquote, ← hdailyBar]
  rcases List.mem_append.mp hmem with hfailure | hresult
  · obtain ⟨e, hchosen, rfl⟩ := mem_failures.mp hfailure
    exact ⟨_, (h.mem_chosen.mp hchosen).2, rfl⟩
  · obtain ⟨⟨k, point⟩, hpoint, hmap⟩ := (mem_of_mapM h.yields).mp hresult
    obtain ⟨result, hcalculate, heq⟩ := Except.map_eq_ok.mp hmap
    obtain ⟨rfl, rfl⟩ := Prod.mk.inj heq
    obtain ⟨window, hwindow, hsame⟩ := h.calculate hpoint
    exact ⟨_, (h.mem_chosen.mp (mem_priceData.mp hpoint)).2, window, result, hwindow,
      hsame ▸ hcalculate, rfl⟩

/-- Every security of the batch has an outcome. -/
theorem Computes.exists_outcome
    (h : Computes shanghaiDate t ids quoteRows dailyBarRows chosen windows results)
    (hid : id ∈ ids) :
    ∃ outcome, (id, outcome) ∈ failures chosen ++ results := by
  obtain ⟨c, hc⟩ := exists_mapM_eq_ok.mp ⟨_, h.prices⟩ _ (mem_uniqueIds.mpr hid)
  obtain ⟨c, hchoose, rfl⟩ := Except.map_eq_ok.mp hc
  have hchosen := h.mem_chosen.mpr ⟨hid, hchoose⟩
  cases c with
  | error e => exact ⟨_, List.mem_append_left _ (mem_failures.mpr ⟨e, hchosen, rfl⟩)⟩
  | ok point =>
    have hpoint := mem_priceData.mpr hchosen
    obtain ⟨y, hy⟩ := exists_mapM_eq_ok.mp ⟨_, h.yields⟩ _ hpoint
    obtain ⟨result, -, rfl⟩ := Except.map_eq_ok.mp hy
    exact ⟨_, List.mem_append_right _ ((mem_of_mapM h.yields).mpr ⟨_, hpoint, hy⟩)⟩

end Rows

/-! ### Batch and single computation -/

/-- The rows that a batch reads are the first ones of the batch queries, also where its caller has
read them. -/
structure ReadsLatest (t : MarketTables δ) (ids : List ℤ)
    (quotes : Option (Table ℤ (QuoteSnapshot δ))) (dailyBars : Option (Table ℤ (DailyBar δ))) : Prop where
  quotes : ∀ rows ∈ quotes, rows = t.latestQuotesBatch ids
  dailyBars : ∀ rows ∈ dailyBars, rows = t.latestDailyBarsBatch ids

omit [PyDecimal δ] in
theorem ReadsLatest.quote_get? (h : ReadsLatest t ids quotes dailyBars) (hid : id ∈ ids) :
    (quotes.getD (t.latestQuotesBatch (uniqueIds ids))).get? id = t.latestQuote id := by
  cases quotes with
  | none => exact latestQuotesBatch_get? (mem_uniqueIds.mpr hid)
  | some rows =>
    rw [h.quotes rows rfl]
    exact latestQuotesBatch_get? hid

omit [PyDecimal δ] in
theorem ReadsLatest.dailyBar_get? (h : ReadsLatest t ids quotes dailyBars) (hid : id ∈ ids) :
    (dailyBars.getD (t.latestDailyBarsBatch (uniqueIds ids))).get? id = t.latestDailyBar id := by
  cases dailyBars with
  | none => exact latestDailyBarsBatch_get? (mem_uniqueIds.mpr hid)
  | some rows =>
    rw [h.dailyBars rows rfl]
    exact latestDailyBarsBatch_get? hid

theorem calculateForSecurities_get? (h : ReadsLatest t ids quotes dailyBars)
    {outcomes : Table ℤ (Except ApiError (DividendYieldResult δ))}
    (houtcomes : calculateForSecurities shanghaiDate t ids quotes dailyBars = .ok outcomes)
    (hid : id ∈ ids) :
    ∃ outcome, outcomes.get? id = some outcome ∧
      calculateForSecurity shanghaiDate t id = .ok outcome := by
  obtain ⟨chosen, windows, results, hcomputes, rfl⟩ := calculateForSecurities_eq_ok.mp houtcomes
  obtain ⟨outcome, hmem⟩ := hcomputes.exists_outcome hid
  have hkey : id ∈ (failures chosen ++ results).map Prod.fst := List.mem_map_of_mem hmem
  obtain ⟨outcome, hget⟩ := Table.mem_keys.mp (Table.mem_keys_ofList.mpr hkey)
  refine ⟨outcome, hget, hcomputes.outcome (h.quote_get? hid) (h.dailyBar_get? hid) ?_⟩
  rcases Table.of_get?_insertMany hget with hmem | hmem
  · exact hmem
  · cases hmem

theorem calculateForSecurities_ok_iff (h : ReadsLatest t ids quotes dailyBars) :
    (∃ outcomes, calculateForSecurities shanghaiDate t ids quotes dailyBars = .ok outcomes) ↔
      ∀ id ∈ ids, Priced shanghaiDate (t.latestQuote id) (t.latestDailyBar id) := by
  constructor
  · rintro ⟨outcomes, houtcomes⟩ id hid
    obtain ⟨outcome, -, hsingle⟩ := calculateForSecurities_get? h houtcomes hid
    exact calculateForSecurity_ok_iff.mp ⟨outcome, hsingle⟩
  · intro hpriced
    simp only [calculateForSecurities_eq_ok]
    obtain ⟨chosen, hchosen⟩ := exists_mapM_eq_ok.mpr fun id hid => by
      obtain ⟨c, hc, -⟩ := hpriced id (mem_uniqueIds.mp hid)
      rw [← h.quote_get? (mem_uniqueIds.mp hid), ← h.dailyBar_get? (mem_uniqueIds.mp hid)] at hc
      exact ⟨(id, c), congrArg (Except.map fun c => (id, c)) hc⟩
    have hwindow : ∀ p ∈ priceData chosen, ∃ window, ttmWindow p.2.asOf = .ok window := by
      rintro ⟨id, point⟩ hpoint
      obtain ⟨k, hk, hmap⟩ := (mem_of_mapM hchosen).mp (mem_priceData.mp hpoint)
      obtain ⟨c, hc, heq⟩ := Except.map_eq_ok.mp hmap
      obtain ⟨rfl, rfl⟩ := Prod.mk.inj heq
      obtain ⟨c', hc', hframe⟩ := hpriced k (mem_uniqueIds.mp hk)
      rw [h.quote_get? (mem_uniqueIds.mp hk), h.dailyBar_get? (mem_uniqueIds.mp hk), hc'] at hc
      exact hframe point (Except.ok.inj hc)
    obtain ⟨windows, hwindows⟩ := exists_mapM_eq_ok.mpr hwindow
    obtain ⟨results, hresults⟩ := exists_mapM_eq_ok.mpr fun p hp => by
      obtain ⟨window, hframe⟩ := hwindow p hp
      obtain ⟨result, hresult⟩ := calculateTtmDividendYield_ok hframe
        (((t.dividendEventsBatch ((priceData chosen).map (·.1)) (windows.map (·.1)).min?
          (windows.map (·.2)).max?).get? p.1).getD [])
      exact ⟨(p.1, result.mapError CalculationError.toApiError),
        congrArg (Except.map fun result => (p.1, result.mapError CalculationError.toApiError))
          hresult⟩
    exact ⟨_, chosen, windows, results, ⟨hchosen, hwindows, hresults⟩, rfl⟩

omit [PyDecimal δ] in
/-- Without rows of its caller, a batch reads the first ones itself. -/
theorem readsLatest_none : ReadsLatest t ids none none :=
  ⟨fun _ h => (nomatch h), fun _ h => (nomatch h)⟩

/-- A batch returns the outcome of the single computation for a security of it, unless another
security makes the batch raise that does not make the single computation raise. -/
theorem batchYield_eq_iff (h : ReadsLatest t ids quotes dailyBars) (hid : id ∈ ids) :
    batchYield shanghaiDate t ids quotes dailyBars id = singleYield shanghaiDate t id ↔
      OutsideCalendar shanghaiDate (t.latestQuote id) (t.latestDailyBar id) ∨
        ∀ other ∈ ids, ¬ OutsideCalendar shanghaiDate (t.latestQuote other)
          (t.latestDailyBar other) := by
  have hsingle : (∃ outcome, calculateForSecurity shanghaiDate t id = .ok outcome) ↔
      ¬ OutsideCalendar shanghaiDate (t.latestQuote id) (t.latestDailyBar id) :=
    calculateForSecurity_ok_iff.trans priced_iff
  have hbatch : (∃ outcomes, calculateForSecurities shanghaiDate t ids quotes dailyBars =
      .ok outcomes) ↔ ∀ other ∈ ids, ¬ OutsideCalendar shanghaiDate (t.latestQuote other)
        (t.latestDailyBar other) := by
    rw [calculateForSecurities_ok_iff h]
    exact forall₂_congr fun _ _ => priced_iff
  rw [← hbatch, batchYield, singleYield]
  cases hrun : calculateForSecurities shanghaiDate t ids quotes dailyBars with
  | ok outcomes =>
    obtain ⟨outcome, hget, hone⟩ := calculateForSecurities_get? h hrun hid
    rw [hone]
    exact iff_of_true hget (.inr ⟨outcomes, rfl⟩)
  | error e =>
    cases hone : calculateForSecurity shanghaiDate t id with
    | ok outcome =>
      have hinside := hsingle.mp ⟨outcome, hone⟩
      refine iff_of_false nofun ?_
      rintro (houtside | ⟨_, hok⟩)
      · exact hinside houtside
      · cases hok
    | error e' =>
      refine iff_of_true rfl (.inl ?_)
      by_contra hinside
      obtain ⟨outcome, hok⟩ := hsingle.mpr hinside
      rw [hone] at hok
      cases hok

end Service

/-! ### A batch with a bar of the year 1 -/

section Example

instance exactDecimal : PyDecimal ℚ where
  isFinite _ := true
  isPositive x := 0 < x
  isNegative x := x < 0
  zero := 0
  add := (· + ·)
  div x y := if y = 0 then none else some (x / y)

/-- The date eight hours ahead, as in Shanghai since 1992. -/
def chinaStandardDate (t : UtcTimestamp) : Option CalendarDate :=
  if t.microsecond < 57600000000 then some t.date
  else
    (CalendarDate.of? t.date.year t.date.month (t.date.day + 1)).or
      ((CalendarDate.of? t.date.year (t.date.month + 1) 1).or
        (CalendarDate.of? (t.date.year + 1) 1 1))

def leapDay : CalendarDate := ⟨2024, 2, 29, by decide⟩

/-- Security 1 has a quote that is newer than its bar, security 3 only a bar; security 2 has a bar
of the first day. -/
def exampleTables : MarketTables ℚ where
  quotes := [⟨1, 1, 20, ⟨leapDay, 25200000000⟩⟩]
  dailyBars :=
    [⟨1, 1, ⟨2024, 2, 28, by decide⟩, 19, "none"⟩, ⟨2, 2, ⟨1, 1, 1, by decide⟩, 5, "none"⟩,
      ⟨3, 3, ⟨2024, 2, 28, by decide⟩, 8, "none"⟩]
  events := [⟨1, 1, ⟨2023, 2, 28, by decide⟩, 1⟩, ⟨2, 1, ⟨2023, 2, 27, by decide⟩, 3⟩,
    ⟨3, 3, ⟨2023, 7, 3, by decide⟩, 2⟩]
  quotes_nodup := by decide
  dailyBars_nodup := by decide
  events_nodup := by decide

theorem exampleTables_batchYield :
    (singleYield chinaStandardDate exampleTables 1).isSome ∧
    (singleYield chinaStandardDate exampleTables 3).isSome ∧
    [1, 3].map (batchYield chinaStandardDate exampleTables [1, 3] none none) =
      [1, 3].map (singleYield chinaStandardDate exampleTables) := by
  refine ⟨by decide +kernel, by decide +kernel, List.map_congr_left fun id hid => ?_⟩
  refine (batchYield_eq_iff readsLatest_none hid).mpr (.inr ?_)
  simp only [List.forall_mem_cons]
  decide +kernel

theorem not_batchYield_eq :
    ¬ ∀ (t : MarketTables ℚ) (ids : List ℤ), ∀ id ∈ ids,
      batchYield chinaStandardDate t ids none none id = singleYield chinaStandardDate t id := by
  intro h
  have hsingle : (singleYield chinaStandardDate exampleTables 1).isSome := by decide +kernel
  have hbatch : (batchYield chinaStandardDate exampleTables [1, 2] none none 1).isNone := by
    decide +kernel
  rw [← h exampleTables [1, 2] 1 List.mem_cons_self, ← Option.not_isNone, hbatch] at hsingle
  cases hsingle

end Example

end DividendYield

end Apanel
