import Apanel.Library.Table
import Mathlib.Data.Rat.Defs
import Mathlib.Tactic.Order

/-!
# Market facts and analysis streams

The two tables the Hub and the Backend share: the daily bars of one price series, and its
`analysis_streams` row, which carries the invalidation written by the Hub and the watermarks
written by the Backend. A missing stream row is the default one: whoever locks it first inserts it.
-/

namespace Apanel

/-- A calendar date, as a day count. -/
abbrev Date := ℤ

/-- The facts of one `daily_bars` row; security, date and adjustment type are its key. -/
structure DailyBar where
  openPrice : ℚ
  high : ℚ
  low : ℚ
  close : ℚ
  volume : ℚ
  amount : Option ℚ
  deriving DecidableEq

abbrev Bars := Table Date DailyBar

/-- One `analysis_streams` row; `δ` is the type of demand keys. -/
structure AnalysisStream (δ : Type) where
  sourceRevision : ℤ := 0
  syncGeneration : ℤ := 0
  demandGeneration : ℤ := 0
  publishedRevision : ℤ := -1
  publishedDemandGeneration : ℤ := -1
  demandKey : Option δ := none
  dirtyFrom : Option Date := none
  latestBarDate : Option Date := none
  indicatorThrough : Option Date := none
  stateThrough : Option Date := none
  historyDepth : ℤ := 0
  eventSequence : ℤ := 0
  stateGeneration : ℤ := 0

namespace AnalysisStream

variable {δ : Type}

/-- `invalidate_changed` for one stream whose facts changed from `first` on. -/
def invalidateChanged (stream : AnalysisStream δ) (first latest : Date) : AnalysisStream δ :=
  { stream with
    sourceRevision := stream.sourceRevision + 1
    dirtyFrom := match stream.dirtyFrom with
      | none => some first
      | some dirtyFrom => if dirtyFrom > first then some first else some dirtyFrom
    latestBarDate := match stream.latestBarDate with
      | none => some latest
      | some latestBarDate => if latestBarDate < latest then some latest else some latestBarDate }

/-- `mark_demand_changed` for one stream. -/
def markDemandChanged (stream : AnalysisStream δ) : AnalysisStream δ :=
  { stream with demandGeneration := stream.demandGeneration + 1 }

/-- `publication_is_current`. -/
def publicationIsCurrent (stream : AnalysisStream δ) : Bool :=
  if stream.sourceRevision = 0 ∧ stream.publishedRevision < 0 then true
  else stream.dirtyFrom.isNone && stream.publishedRevision = stream.sourceRevision &&
    stream.publishedDemandGeneration = stream.demandGeneration

theorem invalidateChanged_dirtyFrom (stream : AnalysisStream δ) (first latest : Date) :
    ∃ dirtyFrom, (stream.invalidateChanged first latest).dirtyFrom = some dirtyFrom ∧
      dirtyFrom ≤ first ∧ ∀ old, stream.dirtyFrom = some old → dirtyFrom ≤ old := by
  cases h : stream.dirtyFrom with
  | none => exact ⟨first, by simp [invalidateChanged, h], le_rfl, nofun⟩
  | some old =>
    by_cases hlt : first < old
    · exact ⟨first, by simp [invalidateChanged, h, hlt], le_rfl, fun _ e => by cases e; order⟩
    · exact ⟨old, by simp [invalidateChanged, h, hlt], not_lt.mp hlt, fun _ e => by cases e; rfl⟩

theorem invalidateChanged_latestBarDate (stream : AnalysisStream δ) (first latest : Date) :
    ∃ latestBarDate, (stream.invalidateChanged first latest).latestBarDate = some latestBarDate ∧
      latest ≤ latestBarDate ∧ ∀ old, stream.latestBarDate = some old → old ≤ latestBarDate := by
  cases h : stream.latestBarDate with
  | none => exact ⟨latest, by simp [invalidateChanged, h], le_rfl, nofun⟩
  | some old =>
    by_cases hlt : old < latest
    · exact ⟨latest, by simp [invalidateChanged, h, hlt], le_rfl, fun _ e => by cases e; order⟩
    · exact ⟨old, by simp [invalidateChanged, h, hlt], not_lt.mp hlt, fun _ e => by cases e; rfl⟩

end AnalysisStream

/-! ## Date windows -/

/-- The rows dated at or before `last`. -/
def Table.upTo {α : Type} (t : Table Date α) (last : Date) : Table Date α := t.filter (· ≤ last)

/-- The rows dated before `first`. -/
def Table.before {α : Type} (t : Table Date α) (first : Date) : Table Date α := t.filter (· < first)

/-- The rows dated in a closed window, either end open when absent. -/
def Table.window {α : Type} (t : Table Date α) (first last : Option Date) : Table Date α :=
  t.filter fun day => first.all (· ≤ day) && last.all (day ≤ ·)

@[simp] theorem Table.get?_upTo {α : Type} (t : Table Date α) (last day : Date) :
    (t.upTo last).get? day = if day ≤ last then t.get? day else none := by
  simp [Table.upTo]

@[simp] theorem Table.get?_before {α : Type} (t : Table Date α) (first day : Date) :
    (t.before first).get? day = if day < first then t.get? day else none := by
  simp [Table.before]

private theorem decide_le_of_lt (last k k' : Date) (h : k < k') (h' : decide (k' ≤ last) = true) :
    decide (k ≤ last) = true :=
  decide_eq_true (h.le.trans (of_decide_eq_true h'))

theorem Table.rows_eq_upTo_append {α : Type} (t : Table Date α) (last : Date) :
    t.rows = (t.upTo last).rows ++ t.rows.filter fun r => !(r.1 ≤ last : Bool) :=
  Table.rows_eq_filter_append (decide_le_of_lt last) t

theorem Table.upTo_zipKeys {α β : Type} (t : Table Date α) (values : List β) (last : Date) :
    (t.zipKeys values).upTo last =
      (t.upTo last).zipKeys (values.take (t.upTo last).rows.length) :=
  Table.filter_zipKeys (decide_le_of_lt last) t values

theorem Table.window_none_some {α : Type} (t : Table Date α) (last : Date) :
    t.window none (some last) = t.upTo last := by
  simp [Table.window, Table.upTo]

@[simp] theorem Table.get?_window {α : Type} (t : Table Date α) (first last : Option Date)
    (day : Date) :
    (t.window first last).get? day =
      if first.all (· ≤ day) ∧ last.all (day ≤ ·) then t.get? day else none := by
  simp [Table.window]

theorem Table.mem_keys_upTo {α : Type} {t : Table Date α} {last day : Date} :
    day ∈ (t.upTo last).keys ↔ day ∈ t.keys ∧ day ≤ last := by
  rw [Table.upTo, Table.mem_keys_filter, decide_eq_true_eq]

theorem Table.mem_keys_window {α : Type} {t : Table Date α} {first last : Option Date} {day : Date} :
    day ∈ (t.window first last).keys ↔
      day ∈ t.keys ∧ first.all (· ≤ day) ∧ last.all (day ≤ ·) := by
  rw [Table.window, Table.mem_keys_filter, Bool.and_eq_true]

theorem Table.le_of_mem_upTo_keys {α : Type} {t : Table Date α} {last day : Date}
    (h : day ∈ (t.upTo last).keys) : day ≤ last :=
  (Table.mem_keys_upTo.mp h).2

/-- The rows up to a cutoff are those up to the last of them. -/
theorem Table.window_eq_upTo {α : Type} {t : Table Date α} {cutoff : Option Date} {latest : Date}
    (h : (t.window none cutoff).maxKey? = some latest) :
    t.window none cutoff = t.upTo latest := by
  obtain ⟨x, hx⟩ := Table.mem_keys.mp (Table.mem_keys_of_maxKey? h)
  have hcutoff : cutoff.all (latest ≤ ·) := by
    rw [Table.get?_window] at hx
    split at hx
    · next h => exact h.2
    · cases hx
  refine Table.ext_get? fun day => Option.ext fun y => ?_
  rw [Table.get?_window, Table.get?_upTo]
  constructor
  · intro hy
    have hday := Table.le_maxKey? h (Table.mem_keys.mpr ⟨y, by rw [Table.get?_window]; exact hy⟩)
    split at hy
    · simpa [hday] using hy
    · cases hy
  · intro hy
    split at hy
    · next hday =>
      have : cutoff.all (day ≤ ·) := by
        cases cutoff with
        | none => rfl
        | some c => simp only [Option.all_some, decide_eq_true_eq] at hcutoff ⊢; order
      simpa [this] using hy
    · cases hy

end Apanel
