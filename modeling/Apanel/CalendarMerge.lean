import Apanel.Backend.Calendar
import Apanel.Library.Transition

/-!
# The calendar of two services

The annual import of the Backend (`app/services/trading_calendar_import.py`) and the session
validation of the Hub (`SqlAlchemyTradingCalendarRepository.validate`) merge an expected and an
actual session into one row of `trading_calendar`. Both load a row, assign its attributes and flush
what has changed. The import loads its rows FOR UPDATE; the validation does not, so that its flush may
meet a row that is not the one it has read.
-/

namespace Apanel

/-- What an import writes into `source_metadata`; `none` stands for an empty dictionary. -/
structure CalendarProvenance where
  year : ℕ
  sources : List (String × String)
  deriving DecidableEq

/-- A row of `trading_calendar`, less its timestamps. -/
structure CalendarRow where
  expectedOpen : Option Bool
  actualOpen : Option Bool
  status : CalendarStatus
  source : String
  sourceMetadata : Option CalendarProvenance
  deriving DecidableEq

/-! ## The annual calendar -/

structure AnnualCalendar where
  year : ℕ
  sources : List (String × String)
  closures : List (Date × Date)

/-- The proleptic Gregorian ordinal of the first day of a year, `date(year, 1, 1)`. -/
def firstDay (year : ℕ) : Date :=
  let before : ℤ := year - 1
  365 * before + before / 4 - before / 100 + before / 400 + 1

/-- `date.weekday`, Monday being 0. -/
def weekday (day : Date) : ℤ := (day + 6) % 7

/-- The days from the first to the last day of the year. -/
def AnnualCalendar.days (calendar : AnnualCalendar) : List Date :=
  let length := (firstDay (calendar.year + 1) - firstDay calendar.year).toNat
  (List.range length).map fun i : ℕ => firstDay calendar.year + (i : ℤ)

theorem AnnualCalendar.days_sorted (calendar : AnnualCalendar) :
    calendar.days.Pairwise (· < ·) :=
  List.pairwise_map.mpr (List.pairwise_lt_range.imp fun hlt => by simpa using hlt)

def AnnualCalendar.expectedOpen (calendar : AnnualCalendar) (day : Date) : Bool :=
  !(5 ≤ weekday day || calendar.closures.any fun range => range.1 ≤ day && day ≤ range.2)

/-- `expected_days`. -/
def AnnualCalendar.expectedDays (calendar : AnnualCalendar) : Table Date Bool where
  rows := calendar.days.map fun day => (day, calendar.expectedOpen day)
  sorted := List.pairwise_map.mpr calendar.days_sorted

def AnnualCalendar.provenance (calendar : AnnualCalendar) : CalendarProvenance :=
  ⟨calendar.year, calendar.sources⟩

/-! ## The two writers -/

/-- An attribute of a row after a flush: one that was assigned the value it had is left out of the
UPDATE. -/
def flushed {α : Type} [DecidableEq α] (read assigned stored : α) : α :=
  if assigned = read then stored else assigned

/-- The UPDATE of a row: `read` with new values, against what is stored when it is executed. -/
def CalendarRow.flush (read assigned stored : CalendarRow) : CalendarRow :=
  { expectedOpen := flushed read.expectedOpen assigned.expectedOpen stored.expectedOpen
    actualOpen := flushed read.actualOpen assigned.actualOpen stored.actualOpen
    status := flushed read.status assigned.status stored.status
    source := flushed read.source assigned.source stored.source
    sourceMetadata := flushed read.sourceMetadata assigned.sourceMetadata stored.sourceMetadata }

def openStatus (isOpen : Bool) : CalendarStatus := if isOpen then .opened else .closed

/-- The status the import assigns. -/
def importedStatus (actualOpen : Option Bool) (openExpected : Bool) : CalendarStatus :=
  if actualOpen.isSome && actualOpen ≠ some openExpected then .unknown else openStatus openExpected

/-- The row the import assigns to a day; `none` if it skips the day. -/
def AnnualCalendar.importRow (calendar : AnnualCalendar) (openExpected : Bool) :
    Option CalendarRow → Option CalendarRow
  | none =>
    some { expectedOpen := some openExpected, actualOpen := none
           status := importedStatus none openExpected
           source := "OFFICIAL_ANNUAL", sourceMetadata := some calendar.provenance }
  | some row =>
    if row.expectedOpen = some openExpected ∧ row.source = "OFFICIAL_ANNUAL" ∧
        row.sourceMetadata = some calendar.provenance then none
    else some { row with
      expectedOpen := some openExpected
      status := importedStatus row.actualOpen openExpected
      source := "OFFICIAL_ANNUAL"
      sourceMetadata := some calendar.provenance }

/-- The first day whose stored expected session differs. -/
def AnnualCalendar.conflict? (calendar : AnnualCalendar) (existing : Table Date CalendarRow) :
    Option Date :=
  (existing.rows.find? fun row =>
    row.2.expectedOpen.isSome && row.2.expectedOpen ≠ calendar.expectedDays.get? row.1).map (·.1)

structure ImportCounts where
  created : ℕ
  updated : ℕ
  actualConflicts : ℕ
  deriving DecidableEq

/-- The counts the import returns. -/
def AnnualCalendar.counts (calendar : AnnualCalendar) (existing : Table Date CalendarRow) :
    ImportCounts :=
  let rows := calendar.expectedDays.rows.map fun (day, openExpected) =>
    (openExpected, existing.get? day, calendar.importRow openExpected (existing.get? day))
  { created := rows.countP fun (_, row, _) => row.isNone
    updated := rows.countP fun (_, row, assigned) => row.isSome && assigned.isSome
    actualConflicts := rows.countP fun (openExpected, row, assigned) =>
      match assigned with
      | some assigned => assigned.status = .unknown
      | none => row.any fun row => row.actualOpen.isSome && row.actualOpen ≠ some openExpected }

/-- The status the validation assigns. -/
def validatedStatus (expectedOpen : Option Bool) (actualOpen : Bool) : CalendarStatus :=
  if expectedOpen.isSome && expectedOpen ≠ some actualOpen then .unknown else openStatus actualOpen

/-- The row the validation assigns. -/
def validateRow (actualOpen : Bool) (source : String) : Option CalendarRow → CalendarRow
  | none => { expectedOpen := none, actualOpen := some actualOpen, status := openStatus actualOpen
              source, sourceMetadata := none }
  | some row => { row with
      actualOpen := some actualOpen
      status := validatedStatus row.expectedOpen actualOpen }

/-! ## Transactions -/

/-- A transaction on the calendar. An import locks the rows it has found, one after the other, and
then flushes the days it has not found; a validation has loaded its row, or flushed it. -/
inductive CalendarTx
  | locking (calendar : AnnualCalendar) (replaceExisting : Bool) (toLock : List Date)
      (existing : Table Date CalendarRow)
  | inserting (calendar : AnnualCalendar) (existing : Table Date CalendarRow) (toInsert : List Date)
  | loaded (day : Date) (actualOpen : Bool) (source : String) (row : Option CalendarRow)
  | flushed (day : Date) (actualOpen : Bool) (row : CalendarRow)

/-- The committed rows, the owners of row locks and of keys with an uncommitted insert, and the open
transactions. `imported` and `validated` are the sessions of the last committed import and
validation of each day. -/
structure CalendarState where
  rows : Table Date CalendarRow
  locks : Table Date ℕ
  txs : Table ℕ CalendarTx
  imported : Table Date Bool
  validated : Table Date Bool

inductive CalendarAction
  | startImport (tx : ℕ) (calendar : AnnualCalendar) (replaceExisting : Bool)
  | lockRow (tx : ℕ) (day : Date)
  | prepare (tx : ℕ)
  | insertRow (tx : ℕ) (day : Date)
  | commitImport (tx : ℕ)
  | load (tx : ℕ) (day : Date) (actualOpen : Bool) (source : String)
  | flush (tx : ℕ)
  | commitValidation (tx : ℕ)
  | rollback (tx : ℕ)

namespace CalendarState

def initial (rows : Table Date CalendarRow) : CalendarState where
  rows
  locks := ∅
  txs := ∅
  imported := rows.filterMap fun _ row => row.expectedOpen
  validated := rows.filterMap fun _ row => row.actualOpen

def advance (s : CalendarState) (tx : ℕ) (phase : CalendarTx) : CalendarState :=
  { s with txs := s.txs.insert tx phase }

/-- Take the lock of a day and go on. -/
def acquire (s : CalendarState) (tx : ℕ) (day : Date) (phase : CalendarTx) : CalendarState :=
  { s with locks := s.locks.insert day tx, txs := s.txs.insert tx phase }

/-- The end of a transaction releases its locks. -/
def finish (s : CalendarState) (tx : ℕ) : CalendarState :=
  { s with
    locks := s.locks.filterMap fun _ owner => if owner = tx then none else some owner
    txs := s.txs.erase tx }

/-- A commit makes the writes of a transaction visible and ends it. -/
def commit (s : CalendarState) (tx : ℕ) (rows : Table Date CalendarRow)
    (imported validated : Table Date Bool) : CalendarState :=
  { s.finish tx with rows, imported, validated }

/-- The rows an import commits. -/
def importWrites (s : CalendarState) (calendar : AnnualCalendar)
    (existing : Table Date CalendarRow) : List (Date × CalendarRow) :=
  calendar.expectedDays.rows.filterMap fun (day, openExpected) =>
    (calendar.importRow openExpected (existing.get? day)).map fun assigned =>
      (day, match existing.get? day, s.rows.get? day with
        | some read, some stored => read.flush assigned stored
        | _, _ => assigned)

/-- A step that is not enabled changes nothing. An INSERT of a day that is stored meanwhile violates
the primary key and rolls its transaction back. -/
def step (s : CalendarState) : CalendarAction → CalendarState
  | .startImport tx calendar replaceExisting =>
    if tx ∈ s.txs.keys then s
    else
      let found := s.rows.keys.filter fun day =>
        firstDay calendar.year ≤ day ∧ day < firstDay (calendar.year + 1)
      s.advance tx (.locking calendar replaceExisting found ∅)
  | .lockRow tx day =>
    match s.txs.get? tx, s.rows.get? day with
    | some (.locking calendar replaceExisting toLock existing), some row =>
      if day ∈ toLock ∧ s.locks.get? day = none then
        s.acquire tx day (.locking calendar replaceExisting (toLock.erase day)
          (existing.insert day row))
      else s
    | _, _ => s
  | .prepare tx =>
    match s.txs.get? tx with
    | some (.locking calendar replaceExisting [] existing) =>
      if !replaceExisting && (calendar.conflict? existing).isSome then s.finish tx
      else s.advance tx
        (.inserting calendar existing (calendar.days.filter fun day => (existing.get? day).isNone))
    | _ => s
  | .insertRow tx day =>
    match s.txs.get? tx with
    | some (.inserting calendar existing toInsert) =>
      if day ∈ toInsert ∧ s.locks.get? day = none then
        if (s.rows.get? day).isSome then s.finish tx
        else s.acquire tx day (.inserting calendar existing (toInsert.erase day))
      else s
    | _ => s
  | .commitImport tx =>
    match s.txs.get? tx with
    | some (.inserting calendar existing []) =>
      s.commit tx (s.rows.insertMany (s.importWrites calendar existing))
        (s.imported.insertMany calendar.expectedDays.rows) s.validated
    | _ => s
  | .load tx day actualOpen source =>
    if tx ∈ s.txs.keys then s else s.advance tx (.loaded day actualOpen source (s.rows.get? day))
  | .flush tx =>
    match s.txs.get? tx with
    | some (.loaded day actualOpen source row) =>
      if s.locks.get? day = none then
        match row, s.rows.get? day with
        | none, none => s.acquire tx day (.flushed day actualOpen (validateRow actualOpen source none))
        | none, some _ => s.finish tx
        | some read, some stored =>
          s.acquire tx day (.flushed day actualOpen
            (read.flush (validateRow actualOpen source (some read)) stored))
        | some _, none => s.finish tx
      else s
    | _ => s
  | .commitValidation tx =>
    match s.txs.get? tx with
    | some (.flushed day actualOpen row) =>
      s.commit tx (s.rows.insert day row) s.imported (s.validated.insert day actualOpen)
    | _ => s
  | .rollback tx => s.finish tx

end CalendarState

/-! ## The merge -/

/-- UNKNOWN exactly when both sessions are known and differ, and otherwise the known one. -/
def mergedStatus : Option Bool → Option Bool → CalendarStatus
  | some openExpected, some actualOpen =>
    if openExpected = actualOpen then openStatus openExpected else .unknown
  | some openExpected, none => openStatus openExpected
  | none, some actualOpen => openStatus actualOpen
  | none, none => .unknown

theorem importedStatus_eq (actualOpen : Option Bool) (openExpected : Bool) :
    importedStatus actualOpen openExpected = mergedStatus (some openExpected) actualOpen := by
  cases actualOpen with
  | none => rfl
  | some actualOpen => cases actualOpen <;> cases openExpected <;> rfl

theorem validatedStatus_eq (expectedOpen : Option Bool) (actualOpen : Bool) :
    validatedStatus expectedOpen actualOpen = mergedStatus expectedOpen (some actualOpen) := by
  cases expectedOpen with
  | none => rfl
  | some expectedOpen => cases actualOpen <;> cases expectedOpen <;> rfl

theorem CalendarRow.flush_self (row assigned : CalendarRow) : row.flush assigned row = assigned := by
  have h {α : Type} [DecidableEq α] (a b : α) : flushed a b a = b := by
    rw [flushed]
    split
    · next heq => exact heq.symm
    · rfl
  simp only [CalendarRow.flush, h]

/-- A validation that has read `read` leaves a stored row merged: the attributes its UPDATE leaves out
are as it would set them, and the status it sets is that of the stored expected session. -/
structure ValidationKeeps (read stored : CalendarRow) (actualOpen : Bool) : Prop where
  actual : read.actualOpen = some actualOpen → stored.actualOpen = some actualOpen
  omitted : validatedStatus read.expectedOpen actualOpen = read.status →
    stored.status = validatedStatus stored.expectedOpen actualOpen
  assigned : validatedStatus read.expectedOpen actualOpen ≠ read.status →
    validatedStatus read.expectedOpen actualOpen = validatedStatus stored.expectedOpen actualOpen

theorem validate_flush_iff (read stored : CalendarRow) (actualOpen : Bool) (source : String) :
    let row := read.flush (validateRow actualOpen source (some read)) stored
    row.expectedOpen = stored.expectedOpen ∧
      (row.actualOpen = some actualOpen ∧
          row.status = mergedStatus stored.expectedOpen (some actualOpen) ↔
        ValidationKeeps read stored actualOpen) := by
  simp only [CalendarRow.flush, validateRow, flushed, if_true, true_and, ← validatedStatus_eq]
  constructor
  · rintro ⟨hactual, hstatus⟩
    exact ⟨by grind, by grind, by grind⟩
  · rintro ⟨hactual, homitted, hassigned⟩
    exact ⟨by grind, by grind⟩

/-- A row that has not changed since it was read is merged by the validation. -/
theorem ValidationKeeps.self {row : CalendarRow} {actualOpen : Bool} :
    ValidationKeeps row row actualOpen :=
  ⟨id, Eq.symm, fun _ => rfl⟩

def CalendarRow.Merged (row : CalendarRow) : Prop :=
  row.status = mergedStatus row.expectedOpen row.actualOpen

/-- What an import leaves of a day: its expected session, merged with the actual one. -/
theorem AnnualCalendar.importRow_merged (calendar : AnnualCalendar) (openExpected : Bool)
    {stored : Option CalendarRow} (h : ∀ row ∈ stored, row.Merged) :
    ∃ row, (calendar.importRow openExpected stored).or stored = some row ∧ row.Merged ∧
      row.expectedOpen = some openExpected ∧ row.actualOpen = stored.bind (·.actualOpen) := by
  cases stored with
  | none => exact ⟨_, rfl, importedStatus_eq none openExpected, rfl, rfl⟩
  | some stored =>
    rw [importRow]
    split
    · next hsame => exact ⟨stored, rfl, h stored rfl, hsame.1, rfl⟩
    · exact ⟨_, rfl, importedStatus_eq stored.actualOpen openExpected, rfl, rfl⟩

/-! ## Runs -/

namespace CalendarState

/-- Every stored row is merged, from the sessions committed last. -/
structure Merged (s : CalendarState) : Prop where
  row : ∀ day row, s.rows.get? day = some row → row.Merged
  imported : ∀ day, (s.rows.get? day).bind (·.expectedOpen) = s.imported.get? day
  validated : ∀ day, (s.rows.get? day).bind (·.actualOpen) = s.validated.get? day

/-- What the locks of a transaction say of the stored rows. -/
def Holds (s : CalendarState) (tx : ℕ) : CalendarTx → Prop
  | .locking _ _ _ existing => ∀ day row, existing.get? day = some row →
    s.locks.get? day = some tx ∧ s.rows.get? day = some row
  | .inserting calendar existing toInsert =>
    (∀ day row, existing.get? day = some row →
      s.locks.get? day = some tx ∧ s.rows.get? day = some row) ∧
    ∀ day ∈ calendar.days, existing.get? day = none →
      day ∈ toInsert ∨ s.locks.get? day = some tx ∧ s.rows.get? day = none
  | .loaded .. => True
  | .flushed day actualOpen row => s.locks.get? day = some tx ∧ row.Merged ∧
    row.actualOpen = some actualOpen ∧ row.expectedOpen = (s.rows.get? day).bind (·.expectedOpen)

structure Sound (s : CalendarState) : Prop extends s.Merged where
  holds : ∀ tx phase, s.txs.get? tx = some phase → s.Holds tx phase

/-- A transaction leaves the locks of another and what they protect. -/
def Leaves (s s' : CalendarState) (tx : ℕ) : Prop :=
  ∀ day, s.locks.get? day = some tx →
    s'.locks.get? day = some tx ∧ s'.rows.get? day = s.rows.get? day

variable {s s' : CalendarState} {tx : ℕ}

theorem Holds.leaves {phase : CalendarTx} (h : s.Holds tx phase) (hleaves : s.Leaves s' tx) :
    s'.Holds tx phase := by
  have hexisting {existing : Table Date CalendarRow} (hheld : ∀ day row,
      existing.get? day = some row → s.locks.get? day = some tx ∧ s.rows.get? day = some row) :
      ∀ day row, existing.get? day = some row →
        s'.locks.get? day = some tx ∧ s'.rows.get? day = some row := by
    intro day row hrow
    obtain ⟨hlock, hstored⟩ := hheld day row hrow
    obtain ⟨hlock', hsame⟩ := hleaves day hlock
    exact ⟨hlock', hsame.trans hstored⟩
  cases phase with
  | locking calendar replaceExisting toLock existing => exact hexisting h
  | inserting calendar existing toInsert =>
    refine ⟨hexisting h.1, fun day hday hnone => (h.2 day hday hnone).imp_right ?_⟩
    rintro ⟨hlock, hstored⟩
    obtain ⟨hlock', hsame⟩ := hleaves day hlock
    exact ⟨hlock', hsame.trans hstored⟩
  | loaded day actualOpen source row => trivial
  | flushed day actualOpen row =>
    obtain ⟨hlock, hmerged, hactual, hexpected⟩ := h
    obtain ⟨hlock', hsame⟩ := hleaves day hlock
    exact ⟨hlock', hmerged, hactual, hsame ▸ hexpected⟩

/-- A step of one transaction that leaves the others. -/
theorem Sound.next (tx : ℕ) (h : s.Sound) (hmerged : s'.Merged)
    (hothers : ∀ tx', tx' ≠ tx → s'.txs.get? tx' = s.txs.get? tx' ∧ s.Leaves s' tx')
    (hown : ∀ phase, s'.txs.get? tx = some phase → s'.Holds tx phase) : s'.Sound where
  toMerged := hmerged
  holds tx' phase hphase := by
    by_cases htx : tx' = tx
    · subst htx
      exact hown phase hphase
    · obtain ⟨hsame, hleaves⟩ := hothers tx' htx
      exact (h.holds tx' phase (hsame ▸ hphase)).leaves hleaves

theorem Sound.initial {rows : Table Date CalendarRow}
    (h : ∀ day row, rows.get? day = some row → row.Merged) : (initial rows).Sound where
  row := h
  imported day := by
    rw [CalendarState.initial, Table.get?_filterMap]
  validated day := by
    rw [CalendarState.initial, Table.get?_filterMap]
  holds tx phase hphase := by cases hphase

theorem Sound.advance (h : s.Sound) {phase : CalendarTx} (hphase : s.Holds tx phase) :
    (s.advance tx phase).Sound := by
  refine h.next tx ⟨h.row, h.imported, h.validated⟩ (fun tx' htx => ⟨?_, fun day hlock => ⟨hlock, rfl⟩⟩) ?_
  · exact Table.get?_insert_of_ne htx
  · intro phase' hphase'
    obtain rfl := Option.some.inj ((Table.get?_insert_self ..).symm.trans hphase')
    exact hphase.leaves fun day hlock => ⟨hlock, rfl⟩

theorem acquire_locks (s : CalendarState) (tx : ℕ) (day day' : Date) (phase : CalendarTx) :
    (s.acquire tx day phase).locks.get? day' = if day' = day then some tx else s.locks.get? day' :=
  Table.get?_insert ..

theorem Sound.acquire (h : s.Sound) {day : Date} (hfree : s.locks.get? day = none)
    {phase : CalendarTx} (hphase : (s.acquire tx day phase).Holds tx phase) :
    (s.acquire tx day phase).Sound := by
  refine h.next tx ⟨h.row, h.imported, h.validated⟩ (fun tx' htx => ⟨?_, fun day' hlock => ⟨?_, rfl⟩⟩) ?_
  · exact Table.get?_insert_of_ne htx
  · have hne : day' ≠ day := fun heq => by
      rw [heq, hfree] at hlock
      cases hlock
    exact (Table.get?_insert_of_ne hne).trans hlock
  · intro phase' hphase'
    obtain rfl := Option.some.inj ((Table.get?_insert_self ..).symm.trans hphase')
    exact hphase

/-- A commit that changes rows of its transaction only. -/
theorem Sound.commit (h : s.Sound) {rows : Table Date CalendarRow} {imported validated : Table Date Bool}
    (hrow : ∀ day row, rows.get? day = some row → row.Merged)
    (himported : ∀ day, (rows.get? day).bind (·.expectedOpen) = imported.get? day)
    (hvalidated : ∀ day, (rows.get? day).bind (·.actualOpen) = validated.get? day)
    (hleaves : ∀ day, s.locks.get? day ≠ some tx → rows.get? day = s.rows.get? day) :
    (s.commit tx rows imported validated).Sound := by
  refine h.next tx ⟨hrow, himported, hvalidated⟩
    (fun tx' htx => ⟨?_, fun day hlock => ⟨?_, hleaves day ?_⟩⟩) ?_
  · exact (Table.get?_erase ..).trans (if_neg htx)
  · refine (Table.get?_filterMap ..).trans ?_
    rw [hlock, Option.bind_some, if_neg htx]
  · rw [hlock]
    exact fun heq => htx (Option.some.inj heq)
  · intro phase hphase
    rw [CalendarState.commit, finish, Table.get?_erase, if_pos rfl] at hphase
    cases hphase

theorem Sound.finish (h : s.Sound) (tx : ℕ) : (s.finish tx).Sound :=
  h.commit h.row h.imported h.validated fun _ _ => rfl

theorem mem_days_of_expected {calendar : AnnualCalendar} {day : Date} {openExpected : Bool}
    (h : calendar.expectedDays.get? day = some openExpected) : day ∈ calendar.days := by
  obtain ⟨day', hday', heq⟩ := List.mem_map.mp (Table.get?_eq_some.mp h)
  obtain ⟨rfl, -⟩ := Prod.mk.inj heq
  exact hday'

/-- The rows an import writes, which are the ones it has locked and read. -/
theorem Holds.get?_importWrites {calendar : AnnualCalendar} {existing : Table Date CalendarRow}
    (h : s.Holds tx (.inserting calendar existing [])) (day : Date) :
    (s.rows.insertMany (s.importWrites calendar existing)).get? day =
      match calendar.expectedDays.get? day with
      | none => s.rows.get? day
      | some openExpected =>
        (calendar.importRow openExpected (s.rows.get? day)).or (s.rows.get? day) := by
  have hwrites : s.importWrites calendar existing =
      ((calendar.expectedDays.filterMap fun day openExpected =>
        (calendar.importRow openExpected (existing.get? day)).map fun assigned =>
          match existing.get? day, s.rows.get? day with
          | some read, some stored => read.flush assigned stored
          | _, _ => assigned).rows.map fun r => (r.1, id r.2)) := by
    simp only [importWrites, Table.filterMap, Option.map_map, id, Prod.mk.eta, List.map_id']
    rfl
  rw [hwrites, Table.get?_insertMany_rows, Table.get?_filterMap, Option.map_id, id]
  cases hday : calendar.expectedDays.get? day with
  | none => rfl
  | some openExpected =>
    rw [Option.bind_some]
    cases hexisting : existing.get? day with
    | none =>
      obtain hmem | ⟨-, hstored⟩ := h.2 day (mem_days_of_expected hday) hexisting
      · cases hmem
      · cases hrow : calendar.importRow openExpected none <;> simp [hstored, hrow]
    | some read =>
      rw [(h.1 day read hexisting).2]
      simp only [CalendarRow.flush_self, Option.map_id']

theorem Sound.commitImport (h : s.Sound) {calendar : AnnualCalendar}
    {existing : Table Date CalendarRow}
    (hphase : s.txs.get? tx = some (.inserting calendar existing [])) :
    (s.step (.commitImport tx)).Sound := by
  have hholds := h.holds tx _ hphase
  have hget := hholds.get?_importWrites
  have himported := s.imported.get?_insertMany_table calendar.expectedDays
  simp only [step, hphase]
  refine h.commit (fun day row hrow => ?_) (fun day => ?_) (fun day => ?_) fun day hlock => ?_
  · cases hday : calendar.expectedDays.get? day with
    | none => exact h.row day row (by rw [← hrow, hget, hday])
    | some openExpected =>
      obtain ⟨row', heq, hmerged, -⟩ := calendar.importRow_merged openExpected (h.row day)
      rw [hget, hday] at hrow
      obtain rfl := Option.some.inj (heq.symm.trans hrow)
      exact hmerged
  · rw [hget, himported]
    cases hday : calendar.expectedDays.get? day with
    | none => exact h.imported day
    | some openExpected =>
      obtain ⟨row', heq, -, hexpected, -⟩ := calendar.importRow_merged openExpected (h.row day)
      simp only [heq, Option.bind_some, hexpected, Option.some_or]
  · rw [hget, ← h.validated]
    cases hday : calendar.expectedDays.get? day with
    | none => rfl
    | some openExpected =>
      obtain ⟨row', heq, -, -, hactual⟩ := calendar.importRow_merged openExpected (h.row day)
      simp only [heq, Option.bind_some, hactual]
  · rw [hget]
    cases hday : calendar.expectedDays.get? day with
    | none => rfl
    | some openExpected =>
      cases hexisting : existing.get? day with
      | none =>
        obtain hmem | ⟨hown, -⟩ := hholds.2 day (mem_days_of_expected hday) hexisting
        · cases hmem
        · exact absurd hown hlock
      | some read => exact absurd (hholds.1 day read hexisting).1 hlock

theorem Sound.commitValidation (h : s.Sound) {day : Date} {actualOpen : Bool} {row : CalendarRow}
    (hphase : s.txs.get? tx = some (.flushed day actualOpen row)) :
    (s.step (.commitValidation tx)).Sound := by
  obtain ⟨hlock, hmerged, hactual, hexpected⟩ := h.holds tx _ hphase
  simp only [step, hphase]
  refine h.commit (fun day' row' hrow => ?_) (fun day' => ?_) (fun day' => ?_) fun day' hlock' => ?_
  · rw [Table.get?_insert] at hrow
    split at hrow
    · obtain rfl := Option.some.inj hrow
      exact hmerged
    · exact h.row day' row' hrow
  · rw [Table.get?_insert]
    split
    · next heq => rw [heq, ← h.imported, Option.bind_some, hexpected]
    · exact h.imported day'
  · rw [Table.get?_insert, Table.get?_insert]
    split
    · exact hactual
    · exact h.validated day'
  · exact Table.get?_insert_of_ne fun heq => hlock' (heq ▸ hlock)

/-- The row a transaction flushes without having locked it when it was read is one the UPDATE may be
merged with. -/
def FlushKeeps (s : CalendarState) (tx : ℕ) : Prop :=
  ∀ day actualOpen source read stored,
    s.txs.get? tx = some (.loaded day actualOpen source (some read)) →
    s.rows.get? day = some stored → s.locks.get? day = none →
      ValidationKeeps read stored actualOpen

/-- A row that is as the validation has read it. -/
theorem flushKeeps_of_unchanged (h : ∀ day actualOpen source row,
    s.txs.get? tx = some (.loaded day actualOpen source row) → s.rows.get? day = row) :
    s.FlushKeeps tx := by
  intro day actualOpen source read stored hphase hstored _
  obtain rfl := Option.some.inj ((h day actualOpen source _ hphase).symm.trans hstored)
  exact .self

theorem Sound.flush (h : s.Sound) (hkeeps : s.FlushKeeps tx) : (s.step (.flush tx)).Sound := by
  simp only [step]
  split
  · next day actualOpen source row hphase =>
    split
    · next hfree =>
      have hlock (phase : CalendarTx) : (s.acquire tx day phase).locks.get? day = some tx :=
        Table.get?_insert_self ..
      split
      · next hstored =>
        exact h.acquire hfree ⟨hlock _, validatedStatus_eq none actualOpen, rfl,
          by rw [CalendarState.acquire, hstored]; rfl⟩
      · exact h.finish tx
      · next read stored hstored =>
        obtain ⟨hexpected, hiff⟩ := validate_flush_iff read stored actualOpen source
        obtain ⟨hactual, hstatus⟩ :=
          hiff.mpr (hkeeps day actualOpen source read stored hphase hstored hfree)
        refine h.acquire hfree ⟨hlock _, ?_, hactual, ?_⟩
        · rw [CalendarRow.Merged, hstatus, hactual, hexpected]
        · rw [hexpected, CalendarState.acquire, hstored]
          rfl
      · exact h.finish tx
    · exact h
  · exact h

/-- Every step but the flush of a validation keeps the rows merged. -/
theorem Sound.step (h : s.Sound) {action : CalendarAction}
    (hkeeps : ∀ tx, action = .flush tx → s.FlushKeeps tx) : (s.step action).Sound := by
  cases action with
  | startImport tx calendar replaceExisting =>
    simp only [CalendarState.step]
    split
    · exact h
    · exact h.advance fun day row hrow => by cases hrow
  | lockRow tx day =>
    simp only [CalendarState.step]
    split
    · next calendar replaceExisting toLock existing row hphase hrow =>
      split
      · next hfree =>
        have hheld : ∀ day' row', existing.get? day' = some row' →
            s.locks.get? day' = some tx ∧ s.rows.get? day' = some row' := h.holds tx _ hphase
        refine h.acquire hfree.2 fun day' row' hrow' => ?_
        rw [Table.get?_insert] at hrow'
        rw [acquire_locks]
        split at hrow'
        · next heq =>
          obtain rfl := Option.some.inj hrow'
          exact ⟨if_pos heq, heq ▸ hrow⟩
        · next hne => exact (hheld day' row' hrow').imp_left fun hlock => (if_neg hne).trans hlock
      · exact h
    · exact h
  | prepare tx =>
    simp only [CalendarState.step]
    split
    · next calendar replaceExisting existing hphase =>
      split
      · exact h.finish tx
      · refine h.advance ⟨h.holds tx _ hphase, fun day hday hnone => .inl ?_⟩
        exact List.mem_filter.mpr ⟨hday, by simp [hnone]⟩
    · exact h
  | insertRow tx day =>
    simp only [CalendarState.step]
    split
    · next calendar existing toInsert hphase =>
      split
      · next hfree =>
        split
        · exact h.finish tx
        · next hrow =>
          obtain ⟨hheld, hinserts⟩ := h.holds tx _ hphase
          have hnone : s.rows.get? day = none := by simpa using hrow
          refine h.acquire hfree.2 ⟨fun day' row' hrow' => ?_, fun day' hday' hmissing => ?_⟩
          · rw [acquire_locks]
            refine (hheld day' row' hrow').imp_left fun hlock => (if_neg fun heq => ?_).trans hlock
            rw [heq, hfree.2] at hlock
            cases hlock
          · rw [acquire_locks]
            by_cases heq : day' = day
            · exact .inr ⟨if_pos heq, heq ▸ hnone⟩
            · refine (hinserts day' hday' hmissing).imp (fun hmem => ?_) fun hown => ?_
              · exact (List.mem_erase_of_ne heq).mpr hmem
              · exact ⟨(if_neg heq).trans hown.1, hown.2⟩
      · exact h
    · exact h
  | commitImport tx =>
    cases hphase : s.txs.get? tx with
    | none => simpa only [CalendarState.step, hphase] using h
    | some phase =>
      match phase with
      | .inserting calendar existing [] => exact h.commitImport hphase
      | .inserting _ _ (_ :: _) | .locking .. | .loaded .. | .flushed .. =>
        simpa only [CalendarState.step, hphase] using h
  | load tx day actualOpen source =>
    simp only [CalendarState.step]
    split
    · exact h
    · exact h.advance trivial
  | flush tx => exact h.flush (hkeeps tx rfl)
  | commitValidation tx =>
    cases hphase : s.txs.get? tx with
    | none => simpa only [CalendarState.step, hphase] using h
    | some phase =>
      match phase with
      | .flushed day actualOpen row => exact h.commitValidation hphase
      | .inserting .. | .locking .. | .loaded .. =>
        simpa only [CalendarState.step, hphase] using h
  | rollback tx => exact h.finish tx

/-- Runs without the flush of a validation. -/
theorem Sound.run (h : s.Sound) {actions : List CalendarAction}
    (hactions : ∀ action ∈ actions, ∀ tx, action ≠ .flush tx) :
    (Apanel.run CalendarState.step s actions).Sound := by
  have hstep (s : CalendarState) (action : CalendarAction) (hs : s.Sound)
      (haction : ∀ tx, action ≠ .flush tx) : (s.step action).Sound :=
    hs.step fun tx htx => absurd htx (haction tx)
  exact run_invariant hstep h (always_of_forall hactions s)

/-- An import that conflicts writes nothing. -/
theorem step_prepare_conflict {calendar : AnnualCalendar} {existing : Table Date CalendarRow}
    (hphase : s.txs.get? tx = some (.locking calendar false [] existing))
    (hconflict : (calendar.conflict? existing).isSome) : s.step (.prepare tx) = s.finish tx := by
  simp [step, hphase, hconflict]

/-- In every run from merged rows in which each validation keeps what it flushes on, the status of a
day is the merge of its sessions, which are those committed last; and an import that conflicts ends
without a change. -/
theorem merged_of_flushKeeps {rows : Table Date CalendarRow} {actions : List CalendarAction}
    (hrows : ∀ day row, rows.get? day = some row → row.Merged)
    (h : Always step (fun s action => ∀ tx, action = .flush tx → s.FlushKeeps tx) (initial rows)
      actions) :
    let s := run step (initial rows) actions
    (∀ day row, s.rows.get? day = some row →
      row.status = mergedStatus row.expectedOpen row.actualOpen) ∧
    (∀ day, (s.rows.get? day).bind (·.expectedOpen) = s.imported.get? day) ∧
    (∀ day, (s.rows.get? day).bind (·.actualOpen) = s.validated.get? day) ∧
    ∀ tx calendar existing, s.txs.get? tx = some (.locking calendar false [] existing) →
      (calendar.conflict? existing).isSome →
        (s.step (.prepare tx)).rows = s.rows ∧ (s.step (.prepare tx)).txs.get? tx = none := by
  have hstep (s : CalendarState) (action : CalendarAction) (hs : s.Sound)
      (hkeeps : ∀ tx, action = .flush tx → s.FlushKeeps tx) : (s.step action).Sound := hs.step hkeeps
  have hsound := run_invariant hstep (Sound.initial hrows) h
  refine ⟨hsound.row, hsound.imported, hsound.validated, ?_⟩
  intro tx calendar existing hphase hconflict
  rw [step_prepare_conflict hphase hconflict]
  exact ⟨rfl, (Table.get?_erase ..).trans (if_pos rfl)⟩

end CalendarState

/-! ## A validation that meets a correction of the schedule -/

instance (row : CalendarRow) : Decidable row.Merged :=
  inferInstanceAs (Decidable (_ = _))

def scheduledDay : Date := firstDay 2026 + 4

def scheduledRows : Table Date CalendarRow :=
  Table.ofList [(scheduledDay, ⟨some true, none, .opened, "OFFICIAL_ANNUAL", none⟩)]

theorem scheduledRows_merged : ∀ day row, scheduledRows.get? day = some row → row.Merged := by
  intro day row hrow
  obtain ⟨-, rfl⟩ := Prod.mk.inj (List.mem_singleton.mp (Table.get?_eq_some.mp hrow))
  decide

theorem merged_of_flushKeeps_validation :
    let s := run CalendarState.step (.initial scheduledRows)
      [.load 1 scheduledDay false "ELTDX", .flush 1, .commitValidation 1]
    (∀ day row, s.rows.get? day = some row →
      row.status = mergedStatus row.expectedOpen row.actualOpen) ∧
    (∀ day, (s.rows.get? day).bind (·.expectedOpen) = s.imported.get? day) ∧
    (∀ day, (s.rows.get? day).bind (·.actualOpen) = s.validated.get? day) ∧
    ∀ tx calendar existing, s.txs.get? tx = some (.locking calendar false [] existing) →
      (calendar.conflict? existing).isSome →
        (s.step (.prepare tx)).rows = s.rows ∧ (s.step (.prepare tx)).txs.get? tx = none := by
  refine CalendarState.merged_of_flushKeeps scheduledRows_merged ⟨?_, ?_, ?_, trivial⟩
  · intro tx htx
    cases htx
  · intro tx htx
    cases htx
    refine CalendarState.flushKeeps_of_unchanged fun day actualOpen source row hphase => ?_
    have hload : ((CalendarState.initial scheduledRows).step
        (.load 1 scheduledDay false "ELTDX")).txs.get? 1 =
          some (.loaded scheduledDay false "ELTDX" (scheduledRows.get? scheduledDay)) := rfl
    cases hload.symm.trans hphase
    rfl
  · intro tx htx
    cases htx

namespace CalendarState

/-- The days an import has not found, flushed one after the other while nobody holds them. -/
theorem run_insertRow {calendar : AnnualCalendar} {existing : Table Date CalendarRow} (tx : ℕ)
    (days : List Date) {s : CalendarState}
    (hphase : s.txs.get? tx = some (.inserting calendar existing days))
    (hdays : ∀ day ∈ days, s.locks.get? day = none ∧ s.rows.get? day = none) (hnodup : days.Nodup) :
    let s' := run step s (days.map (.insertRow tx))
    s'.txs.get? tx = some (.inserting calendar existing []) ∧
      (∀ tx' ≠ tx, s'.txs.get? tx' = s.txs.get? tx') ∧ s'.rows = s.rows ∧
      s'.imported = s.imported ∧ s'.validated = s.validated ∧
      ∀ day ∉ days, s'.locks.get? day = s.locks.get? day := by
  induction days generalizing s with
  | nil => exact ⟨hphase, fun _ _ => rfl, rfl, rfl, rfl, fun _ _ => rfl⟩
  | cons day days ih =>
    obtain ⟨⟨hfree, hrow⟩, hrest⟩ := List.forall_mem_cons.mp hdays
    obtain ⟨hnotMem, hnodup⟩ := List.nodup_cons.mp hnodup
    have hstep : s.step (.insertRow tx day) =
        s.acquire tx day (.inserting calendar existing days) := by
      simp [step, hphase, hfree, hrow]
    have hdays' : ∀ day' ∈ days,
        (s.acquire tx day (.inserting calendar existing days)).locks.get? day' = none ∧
          s.rows.get? day' = none := by
      intro day' hday'
      have hne : day' ≠ day := fun heq => hnotMem (heq ▸ hday')
      rw [acquire_locks, if_neg hne]
      exact hrest day' hday'
    obtain ⟨hphase', hothers, hrows, himported, hvalidated, hlocks⟩ :=
      ih (Table.get?_insert_self ..) hdays' hnodup
    rw [List.map_cons, run_cons, hstep]
    refine ⟨hphase', fun tx' htx => ?_, hrows, himported, hvalidated, fun day' hday' => ?_⟩
    · exact (hothers tx' htx).trans (Table.get?_insert_of_ne htx)
    · obtain ⟨hne, hmem⟩ := not_or.mp (mt List.mem_cons.mpr hday')
      rw [hlocks day' hmem, acquire_locks, if_neg hne]

end CalendarState

/-- An annual calendar in which the scheduled day is closed. -/
def correctedCalendar : AnnualCalendar := ⟨2026, [], [(scheduledDay, scheduledDay)]⟩

def missingDays : List Date :=
  correctedCalendar.days.filter fun day => (scheduledRows.get? day).isNone

/-- A validation loads the scheduled day, a correction of the schedule is imported, and the
validation flushes what it has read. -/
def racingActions : List CalendarAction :=
  [.load 1 scheduledDay true "ELTDX", .startImport 2 correctedCalendar true,
    .lockRow 2 scheduledDay, .prepare 2] ++
  missingDays.map (.insertRow 2) ++ [.commitImport 2, .flush 1, .commitValidation 1]

def scheduledRow : CalendarRow := ⟨some true, none, .opened, "OFFICIAL_ANNUAL", none⟩

/-- The state in which the import has prepared its flush. -/
def preparedRace : CalendarState where
  rows := scheduledRows
  locks := (∅ : Table Date ℕ).insert scheduledDay 2
  txs := ((∅ : Table ℕ CalendarTx).insert 1
    (.loaded scheduledDay true "ELTDX" (some scheduledRow))).insert 2
      (.inserting correctedCalendar scheduledRows missingDays)
  imported := Table.ofList [(scheduledDay, true)]
  validated := ∅

theorem run_preparedRace : run CalendarState.step (.initial scheduledRows)
    [.load 1 scheduledDay true "ELTDX", .startImport 2 correctedCalendar true,
      .lockRow 2 scheduledDay, .prepare 2] = preparedRace := rfl

theorem of_mem_missingDays {day : Date} (hday : day ∈ missingDays) :
    day ≠ scheduledDay ∧ scheduledRows.get? day = none := by
  have hnone : scheduledRows.get? day = none := by simpa using (List.mem_filter.mp hday).2
  refine ⟨fun heq => ?_, hnone⟩
  rw [heq] at hnone
  cases hnone

theorem expected_scheduledDay : correctedCalendar.expectedDays.get? scheduledDay = some false := by
  refine Table.get?_eq_some.mpr (List.mem_map.mpr ⟨scheduledDay, ?_, by decide⟩)
  exact List.mem_map.mpr ⟨4, List.mem_range.mpr (by decide), rfl⟩

theorem preparedRace_sound : preparedRace.Sound := by
  rw [← run_preparedRace]
  exact (CalendarState.Sound.initial scheduledRows_merged).run (by simp)

/-- What the import leaves when it commits: the scheduled day, which is closed now. -/
theorem commit_correctedCalendar {s : CalendarState} (hsound : s.Sound)
    (hphase : s.txs.get? 2 = some (.inserting correctedCalendar scheduledRows []))
    (hothers : ∀ tx ≠ 2, s.txs.get? tx = preparedRace.txs.get? tx) (hvalidated : s.validated = ∅)
    (hlock : s.locks.get? scheduledDay = some 2) :
    let s' := s.step (.commitImport 2)
    s'.txs.get? 1 = some (.loaded scheduledDay true "ELTDX" (some scheduledRow)) ∧
      (∀ tx ≠ 1, s'.txs.get? tx = none) ∧ s'.locks.get? scheduledDay = none ∧
      ∃ row, s'.rows.get? scheduledDay = some row ∧ row.expectedOpen = some false ∧
        row.actualOpen = none ∧ row.status = .closed := by
  have hcommitted := hsound.commitImport hphase
  have hstep : s.step (.commitImport 2) = s.commit 2
      (s.rows.insertMany (s.importWrites correctedCalendar scheduledRows))
      (s.imported.insertMany correctedCalendar.expectedDays.rows) s.validated := by
    simp only [CalendarState.step, hphase]
  have himport : (s.imported.insertMany correctedCalendar.expectedDays.rows).get? scheduledDay =
      some false := by
    rw [Table.get?_insertMany_table, expected_scheduledDay]
    rfl
  generalize s.rows.insertMany _ = rows at hstep
  generalize s.imported.insertMany _ = imported at hstep himport
  rw [hstep] at hcommitted
  refine ⟨?_, fun tx htx => ?_, ?_, ?_⟩
  · rw [hstep, CalendarState.commit, CalendarState.finish, Table.get?_erase, if_neg (by decide),
      hothers 1 (by decide), preparedRace, Table.get?_insert_of_ne (by decide),
      Table.get?_insert_self]
  · rw [hstep, CalendarState.commit, CalendarState.finish, Table.get?_erase]
    split
    · rfl
    · next hne =>
      rw [hothers tx hne, preparedRace, Table.get?_insert_of_ne hne, Table.get?_insert_of_ne htx]
      rfl
  · rw [hstep, CalendarState.commit, CalendarState.finish, Table.get?_filterMap, hlock]
    rfl
  · have hexpected := hcommitted.imported scheduledDay
    have hactual := hcommitted.validated scheduledDay
    simp only [CalendarState.commit, himport, hvalidated] at hexpected hactual
    obtain ⟨row, hrow, hopen⟩ := Option.bind_eq_some_iff.mp hexpected
    rw [hrow] at hactual
    have hnone : row.actualOpen = none := hactual
    have hstatus := hcommitted.row scheduledDay row hrow
    rw [CalendarRow.Merged, hopen, hnone] at hstatus
    rw [hstep]
    exact ⟨row, hrow, hopen, hnone, hstatus⟩

/-- The state in which the import has committed, with the validation still to flush. -/
theorem exists_committed :
    ∃ s row, run CalendarState.step (.initial scheduledRows) racingActions =
      run CalendarState.step s [.flush 1, .commitValidation 1] ∧
      s.txs.get? 1 = some (.loaded scheduledDay true "ELTDX" (some scheduledRow)) ∧
      (∀ tx ≠ 1, s.txs.get? tx = none) ∧ s.locks.get? scheduledDay = none ∧
      s.rows.get? scheduledDay = some row ∧ row.expectedOpen = some false ∧
      row.actualOpen = none ∧ row.status = .closed := by
  obtain ⟨hphase, hothers, -, -, hvalidated, hlocks⟩ :=
    CalendarState.run_insertRow (s := preparedRace) 2 missingDays
      (Table.get?_insert_self ..)
      (fun day hday => ⟨Table.get?_insert_of_ne (of_mem_missingDays hday).1,
        (of_mem_missingDays hday).2⟩)
      ((correctedCalendar.days_sorted.imp ne_of_lt).filter _)
  have hlock := (hlocks scheduledDay fun hmem => (of_mem_missingDays hmem).1 rfl).trans
    (Table.get?_insert_self ..)
  obtain ⟨hloaded, hended, hfree, row, hrow⟩ :=
    commit_correctedCalendar (preparedRace_sound.run (by simp)) hphase hothers hvalidated hlock
  refine ⟨_, row, ?_, hloaded, hended, hfree, hrow⟩
  rw [racingActions, run_append, run_append, run_preparedRace, run_cons]

/-- The UPDATE of the validation leaves out the status, which the row it has read had already. -/
theorem not_merged_race :
    (∀ day row, scheduledRows.get? day = some row → row.Merged) ∧
    let s := run CalendarState.step (.initial scheduledRows) racingActions
    (∀ tx, s.txs.get? tx = none) ∧
    ∃ row, s.rows.get? scheduledDay = some row ∧ row.expectedOpen = some false ∧
      row.actualOpen = some true ∧ row.status = .closed ∧
      row.status ≠ mergedStatus row.expectedOpen row.actualOpen := by
  obtain ⟨s, row, hrun, hphase, hothers, hfree, hrow, hexpected, -, hstatus⟩ := exists_committed
  refine ⟨scheduledRows_merged, ?_⟩
  have hflush : s.step (.flush 1) = s.acquire 1 scheduledDay (.flushed scheduledDay true
      (scheduledRow.flush (validateRow true "ELTDX" (some scheduledRow)) row)) := by
    simp [CalendarState.step, hphase, hfree, hrow]
  have hcommit : (s.step (.flush 1)).step (.commitValidation 1) = (s.step (.flush 1)).commit 1
      (s.rows.insert scheduledDay
        (scheduledRow.flush (validateRow true "ELTDX" (some scheduledRow)) row))
      s.imported (s.validated.insert scheduledDay true) := by
    rw [hflush]
    simp only [CalendarState.step, CalendarState.acquire, Table.get?_insert_self]
  rw [hrun, run_cons, run_cons, run_nil, hcommit]
  refine ⟨fun tx => ?_, _, Table.get?_insert_self .., hexpected, rfl, hstatus, ?_⟩
  · rw [CalendarState.commit, CalendarState.finish, Table.get?_erase]
    split
    · rfl
    · next hne =>
      rw [hflush]
      exact (Table.get?_insert_of_ne hne).trans (hothers tx hne)
  · have hstatus' : (scheduledRow.flush (validateRow true "ELTDX" (some scheduledRow)) row).status =
        .closed := hstatus
    have hexpected' :
        (scheduledRow.flush (validateRow true "ELTDX" (some scheduledRow)) row).expectedOpen =
          some false := hexpected
    rw [hstatus', hexpected']
    exact (by decide : CalendarStatus.closed ≠ mergedStatus (some false) (some true))

end Apanel
