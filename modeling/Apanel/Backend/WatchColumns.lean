import Apanel.Library.Causal
import Apanel.Library.Positions
import Apanel.Library.Transition

/-!
# The columns of watch tables

The operations of `WatchTableService` that write the columns of a table. Each holds the account lock
of its user from its first statement to its commit, so that a run is a sequence of whole operations;
one that raises, or whose commit fails, is rolled back. What a column shows is left open
(`TargetRules`): positions do not depend on it. Names, stocks and the demand marks of a table are
left out.
-/

namespace Apanel

/-- A row of `table_columns`; the target holds its type, indicator, state, parameters and view. -/
structure TableColumn (τ : Type) where
  watchTableId : ℕ
  target : τ
  position : ℕ
  visible : Bool
  width : Option ℕ

/-- The rows of both tables, with the sequences of their ids. -/
structure WatchTables (τ : Type) where
  owners : Table ℕ ℕ
  columns : Table ℕ (TableColumn τ)
  nextTableId : ℕ
  nextColumnId : ℕ

structure ColumnCreateRequest (ρ : Type) where
  target : ρ
  position : Option ℕ
  visible : Bool
  width : Option ℕ

structure ColumnUpdateRequest (υ : Type) where
  target : υ
  visible : Option Bool
  hidden : Option Bool
  position : Option ℕ
  order : Option ℕ
  width : Option ℕ

inductive ColumnError (ε : Type)
  | watchTableNotFound
  | watchColumnNotFound
  | watchColumnExists
  | invalidColumnOrder
  | invalidTarget (error : ε)

/-- How a target is validated, revised by an update, and compared by `find_duplicate_column`. -/
structure TargetRules (ρ υ τ ε : Type) where
  validate : ρ → Except ε τ
  revise : τ → υ → Except ε τ
  same : τ → τ → Bool

/-- `create` has the default columns of the user's settings. -/
inductive ColumnOperation (ρ υ τ ε : Type)
  | create (targets : Except ε (List τ))
  | deleteTable (tableId : ℕ)
  | add (tableId : ℕ) (request : ColumnCreateRequest ρ)
  | update (columnId : ℕ) (request : ColumnUpdateRequest υ)
  | delete (columnId : ℕ)
  | reorder (tableId : ℕ) (columnIds : List ℕ)

/-- A request of a user; `commits` says that its commit meets no integrity error. -/
structure ColumnRequest (ρ υ τ ε : Type) where
  userId : ℕ
  operation : ColumnOperation ρ υ τ ε
  commits : Bool

/-- Columns by table and position. -/
def TableColumn.placement (τ : Type) : Placement (TableColumn τ) ℕ where
  group := watchTableId
  position := position
  move column n := { column with position := n }
  group_move _ _ := rfl
  position_move _ _ := rfl

namespace WatchTables

variable {ρ υ τ ε : Type}

def empty : WatchTables τ := ⟨∅, ∅, 0, 0⟩

/-- `get_columns_owned`, for a table of the user. -/
def getColumns (db : WatchTables τ) (tableId : ℕ) : List (ℕ × TableColumn τ) :=
  (TableColumn.placement τ).arranged db.columns tableId

/-- `_owned`. -/
def owned (db : WatchTables τ) (tableId userId : ℕ) : Except (ColumnError ε) Unit :=
  if db.owners.get? tableId = some userId then .ok () else .error .watchTableNotFound

/-- `get_column_owned`. -/
def getColumnOwned (db : WatchTables τ) (columnId userId : ℕ) :
    Except (ColumnError ε) (TableColumn τ) :=
  match db.columns.get? columnId with
  | some column =>
    if db.owners.get? column.watchTableId = some userId then .ok column
    else .error .watchColumnNotFound
  | none => .error .watchColumnNotFound

/-- `find_duplicate_column`. -/
def findDuplicateColumn (rules : TargetRules ρ υ τ ε) (db : WatchTables τ) (tableId : ℕ)
    (target : τ) (excludeId : Option ℕ) : Option ℕ :=
  (db.columns.rows.find? fun row => row.2.watchTableId = tableId ∧ excludeId ≠ some row.1 ∧
    rules.same row.2.target target).map (·.1)

def nextColumnPosition (db : WatchTables τ) (tableId : ℕ) : ℕ :=
  match ((db.getColumns tableId).map (·.2.position)).max? with
  | some current => current + 1
  | none => 0

def create (db : WatchTables τ) (userId : ℕ) (targets : Except ε (List τ)) :
    Except (ColumnError ε) (WatchTables τ) := do
  let targets ← targets.mapError .invalidTarget
  let columns := targets.zipIdx.map fun (target, position) =>
    (db.nextColumnId + position, TableColumn.mk db.nextTableId target position true none)
  .ok { owners := db.owners.insert db.nextTableId userId
        columns := db.columns.insertMany columns
        nextTableId := db.nextTableId + 1
        nextColumnId := db.nextColumnId + targets.length }

/-- The columns of the table go with it. -/
def deleteTable (db : WatchTables τ) (userId tableId : ℕ) :
    Except (ColumnError ε) (WatchTables τ) := do
  db.owned tableId userId
  .ok { db with
    owners := db.owners.erase tableId
    columns := db.columns.filterMap fun _ column =>
      if column.watchTableId = tableId then none else some column }

def addColumn (rules : TargetRules ρ υ τ ε) (db : WatchTables τ) (userId tableId : ℕ)
    (request : ColumnCreateRequest ρ) : Except (ColumnError ε) (WatchTables τ) := do
  db.owned tableId userId
  let target ← (rules.validate request.target).mapError .invalidTarget
  if (db.findDuplicateColumn rules tableId target none).isSome then
    throw .watchColumnExists
  let next := db.nextColumnPosition tableId
  let (position, columns) := match request.position with
    | some position =>
      let position := min position next
      (position, (TableColumn.placement τ).shift db.columns tableId position)
    | none => (next, db.columns)
  .ok { db with
    columns := columns.insert db.nextColumnId
      ⟨tableId, target, position, request.visible, request.width⟩
    nextColumnId := db.nextColumnId + 1 }

/-- `_move_column`. -/
def moveColumn (columns : Table ℕ (TableColumn τ)) (columnId tableId position : ℕ) :
    Table ℕ (TableColumn τ) :=
  let rows := ((TableColumn.placement τ).arranged columns tableId).filter (·.1 ≠ columnId)
  let position := min position rows.length
  (TableColumn.placement τ).assign columns
    (Placement.moves (rows.map (·.1)) columnId position)

def updateColumn (rules : TargetRules ρ υ τ ε) (db : WatchTables τ) (userId columnId : ℕ)
    (request : ColumnUpdateRequest υ) : Except (ColumnError ε) (WatchTables τ) := do
  let column ← db.getColumnOwned columnId userId
  let target ← (rules.revise column.target request.target).mapError .invalidTarget
  let visible := match request.hidden with
    | some hidden => !hidden
    | none => request.visible.getD column.visible
  let updated := db.columns.insert columnId
    { column with target, visible, width := request.width.or column.width }
  let columns := match request.position.or request.order with
    | some position => moveColumn updated columnId column.watchTableId position
    | none => updated
  let moved := { db with columns }
  if (moved.findDuplicateColumn rules column.watchTableId target (some columnId)).isSome then
    throw .watchColumnExists
  .ok moved

def deleteColumn (db : WatchTables τ) (userId columnId : ℕ) :
    Except (ColumnError ε) (WatchTables τ) := do
  let _ ← db.getColumnOwned columnId userId
  .ok { db with columns := db.columns.erase columnId }

def reorderColumns (db : WatchTables τ) (userId tableId : ℕ) (columnIds : List ℕ) :
    Except (ColumnError ε) (WatchTables τ) := do
  db.owned tableId userId
  let expected := (db.getColumns tableId).map (·.1)
  if ¬columnIds.Nodup ∨ ¬(columnIds ⊆ expected ∧ expected ⊆ columnIds) then
    throw .invalidColumnOrder
  .ok { db with columns := (TableColumn.placement τ).assign db.columns columnIds.zipIdx }

def apply (rules : TargetRules ρ υ τ ε) (db : WatchTables τ) (userId : ℕ) :
    ColumnOperation ρ υ τ ε → Except (ColumnError ε) (WatchTables τ)
  | .create targets => db.create userId targets
  | .deleteTable tableId => db.deleteTable userId tableId
  | .add tableId request => db.addColumn rules userId tableId request
  | .update columnId request => db.updateColumn rules userId columnId request
  | .delete columnId => db.deleteColumn userId columnId
  | .reorder tableId columnIds => db.reorderColumns userId tableId columnIds

/-- One transaction. -/
def step (rules : TargetRules ρ υ τ ε) (db : WatchTables τ) (request : ColumnRequest ρ υ τ ε) :
    WatchTables τ :=
  match db.apply rules request.userId request.operation with
  | .ok db' => if request.commits then db' else db
  | .error _ => db

/-! ## What the operations do to the order of a table -/

/-- The columns of a table, in their order. -/
def columnIds (db : WatchTables τ) (tableId : ℕ) : List ℕ :=
  (TableColumn.placement τ).order db.columns tableId

/-- The positions of a table are different, and the ids come from the sequences. -/
structure Ordered (db : WatchTables τ) : Prop where
  distinct : (TableColumn.placement τ).Distinct db.columns
  columns_lt : ∀ t, ∀ k ∈ db.columnIds t, k < db.nextColumnId ∧ t < db.nextTableId
  owners_lt : ∀ t userId, db.owners.get? t = some userId → t < db.nextTableId

/-- What an operation does to the order of the columns of each table. -/
def OrderEffect (db db' : WatchTables τ) :
    ColumnOperation ρ υ τ ε → Prop
  | .create _ => ∀ t, t ≠ db.nextTableId → db'.columnIds t = db.columnIds t
  | .deleteTable tableId => ∀ t, t ≠ tableId → db'.columnIds t = db.columnIds t
  | .add tableId request =>
    (∀ t, t ≠ tableId → db'.columnIds t = db.columnIds t) ∧
      ∃ before after, db.columnIds tableId = before ++ after ∧
        db'.columnIds tableId = before ++ db.nextColumnId :: after ∧
          match request.position with
          | none => after = []
          | some position =>
            (∀ k ∈ before, (TableColumn.placement τ).at? db.columns k < position) ∧
              ∀ k ∈ after, position ≤ (TableColumn.placement τ).at? db.columns k
  | .update columnId request => ∀ t, db'.columnIds t =
      match request.position.or request.order with
      | some position =>
        if columnId ∈ db.columnIds t then
          ((db.columnIds t).filter (· ≠ columnId)).insertIdx
            (min position ((db.columnIds t).filter (· ≠ columnId)).length) columnId
        else db.columnIds t
      | none => db.columnIds t
  | .delete columnId => ∀ t, db'.columnIds t = (db.columnIds t).filter (· ≠ columnId)
  | .reorder tableId columnIds => db'.columnIds tableId = columnIds ∧
      ∀ t, t ≠ tableId → db'.columnIds t = db.columnIds t

variable {rules : TargetRules ρ υ τ ε} {db db' : WatchTables τ} {userId tableId columnId : ℕ}

theorem Ordered.arranges (h : Ordered db) (t : ℕ) :
    (TableColumn.placement τ).Arranges db.columns t (db.columnIds t) :=
  h.distinct.arranges t

theorem Ordered.empty : Ordered (empty : WatchTables τ) where
  distinct := fun _ _ _ _ hx => absurd hx (by simp [WatchTables.empty])
  columns_lt := fun t k hk => by
    obtain ⟨x, hx, -⟩ := Placement.mem_order.mp hk
    simp [WatchTables.empty] at hx
  owners_lt := fun _ _ h => by simp [WatchTables.empty] at h

/-- An operation is judged by the lists it arranges. -/
theorem Ordered.of_arranges (db' : WatchTables τ) {l : ℕ → List ℕ}
    (harranges : ∀ t, (TableColumn.placement τ).Arranges db'.columns t (l t))
    (hlt : ∀ t, ∀ k ∈ l t, k < db'.nextColumnId ∧ t < db'.nextTableId)
    (howners : ∀ t userId, db'.owners.get? t = some userId → t < db'.nextTableId) :
    Ordered db' ∧ ∀ t, db'.columnIds t = l t := by
  have hids (t : ℕ) : db'.columnIds t = l t := (harranges t).order_eq
  refine ⟨⟨Placement.distinct_of_arranges fun t => ⟨l t, harranges t⟩, fun t k hk => ?_, howners⟩,
    hids⟩
  rw [hids] at hk
  exact hlt t k hk

theorem owned_eq_ok {u : Unit} :
    (db.owned tableId userId : Except (ColumnError ε) Unit) = .ok u ↔
      db.owners.get? tableId = some userId := by
  rw [owned]
  split <;> simp_all

theorem getColumnOwned_eq_ok {column : TableColumn τ} :
    (db.getColumnOwned columnId userId : Except (ColumnError ε) (TableColumn τ)) = .ok column ↔
      db.columns.get? columnId = some column ∧
        db.owners.get? column.watchTableId = some userId := by
  rw [getColumnOwned]
  cases db.columns.get? columnId with
  | none => simp
  | some x =>
    simp only
    split
    · next howned =>
      constructor
      · intro h
        cases h
        exact ⟨rfl, howned⟩
      · rintro ⟨h, -⟩
        cases h
        rfl
    · next howned =>
      refine ⟨fun h => (nomatch h), ?_⟩
      rintro ⟨h, hcolumn⟩
      cases h
      exact absurd hcolumn howned

theorem Ordered.get?_nextColumnId (h : Ordered db) : db.columns.get? db.nextColumnId = none := by
  cases hget : db.columns.get? db.nextColumnId with
  | none => rfl
  | some x =>
    have hmem : db.nextColumnId ∈ db.columnIds x.watchTableId :=
      Placement.mem_order.mpr ⟨x, hget, rfl⟩
    exact absurd (h.columns_lt _ _ hmem).1 (lt_irrefl _)

theorem at?_lt_nextColumnPosition {k : ℕ} (hk : k ∈ db.columnIds tableId) :
    (TableColumn.placement τ).at? db.columns k < db.nextColumnPosition tableId := by
  obtain ⟨x, hx, hg⟩ := Placement.mem_order.mp hk
  have hmem : x.position ∈ (db.getColumns tableId).map (·.2.position) :=
    List.mem_map.mpr ⟨(k, x), Placement.mem_arranged.mpr ⟨hx, hg⟩, rfl⟩
  rw [Placement.at?_of_get? hx, nextColumnPosition]
  cases hmax : ((db.getColumns tableId).map (·.2.position)).max? with
  | none =>
    rw [List.max?_eq_none_iff.mp hmax] at hmem
    cases hmem
  | some current => exact Nat.lt_succ_of_le ((List.max?_eq_some_iff.mp hmax).2 _ hmem)

/-! ## The operations -/

theorem Ordered.deleteTable (h : Ordered db)
    (hdb : db.apply rules userId (.deleteTable tableId) = .ok db') :
    Ordered db' ∧ OrderEffect db db' (.deleteTable tableId : ColumnOperation ρ υ τ ε) := by
  rw [apply, WatchTables.deleteTable, Except.bind_eq_ok] at hdb
  obtain ⟨_, -, hdb⟩ := hdb
  cases hdb
  have hget (k : ℕ) (x : TableColumn τ) :
      (db.columns.filterMap fun _ column =>
        if column.watchTableId = tableId then none else some column).get? k = some x ↔
      db.columns.get? k = some x ∧ x.watchTableId ≠ tableId := by
    rw [Table.get?_filterMap, Option.bind_eq_some_iff]
    constructor
    · rintro ⟨y, hy, hx⟩
      split at hx
      · cases hx
      · next hne =>
        cases hx
        exact ⟨hy, hne⟩
    · rintro ⟨hx, hne⟩
      exact ⟨x, hx, if_neg hne⟩
  have hspec := Ordered.of_arranges
    { db with
      owners := db.owners.erase tableId
      columns := db.columns.filterMap fun _ column =>
        if column.watchTableId = tableId then none else some column }
    (l := fun t => if t = tableId then [] else db.columnIds t)
    (fun t => by
      by_cases ht : t = tableId
      · simp only [if_pos ht]
        refine ⟨.nil, fun k => ⟨fun hk => (nomatch hk), ?_⟩⟩
        rintro ⟨x, hx, hg⟩
        exact absurd (hg.trans ht) ((hget k x).mp hx).2
      · simp only [if_neg ht]
        refine (h.arranges t).congr fun k x hg => (hget k x).trans ?_
        exact and_iff_left fun heq => ht (hg.symm.trans heq))
    (fun t k hk => by
      by_cases ht : t = tableId
      · simp [ht] at hk
      · simp only [if_neg ht] at hk
        exact h.columns_lt t k hk)
    (fun t owner ht => by
      simp only [Table.get?_erase] at ht
      split at ht
      · cases ht
      · exact h.owners_lt t owner ht)
  exact ⟨hspec.1, fun t ht => (hspec.2 t).trans (if_neg ht)⟩

theorem Ordered.deleteColumn (h : Ordered db)
    (hdb : db.apply rules userId (.delete columnId) = .ok db') :
    Ordered db' ∧ OrderEffect db db' (.delete columnId : ColumnOperation ρ υ τ ε) := by
  rw [apply, WatchTables.deleteColumn, Except.bind_eq_ok] at hdb
  obtain ⟨_, -, hdb⟩ := hdb
  cases hdb
  exact Ordered.of_arranges { db with columns := db.columns.erase columnId }
    (l := fun t => (db.columnIds t).filter (· ≠ columnId))
    (fun t => (h.arranges t).filter fun k => decide (k ≠ columnId))
    (fun t k hk => h.columns_lt t k (List.mem_filter.mp hk).1) h.owners_lt

theorem Ordered.reorderColumns (h : Ordered db) {columnIds : List ℕ}
    (hdb : db.apply rules userId (.reorder tableId columnIds) = .ok db') :
    Ordered db' ∧ OrderEffect db db' (.reorder tableId columnIds : ColumnOperation ρ υ τ ε) := by
  rw [apply, WatchTables.reorderColumns, Except.bind_eq_ok] at hdb
  obtain ⟨_, -, hdb⟩ := hdb
  dsimp only at hdb
  split at hdb
  · cases hdb
  · next hvalid =>
    rw [not_or, not_not, not_not] at hvalid
    obtain ⟨hnodup, hsub, hsup⟩ := hvalid
    cases hdb
    have hmem (k : ℕ) : k ∈ columnIds ↔ k ∈ db.columnIds tableId :=
      ⟨fun hk => hsub hk, fun hk => hsup hk⟩
    have hspec := Ordered.of_arranges
      { db with columns := (TableColumn.placement τ).assign db.columns columnIds.zipIdx }
      (l := fun t => if t = tableId then columnIds else db.columnIds t)
      (fun t => by
        by_cases ht : t = tableId
        · subst ht
          rw [if_pos rfl]
          exact (h.arranges t).assign_zipIdx hnodup hmem
        · rw [if_neg ht]
          refine (h.arranges t).assign_other (by rwa [List.zipIdx_map_fst]) fun p hp x hx hg => ?_
          have hp' : p.1 ∈ db.columnIds tableId := (hmem _).mp (List.fst_mem_of_mem_zipIdx hp)
          obtain ⟨y, hy, hgy⟩ := Placement.mem_order.mp hp'
          rw [hx] at hy
          cases hy
          exact ht (hg.symm.trans hgy))
      (fun t k hk => by
        by_cases ht : t = tableId
        · subst ht
          rw [if_pos rfl, hmem] at hk
          exact h.columns_lt t k hk
        · rw [if_neg ht] at hk
          exact h.columns_lt t k hk)
      h.owners_lt
    exact ⟨hspec.1, (hspec.2 tableId).trans (if_pos rfl), fun t ht => (hspec.2 t).trans (if_neg ht)⟩

theorem Ordered.addColumn (h : Ordered db) {request : ColumnCreateRequest ρ}
    (hdb : db.apply rules userId (.add tableId request) = .ok db') :
    Ordered db' ∧ OrderEffect db db' (.add tableId request : ColumnOperation ρ υ τ ε) := by
  rw [apply, WatchTables.addColumn, Except.bind_eq_ok] at hdb
  obtain ⟨_, howned, hdb⟩ := hdb
  rw [Except.bind_eq_ok] at hdb
  obtain ⟨target, -, hdb⟩ := hdb
  dsimp only at hdb
  split at hdb
  · cases hdb
  · have htable := h.owners_lt _ _ (owned_eq_ok.mp howned)
    have hnew := h.get?_nextColumnId
    -- the new column stands in the list of its table, the other tables are as they were
    have hother (columns : Table ℕ (TableColumn τ)) (position : ℕ) (t : ℕ) (ht : t ≠ tableId)
        (hcolumns : (TableColumn.placement τ).Arranges columns t (db.columnIds t))
        (hnone : columns.get? db.nextColumnId = none) :
        (TableColumn.placement τ).Arranges (columns.insert db.nextColumnId
          ⟨tableId, target, position, request.visible, request.width⟩) t (db.columnIds t) :=
      hcolumns.insert_other (fun y hy => by simp [hnone] at hy) (Ne.symm ht)
    have hlt (before after : List ℕ) (hsplit : ∀ k ∈ before ++ after, k ∈ db.columnIds tableId)
        (t k : ℕ) (hk : k ∈ if t = tableId then before ++ db.nextColumnId :: after
          else db.columnIds t) : k < db.nextColumnId + 1 ∧ t < db.nextTableId := by
      by_cases ht : t = tableId
      · subst ht
        rw [if_pos rfl, List.mem_append, List.mem_cons, or_left_comm, ← List.mem_append] at hk
        obtain rfl | hk := hk
        · exact ⟨Nat.lt_succ_self _, htable⟩
        · obtain ⟨hid, ht⟩ := h.columns_lt t k (hsplit k hk)
          exact ⟨Nat.lt_succ_of_lt hid, ht⟩
      · rw [if_neg ht] at hk
        obtain ⟨hid, ht⟩ := h.columns_lt t k hk
        exact ⟨Nat.lt_succ_of_lt hid, ht⟩
    rw [OrderEffect]
    cases hposition : request.position with
    | none =>
      rw [hposition] at hdb
      cases hdb
      have hspec := Ordered.of_arranges
        { db with
          columns := db.columns.insert db.nextColumnId
            ⟨tableId, target, db.nextColumnPosition tableId, request.visible, request.width⟩
          nextColumnId := db.nextColumnId + 1 }
        (l := fun t => if t = tableId then db.columnIds tableId ++ [db.nextColumnId]
          else db.columnIds t)
        (fun t => by
          by_cases ht : t = tableId
          · subst ht
            rw [if_pos rfl]
            exact (h.arranges t).insert_last hnew rfl rfl fun a ha => at?_lt_nextColumnPosition ha
          · rw [if_neg ht]
            exact hother _ _ t ht (h.arranges t) hnew)
        (fun t k hk => hlt (db.columnIds tableId) [] (fun k hk => by simpa using hk) t k hk)
        h.owners_lt
      exact ⟨hspec.1, fun t ht => (hspec.2 t).trans (if_neg ht), db.columnIds tableId, [],
        (List.append_nil _).symm, (hspec.2 tableId).trans (if_pos rfl), rfl⟩
    | some position =>
      rw [hposition] at hdb
      cases hdb
      dsimp only
      generalize hn : min position (db.nextColumnPosition tableId) = n
      have hnone : ((TableColumn.placement τ).shift db.columns tableId n).get? db.nextColumnId =
          none := by
        rw [Placement.shift, Placement.get?_assign _ (Placement.nodup_shifted _ _ _), hnew]
        rfl
      have hspec := Ordered.of_arranges
        { db with
          columns := ((TableColumn.placement τ).shift db.columns tableId n).insert db.nextColumnId
            ⟨tableId, target, n, request.visible, request.width⟩
          nextColumnId := db.nextColumnId + 1 }
        (l := fun t => if t = tableId then
            (db.columnIds tableId).filter ((TableColumn.placement τ).at? db.columns · < n) ++
              db.nextColumnId ::
                (db.columnIds tableId).filter (n ≤ (TableColumn.placement τ).at? db.columns ·)
          else db.columnIds t)
        (fun t => by
          by_cases ht : t = tableId
          · subst ht
            rw [if_pos rfl]
            exact (h.arranges t).insert_shift hnew rfl rfl
          · rw [if_neg ht]
            exact hother _ _ t ht ((h.arranges t).shift_other (Ne.symm ht) n) hnone)
        (fun t k hk => hlt _ _ (fun k hk => by
          rw [List.mem_append, List.mem_filter, List.mem_filter] at hk
          exact hk.elim And.left And.left) t k hk)
        h.owners_lt
      refine ⟨hspec.1, fun t ht => (hspec.2 t).trans (if_neg ht), _, _,
        (h.arranges tableId).split n, (hspec.2 tableId).trans (if_pos rfl), fun k hk => ?_,
        fun k hk => ?_⟩
      · have hlt := of_decide_eq_true (List.mem_filter.mp hk).2
        omega
      · -- the positions in use are below the next one, to which the requested one is cut
        obtain ⟨hmem, hle⟩ := List.mem_filter.mp hk
        have hle := of_decide_eq_true hle
        have hnext := at?_lt_nextColumnPosition hmem
        omega

/-- Moving a column within its table. -/
theorem arranges_moveColumn {columns : Table ℕ (TableColumn τ)} {column : TableColumn τ}
    (hget : columns.get? columnId = some column) {l : ℕ → List ℕ}
    (harranges : ∀ t, (TableColumn.placement τ).Arranges columns t (l t)) (position t : ℕ) :
    (TableColumn.placement τ).Arranges
      (moveColumn columns columnId column.watchTableId position) t
      (if columnId ∈ l t then
        ((l t).filter (· ≠ columnId)).insertIdx
          (min position ((l t).filter (· ≠ columnId)).length) columnId
      else l t) := by
  have hrows : (((TableColumn.placement τ).arranged columns column.watchTableId).filter
      (·.1 ≠ columnId)).map (·.1) = (l column.watchTableId).filter (· ≠ columnId) := by
    rw [← (harranges column.watchTableId).order_eq, Placement.order, List.filter_map]
    rfl
  have hmem : columnId ∈ l column.watchTableId :=
    ((harranges _).mem_iff columnId).mpr ⟨_, hget, rfl⟩
  rw [moveColumn, ← List.length_map (f := fun row : ℕ × TableColumn τ => row.1), hrows]
  by_cases ht : t = column.watchTableId
  · subst ht
    rw [if_pos hmem]
    exact (harranges _).assign_moves hmem (min_le_right _ _)
  · have hnot : columnId ∉ l t := by
      intro h
      obtain ⟨x, hx, hg⟩ := ((harranges t).mem_iff columnId).mp h
      rw [hget] at hx
      cases hx
      exact ht hg.symm
    rw [if_neg hnot]
    refine (harranges t).assign_other ?_ fun p hp x hx hg => ?_
    · rw [Placement.keys_moves]
      exact List.nodup_append.mpr ⟨(harranges _).nodup.filter _, List.nodup_singleton _,
        fun a ha b hb heq => by simp_all⟩
    · have hp' : p.1 ∈ l column.watchTableId := by
        have hkey := List.mem_map_of_mem (f := (·.1)) hp
        rw [Placement.keys_moves, List.mem_append, List.mem_filter, List.mem_singleton] at hkey
        exact hkey.elim And.left fun heq => heq ▸ hmem
      obtain ⟨y, hy, hgy⟩ := ((harranges _).mem_iff _).mp hp'
      rw [hx] at hy
      cases hy
      exact ht (hg.symm.trans hgy)

theorem Ordered.updateColumn (h : Ordered db) {request : ColumnUpdateRequest υ}
    (hdb : db.apply rules userId (.update columnId request) = .ok db') :
    Ordered db' ∧ OrderEffect db db' (.update columnId request : ColumnOperation ρ υ τ ε) := by
  rw [apply, WatchTables.updateColumn, Except.bind_eq_ok] at hdb
  obtain ⟨column, hcolumn, hdb⟩ := hdb
  rw [Except.bind_eq_ok] at hdb
  obtain ⟨target, -, hdb⟩ := hdb
  obtain ⟨hget, -⟩ := getColumnOwned_eq_ok.mp hcolumn
  dsimp only at hdb
  generalize hvisible : (match request.hidden with
    | some hidden => !hidden
    | none => request.visible.getD column.visible) = visible at hdb
  -- the column itself stays where it is
  generalize hrow : ({ column with
    target, visible, width := request.width.or column.width } : TableColumn τ) = row at hdb
  have htable : row.watchTableId = column.watchTableId := by rw [← hrow]
  have hposition : row.position = column.position := by rw [← hrow]
  have harranges (t : ℕ) :
      (TableColumn.placement τ).Arranges (db.columns.insert columnId row) t (db.columnIds t) :=
    (h.arranges t).insert_same hget htable hposition
  simp only [OrderEffect]
  cases hnext : request.position.or request.order with
  | none =>
    rw [hnext] at hdb
    dsimp only at hdb
    split at hdb
    · cases hdb
    · cases hdb
      exact Ordered.of_arranges { db with columns := db.columns.insert columnId row }
        harranges h.columns_lt h.owners_lt
  | some position =>
    rw [hnext] at hdb
    dsimp only at hdb
    split at hdb
    · cases hdb
    · cases hdb
      have hmoved := arranges_moveColumn (Table.get?_insert_self ..) harranges position
      rw [htable] at hmoved
      refine Ordered.of_arranges { db with
        columns := moveColumn (db.columns.insert columnId row) columnId column.watchTableId position }
        hmoved (fun t k hk => h.columns_lt t k ?_) h.owners_lt
      by_cases hmem : columnId ∈ db.columnIds t
      · simp only [if_pos hmem] at hk
        rw [List.mem_insertIdx (min_le_right _ _), List.mem_filter] at hk
        exact hk.elim (fun heq => heq ▸ hmem) And.left
      · simpa only [if_neg hmem] using hk

theorem Ordered.create (h : Ordered db) {targets : Except ε (List τ)}
    (hdb : db.apply rules userId (.create targets) = .ok db') :
    Ordered db' ∧ OrderEffect db db' (.create targets : ColumnOperation ρ υ τ ε) := by
  rw [apply, WatchTables.create, Except.bind_eq_ok] at hdb
  obtain ⟨targets, -, hdb⟩ := hdb
  cases hdb
  generalize hcolumns : (targets.zipIdx.map fun p =>
    (db.nextColumnId + p.2, TableColumn.mk db.nextTableId p.1 p.2 true none)) = columns
  have hmem (k : ℕ) (x : TableColumn τ) : (k, x) ∈ columns ↔ ∃ i target, targets[i]? = some target ∧
      k = db.nextColumnId + i ∧ x = ⟨db.nextTableId, target, i, true, none⟩ := by
    rw [← hcolumns, List.mem_map]
    constructor
    · rintro ⟨p, hp, heq⟩
      cases heq
      exact ⟨p.2, p.1, List.mem_zipIdx_iff_getElem?.mp hp, rfl, rfl⟩
    · rintro ⟨i, target, hi, rfl, rfl⟩
      exact ⟨(target, i), List.mk_mem_zipIdx_iff_getElem?.mpr hi, rfl⟩
  have hkeys : columns.Pairwise fun r s => r.1 ≠ s.1 := by
    rw [← hcolumns, List.pairwise_map]
    have hsnd : (targets.zipIdx.map Prod.snd).Nodup := by
      rw [List.zipIdx_map_snd]
      exact List.nodup_range'
    exact (List.pairwise_map.mp hsnd).imp fun hne heq => hne (Nat.add_left_cancel heq)
  have hget (k : ℕ) (x : TableColumn τ) : (db.columns.insertMany columns).get? k = some x ↔
      (k, x) ∈ columns ∨ db.columns.get? k = some x := by
    rw [Table.get?_insertMany hkeys]
    refine or_congr_right (and_iff_right_of_imp fun hold y hy => ?_)
    obtain ⟨i, target, -, rfl, -⟩ := (hmem k y).mp hy
    have hlt := (h.columns_lt _ _ (Placement.mem_order.mpr ⟨x, hold, rfl⟩)).1
    omega
  have hspec := Ordered.of_arranges
    { owners := db.owners.insert db.nextTableId userId
      columns := db.columns.insertMany columns
      nextTableId := db.nextTableId + 1
      nextColumnId := db.nextColumnId + targets.length }
    (l := fun t => if t = db.nextTableId then
        (List.range targets.length).map (db.nextColumnId + ·) else db.columnIds t)
    (fun t => by
      by_cases ht : t = db.nextTableId
      · subst ht
        rw [if_pos rfl]
        have hnew {i : ℕ} (hi : i < targets.length) : (db.columns.insertMany columns).get?
            (db.nextColumnId + i) = some ⟨db.nextTableId, targets[i], i, true, none⟩ :=
          (hget _ _).mpr (.inl ((hmem _ _).mpr ⟨i, targets[i], List.getElem?_eq_getElem hi, rfl, rfl⟩))
        refine Placement.arranges_of_index (fun k => ?_) fun i hi => ?_
        · constructor
          · intro hk
            obtain ⟨i, hi, rfl⟩ := List.mem_map.mp hk
            exact ⟨_, hnew (List.mem_range.mp hi), rfl⟩
          · rintro ⟨x, hx, hg⟩
            obtain hx | hold := (hget k x).mp hx
            · obtain ⟨i, target, hi, rfl, -⟩ := (hmem k x).mp hx
              obtain ⟨hlt, -⟩ := List.getElem?_eq_some_iff.mp hi
              exact List.mem_map.mpr ⟨i, List.mem_range.mpr hlt, rfl⟩
            · have hlt := (h.columns_lt _ _ (Placement.mem_order.mpr ⟨x, hold, rfl⟩)).2
              exact absurd hg hlt.ne
        · rw [List.length_map, List.length_range] at hi
          rw [List.getElem_map, List.getElem_range, Placement.at?_of_get? (hnew hi)]
          rfl
      · rw [if_neg ht]
        refine (h.arranges t).congr fun k x hg => (hget k x).trans (or_iff_right fun hx => ?_)
        obtain ⟨i, target, -, -, rfl⟩ := (hmem k x).mp hx
        exact ht hg.symm)
    (fun t k hk => by
      by_cases ht : t = db.nextTableId
      · subst ht
        rw [if_pos rfl] at hk
        obtain ⟨i, hi, rfl⟩ := List.mem_map.mp hk
        exact ⟨Nat.add_lt_add_left (List.mem_range.mp hi) _, Nat.lt_succ_self _⟩
      · rw [if_neg ht] at hk
        obtain ⟨hid, htable⟩ := h.columns_lt t k hk
        exact ⟨Nat.lt_add_right _ hid, Nat.lt_succ_of_lt htable⟩)
    (fun t owner ht => by
      simp only [Table.get?_insert] at ht
      split at ht
      · next heq => exact heq ▸ Nat.lt_succ_self _
      · exact Nat.lt_succ_of_lt (h.owners_lt t owner ht))
  exact ⟨hspec.1, fun t ht => (hspec.2 t).trans (if_neg ht)⟩

theorem Ordered.apply (h : Ordered db) {operation : ColumnOperation ρ υ τ ε}
    (hdb : db.apply rules userId operation = .ok db') :
    Ordered db' ∧ OrderEffect db db' operation := by
  cases operation with
  | create targets => exact h.create hdb
  | deleteTable tableId => exact h.deleteTable hdb
  | add tableId request => exact h.addColumn hdb
  | update columnId request => exact h.updateColumn hdb
  | delete columnId => exact h.deleteColumn hdb
  | reorder tableId columnIds => exact h.reorderColumns hdb

theorem Ordered.step (h : Ordered db) (request : ColumnRequest ρ υ τ ε) :
    Ordered (db.step rules request) := by
  rw [WatchTables.step]
  split
  · next hdb =>
    split
    · exact (h.apply hdb).1
    · exact h
  · exact h

/-- After any run the columns of a table have different positions, and any operation on any table
does to the order of the columns what it asks for and nothing else. -/
theorem column_positions (rules : TargetRules ρ υ τ ε) (requests : List (ColumnRequest ρ υ τ ε)) :
    (∀ k k' column column', (run (step rules) empty requests).columns.get? k = some column →
      (run (step rules) empty requests).columns.get? k' = some column' → k ≠ k' →
        column.watchTableId = column'.watchTableId → column.position ≠ column'.position) ∧
    ∀ userId operation db',
      (run (step rules) empty requests).apply rules userId operation = .ok db' →
        OrderEffect (run (step rules) empty requests) db' operation := by
  have h : Ordered (run (step rules) empty requests) :=
    run_preserves Ordered (fun _ request hdb => hdb.step request) Ordered.empty requests
  refine ⟨fun k k' x x' hx hx' hne htable heq => ?_, fun _ _ _ hdb => (h.apply hdb).2⟩
  exact hne (h.distinct k k' x x' hx hx' htable heq)

end WatchTables

end Apanel
