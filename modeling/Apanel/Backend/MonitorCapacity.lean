import Apanel.Library.Causal
import Apanel.Library.Table
import Apanel.Library.Transition
import Mathlib.Data.Finset.Card

/-!
# Monitor capacity

The operations of `WatchTableService` and `AlertService` that change what a user monitors. Each holds
the account lock of its user from its first statement to its commit, so that a run is a sequence of
whole operations. Names, positions and columns of watch tables and the evaluation state of rules are
left out: no capacity check reads them.
-/

namespace Apanel

variable {κ : Type}

structure WatchTable where
  userId : ℕ
  symbols : List ℕ

/-- A rule with its condition columns, which stand for themselves. -/
structure AlertRule (κ : Type) where
  userId : ℕ
  securityId : ℕ
  condition : κ
  enabled : Bool

/-- The tables the operations read; a security is `true` while it is active. -/
structure AccountTables (κ : Type) where
  securities : Table ℕ Bool
  watchTables : Table ℕ WatchTable
  rules : Table ℕ (AlertRule κ)

inductive MonitorError
  | monitorLimitExceeded
  | securityNotFound
  | securityInactive
  | watchTableNotFound
  | watchTableExists
  | watchTableDeleteFailed
  | watchStockExists
  | watchStockNotFound
  | alertNotFound
  | alertCreateFailed
  | alertUpdateFailed
  | alertDeleteFailed
  | invalidAlertRule
  | unknownState
  deriving DecidableEq

/-- An operation. The fields are what `_condition_fields` makes of the payload, for an update with
the condition columns of the rule; in an update, `none` is an attribute that is not set. -/
inductive MonitorOperation (κ : Type)
  | createTable (tableId : ℕ)
  | deleteTable (tableId : ℕ)
  | addStock (tableId securityId : ℕ)
  | removeStock (tableId securityId : ℕ)
  | createRule (ruleId securityId : ℕ) (enabled : Bool) (fields : Except MonitorError κ)
  | updateRule (ruleId : ℕ) (securityId : Option (Option ℕ)) (enabled : Option (Option Bool))
      (fields : κ → Except MonitorError κ)
  | deleteRule (ruleId : ℕ)

/-- One request of a user. New rows have the id of a sequence; `commits` says that the commit meets
no integrity error. -/
structure MonitorRequest (κ : Type) where
  userId : ℕ
  operation : MonitorOperation κ
  commits : Bool

namespace AccountTables

/-- The symbols of the watch tables of a user. -/
def watched (db : AccountTables κ) (userId : ℕ) : Finset ℕ :=
  ((db.watchTables.rows.filter (·.2.userId = userId)).flatMap (·.2.symbols)).toFinset

/-- The symbols of the enabled rules of a user, less an excluded one. -/
def alerted (db : AccountTables κ) (userId : ℕ) (excludeRuleId : Option ℕ) : Finset ℕ :=
  ((db.rules.rows.filter fun row =>
    row.2.userId = userId ∧ row.2.enabled ∧ excludeRuleId ≠ some row.1).map
      (·.2.securityId)).toFinset

/-- What a user monitors. -/
def monitored (db : AccountTables κ) (userId : ℕ) : Finset ℕ :=
  db.watched userId ∪ db.alerted userId none

/-- `ensure_monitor_capacity`. -/
def ensureMonitorCapacity (db : AccountTables κ) (userId securityId : ℕ)
    (excludeRuleId : Option ℕ) : Except MonitorError Unit :=
  let ids := db.watched userId ∪ db.alerted userId excludeRuleId
  if securityId ∉ ids ∧ 100 ≤ ids.card then .error .monitorLimitExceeded else .ok ()

/-- The check of a rule, which counts only while it is enabled. -/
def ensureRuleCapacity (db : AccountTables κ) (userId securityId : ℕ) (excludeRuleId : Option ℕ)
    (enabled : Bool) : Except MonitorError Unit :=
  if enabled then db.ensureMonitorCapacity userId securityId excludeRuleId else .ok ()

/-- A security that may be monitored. -/
def activeSecurity (db : AccountTables κ) (securityId : Option ℕ) : Except MonitorError ℕ :=
  match securityId.bind fun id => (db.securities.get? id).map (id, ·) with
  | none => .error .securityNotFound
  | some (_, false) => .error .securityInactive
  | some (id, true) => .ok id

/-- `_owned`: a watch table of the user. -/
def ownedTable (db : AccountTables κ) (tableId userId : ℕ) : Except MonitorError WatchTable :=
  match db.watchTables.get? tableId with
  | some table => if table.userId = userId then .ok table else .error .watchTableNotFound
  | none => .error .watchTableNotFound

/-- `get_for_evaluation`: a rule of the user. -/
def ownedRule (db : AccountTables κ) (ruleId userId : ℕ) : Except MonitorError (AlertRule κ) :=
  match db.rules.get? ruleId with
  | some rule => if rule.userId = userId then .ok rule else .error .alertNotFound
  | none => .error .alertNotFound

/-- Whether a rule is enabled after an update. -/
def enabledAfter (rule : AlertRule κ) (enabled : Option (Option Bool)) : Bool :=
  (enabled.getD (some rule.enabled)).getD false

/-- The tables as a session of the user sees them at the end of an operation, before the commit. -/
def apply (db : AccountTables κ) (userId : ℕ) :
    MonitorOperation κ → Except MonitorError (AccountTables κ)
  | .createTable tableId =>
    if tableId ∈ db.watchTables.keys then .error .watchTableExists
    else .ok { db with watchTables := db.watchTables.insert tableId ⟨userId, []⟩ }
  | .deleteTable tableId => do
    let _ ← db.ownedTable tableId userId
    .ok { db with watchTables := db.watchTables.erase tableId }
  | .addStock tableId securityId => do
    let table ← db.ownedTable tableId userId
    let securityId ← db.activeSecurity (some securityId)
    if securityId ∈ table.symbols then .error .watchStockExists
    else do
      db.ensureMonitorCapacity userId securityId none
      .ok { db with watchTables :=
        db.watchTables.insert tableId { table with symbols := table.symbols ++ [securityId] } }
  | .removeStock tableId securityId => do
    let table ← db.ownedTable tableId userId
    if securityId ∉ table.symbols then .error .watchStockNotFound
    else .ok { db with watchTables :=
      db.watchTables.insert tableId { table with symbols := table.symbols.erase securityId } }
  | .createRule ruleId securityId enabled fields => do
    db.ensureRuleCapacity userId securityId none enabled
    let securityId ← db.activeSecurity (some securityId)
    let condition ← fields
    if ruleId ∈ db.rules.keys then .error .alertCreateFailed
    else .ok { db with rules := db.rules.insert ruleId { userId, securityId, condition, enabled } }
  | .updateRule ruleId securityId enabled fields => do
    let rule ← db.ownedRule ruleId userId
    let securityId ← db.activeSecurity (securityId.getD (some rule.securityId))
    db.ensureRuleCapacity userId securityId (some ruleId) (enabledAfter rule enabled)
    let condition ← fields rule.condition
    .ok { db with rules := db.rules.insert ruleId
                    { rule with securityId, condition, enabled := enabledAfter rule enabled } }
  | .deleteRule ruleId => do
    let _ ← db.ownedRule ruleId userId
    .ok { db with rules := db.rules.erase ruleId }

end AccountTables

/-- A step of the system: a request, or a change of the securities. -/
inductive MonitorAction (κ : Type)
  | request (request : MonitorRequest κ)
  | securities (securities : Table ℕ Bool)

namespace AccountTables

/-- A request that raises, or whose commit fails, is rolled back. -/
def step (db : AccountTables κ) : MonitorAction κ → AccountTables κ
  | .request request =>
    match db.apply request.userId request.operation with
    | .ok db' => if request.commits then db' else db
    | .error _ => db
  | .securities securities => { db with securities }

def initial (securities : Table ℕ Bool) : AccountTables κ := ⟨securities, ∅, ∅⟩

/-! ## What an operation adds -/

theorem mem_watched {db : AccountTables κ} {userId id : ℕ} :
    id ∈ db.watched userId ↔ ∃ tableId table, db.watchTables.get? tableId = some table ∧
      table.userId = userId ∧ id ∈ table.symbols := by
  simp only [watched, List.mem_toFinset, List.mem_flatMap, List.mem_filter, decide_eq_true_eq,
    Table.get?_eq_some, Prod.exists, and_assoc]

theorem mem_alerted {db : AccountTables κ} {userId id : ℕ} {excludeRuleId : Option ℕ} :
    id ∈ db.alerted userId excludeRuleId ↔ ∃ ruleId rule, db.rules.get? ruleId = some rule ∧
      rule.userId = userId ∧ rule.enabled ∧ excludeRuleId ≠ some ruleId ∧ rule.securityId = id := by
  simp only [alerted, List.mem_toFinset, List.mem_map, List.mem_filter, decide_eq_true_eq,
    Table.get?_eq_some, Prod.exists, and_assoc]

theorem alerted_subset {db : AccountTables κ} {userId : ℕ} {excludeRuleId : Option ℕ} :
    db.alerted userId excludeRuleId ⊆ db.alerted userId none := by
  intro id hid
  obtain ⟨ruleId, rule, hrule, huser, henabled, -, rfl⟩ := mem_alerted.mp hid
  exact mem_alerted.mpr ⟨ruleId, rule, hrule, huser, henabled, by simp, rfl⟩

theorem ensureMonitorCapacity_eq_ok {db : AccountTables κ} {userId securityId : ℕ}
    {excludeRuleId : Option ℕ}
    (h : db.ensureMonitorCapacity userId securityId excludeRuleId = .ok ())
    (hcard : (db.watched userId ∪ db.alerted userId excludeRuleId).card ≤ 100) :
    (insert securityId (db.watched userId ∪ db.alerted userId excludeRuleId)).card ≤ 100 := by
  rw [ensureMonitorCapacity] at h
  split at h
  · cases h
  · next hrefused =>
    by_cases hmem : securityId ∈ db.watched userId ∪ db.alerted userId excludeRuleId
    · rwa [Finset.insert_eq_of_mem hmem]
    · have hlt : (db.watched userId ∪ db.alerted userId excludeRuleId).card < 100 := by
        by_contra hge
        exact hrefused ⟨hmem, not_lt.mp hge⟩
      exact (Finset.card_insert_le _ _).trans hlt

/-- The symbols a user monitors after an operation: those monitored before, or those left by the
excluded rule and one that fits into the capacity. -/
def Fits (db db' : AccountTables κ) (userId : ℕ) : Prop :=
  db'.monitored userId ⊆ db.monitored userId ∨
    ∃ securityId excludeRuleId, db.ensureMonitorCapacity userId securityId excludeRuleId = .ok () ∧
      db'.monitored userId ⊆ insert securityId (db.watched userId ∪ db.alerted userId excludeRuleId)

theorem Fits.card_le {db db' : AccountTables κ} {userId : ℕ} (h : Fits db db' userId)
    (hcard : (db.monitored userId).card ≤ 100) : (db'.monitored userId).card ≤ 100 := by
  obtain hsubset | ⟨securityId, excludeRuleId, hcapacity, hsubset⟩ := h
  · exact (Finset.card_le_card hsubset).trans hcard
  · have hremaining : (db.watched userId ∪ db.alerted userId excludeRuleId).card ≤
        (db.monitored userId).card :=
      Finset.card_le_card (Finset.union_subset_union subset_rfl alerted_subset)
    exact (Finset.card_le_card hsubset).trans
      (ensureMonitorCapacity_eq_ok hcapacity (hremaining.trans hcard))

section Membership

variable {db : AccountTables κ} {user id : ℕ}

theorem mem_watched_insert {tableId : ℕ} {table : WatchTable}
    (h : id ∈ watched { db with watchTables := db.watchTables.insert tableId table } user) :
    id ∈ db.watched user ∨ table.userId = user ∧ id ∈ table.symbols := by
  obtain ⟨tableId', table', htable, huser, hid⟩ := mem_watched.mp h
  rw [Table.get?_insert] at htable
  split at htable
  · obtain rfl := Option.some.inj htable
    exact .inr ⟨huser, hid⟩
  · exact .inl (mem_watched.mpr ⟨tableId', table', htable, huser, hid⟩)

theorem mem_watched_erase {tableId : ℕ}
    (h : id ∈ watched { db with watchTables := db.watchTables.erase tableId } user) :
    id ∈ db.watched user := by
  obtain ⟨tableId', table', htable, huser, hid⟩ := mem_watched.mp h
  rw [Table.get?_erase] at htable
  split at htable
  · cases htable
  · exact mem_watched.mpr ⟨tableId', table', htable, huser, hid⟩

theorem mem_alerted_insert {ruleId : ℕ} {rule : AlertRule κ}
    (h : id ∈ alerted { db with rules := db.rules.insert ruleId rule } user none) :
    id ∈ db.alerted user (some ruleId) ∨
      rule.userId = user ∧ rule.enabled ∧ rule.securityId = id := by
  obtain ⟨ruleId', rule', hrule, huser, henabled, -, rfl⟩ := mem_alerted.mp h
  rw [Table.get?_insert] at hrule
  split at hrule
  · obtain rfl := Option.some.inj hrule
    exact .inr ⟨huser, henabled, rfl⟩
  · next hne =>
    refine .inl (mem_alerted.mpr ⟨ruleId', rule', hrule, huser, henabled, ?_, rfl⟩)
    exact fun heq => hne (Option.some.inj heq).symm

theorem mem_alerted_erase {ruleId : ℕ}
    (h : id ∈ alerted { db with rules := db.rules.erase ruleId } user none) :
    id ∈ db.alerted user none := by
  obtain ⟨ruleId', rule', hrule, huser, henabled, -, rfl⟩ := mem_alerted.mp h
  rw [Table.get?_erase] at hrule
  split at hrule
  · cases hrule
  · exact mem_alerted.mpr ⟨ruleId', rule', hrule, huser, henabled, by simp, rfl⟩

theorem of_ownedTable {tableId : ℕ} {table : WatchTable}
    (h : db.ownedTable tableId user = .ok table) :
    db.watchTables.get? tableId = some table ∧ table.userId = user := by
  rw [ownedTable] at h
  split at h
  · next table' htable =>
    split at h
    · next huser => exact ⟨Except.ok.inj h ▸ htable, Except.ok.inj h ▸ huser⟩
    · cases h
  · cases h

theorem of_ownedRule {ruleId : ℕ} {rule : AlertRule κ} (h : db.ownedRule ruleId user = .ok rule) :
    db.rules.get? ruleId = some rule ∧ rule.userId = user := by
  rw [ownedRule] at h
  split at h
  · next rule' hrule =>
    split at h
    · next huser => exact ⟨Except.ok.inj h ▸ hrule, Except.ok.inj h ▸ huser⟩
    · cases h
  · cases h

theorem of_activeSecurity {securityId : Option ℕ} (h : db.activeSecurity securityId = .ok id) :
    securityId = some id := by
  rw [activeSecurity] at h
  split at h
  · cases h
  · cases h
  · next id' hsecurity =>
    obtain ⟨id'', hid'', hsome⟩ := Option.bind_eq_some_iff.mp hsecurity
    obtain ⟨isActive, -, heq⟩ := Option.map_eq_some_iff.mp hsome
    obtain rfl := Except.ok.inj h
    rw [hid'', (Prod.mk.inj heq).1]

end Membership

/-- A rule written after the check of its capacity. -/
theorem insertRule_fits {db : AccountTables κ} {userId ruleId securityId : ℕ} {condition : κ}
    {enabled : Bool} {excludeRuleId : Option ℕ}
    (hcapacity : db.ensureRuleCapacity userId securityId excludeRuleId enabled = .ok ())
    (hexcluded : db.alerted userId (some ruleId) ⊆ db.alerted userId excludeRuleId) (user : ℕ) :
    Fits db { db with rules := db.rules.insert ruleId ⟨userId, securityId, condition, enabled⟩ }
      user := by
  by_cases hadds : userId = user ∧ enabled
  · obtain ⟨rfl, henabled⟩ := hadds
    rw [ensureRuleCapacity, if_pos henabled] at hcapacity
    refine .inr ⟨securityId, excludeRuleId, hcapacity, fun id hid => ?_⟩
    rcases Finset.mem_union.mp hid with hid | hid
    · exact Finset.mem_insert_of_mem (Finset.mem_union_left _ hid)
    · obtain hold | ⟨-, -, rfl⟩ := mem_alerted_insert hid
      · exact Finset.mem_insert_of_mem (Finset.mem_union_right _ (hexcluded hold))
      · exact Finset.mem_insert_self ..
  · refine .inl (Finset.union_subset_union subset_rfl fun id hid => ?_)
    obtain hold | ⟨huser, henabled, -⟩ := mem_alerted_insert hid
    · exact alerted_subset hold
    · exact absurd ⟨huser, henabled⟩ hadds

/-- Every operation fits into the capacity of every user. -/
theorem apply_fits {db db' : AccountTables κ} {userId : ℕ} {operation : MonitorOperation κ}
    (h : db.apply userId operation = .ok db') (user : ℕ) : Fits db db' user := by
  cases operation with
  | createTable tableId =>
    rw [apply] at h
    split at h
    · cases h
    · obtain rfl := Except.ok.inj h
      refine .inl (Finset.union_subset_union (fun id hid => ?_) subset_rfl)
      obtain hold | ⟨-, hnew⟩ := mem_watched_insert hid
      · exact hold
      · cases hnew
  | deleteTable tableId =>
    obtain ⟨table, -, h⟩ := Except.bind_eq_ok.mp h
    obtain rfl := Except.ok.inj h
    exact .inl (Finset.union_subset_union (fun id hid => mem_watched_erase hid) subset_rfl)
  | addStock tableId securityId =>
    obtain ⟨table, htable, h⟩ := Except.bind_eq_ok.mp h
    obtain ⟨id, hsecurity, h⟩ := Except.bind_eq_ok.mp h
    split at h
    · cases h
    · obtain ⟨⟨⟩, hcapacity, h⟩ := Except.bind_eq_ok.mp h
      obtain rfl := Except.ok.inj h
      obtain ⟨hstored, rfl⟩ := of_ownedTable htable
      set table' : WatchTable := { table with symbols := table.symbols ++ [id] } with htable'
      have hadded {id' : ℕ}
          (hid' : id' ∈ watched { db with watchTables := db.watchTables.insert tableId table' } user) :
          id' ∈ db.watched user ∨ table.userId = user ∧ id' = id := by
        obtain hold | ⟨huser, hnew⟩ := mem_watched_insert hid'
        · exact .inl hold
        · rcases List.mem_append.mp hnew with hold | hnew
          · exact .inl (mem_watched.mpr ⟨tableId, table, hstored, huser, hold⟩)
          · exact .inr ⟨huser, List.mem_singleton.mp hnew⟩
      by_cases huser : table.userId = user
      · subst huser
        refine .inr ⟨id, none, hcapacity, fun id' hid' => ?_⟩
        rcases Finset.mem_union.mp hid' with hid' | hid'
        · obtain hold | ⟨-, rfl⟩ := hadded hid'
          · exact Finset.mem_insert_of_mem (Finset.mem_union_left _ hold)
          · exact Finset.mem_insert_self ..
        · exact Finset.mem_insert_of_mem (Finset.mem_union_right _ hid')
      · refine .inl (Finset.union_subset_union (fun id' hid' => ?_) subset_rfl)
        exact (hadded hid').resolve_right fun hnew => huser hnew.1
  | removeStock tableId securityId =>
    obtain ⟨table, htable, h⟩ := Except.bind_eq_ok.mp h
    split at h
    · cases h
    · obtain rfl := Except.ok.inj h
      obtain ⟨hstored, rfl⟩ := of_ownedTable htable
      refine .inl (Finset.union_subset_union (fun id hid => ?_) subset_rfl)
      obtain hold | ⟨huser, hnew⟩ := mem_watched_insert hid
      · exact hold
      · exact mem_watched.mpr ⟨tableId, table, hstored, huser, List.mem_of_mem_erase hnew⟩
  | createRule ruleId securityId enabled fields =>
    obtain ⟨⟨⟩, hcapacity, h⟩ := Except.bind_eq_ok.mp h
    obtain ⟨id, hsecurity, h⟩ := Except.bind_eq_ok.mp h
    obtain ⟨condition, -, h⟩ := Except.bind_eq_ok.mp h
    split at h
    · cases h
    · obtain rfl := Except.ok.inj h
      obtain rfl := Option.some.inj (of_activeSecurity hsecurity)
      exact insertRule_fits hcapacity alerted_subset user
  | updateRule ruleId securityId enabled fields =>
    obtain ⟨rule, hrule, h⟩ := Except.bind_eq_ok.mp h
    obtain ⟨id, hsecurity, h⟩ := Except.bind_eq_ok.mp h
    obtain ⟨⟨⟩, hcapacity, h⟩ := Except.bind_eq_ok.mp h
    obtain ⟨condition, -, h⟩ := Except.bind_eq_ok.mp h
    obtain rfl := Except.ok.inj h
    obtain ⟨-, rfl⟩ := of_ownedRule hrule
    exact insertRule_fits hcapacity subset_rfl user
  | deleteRule ruleId =>
    obtain ⟨rule, -, h⟩ := Except.bind_eq_ok.mp h
    obtain rfl := Except.ok.inj h
    exact .inl (Finset.union_subset_union subset_rfl fun id hid => mem_alerted_erase hid)

/-- In every run, nobody monitors more than 100 symbols, and an operation that is refused for capacity
leaves the tables as they are. -/
theorem card_monitored_le (securities : Table ℕ Bool) (actions : List (MonitorAction κ)) :
    let db := run step (initial securities) actions
    (∀ userId, (db.monitored userId).card ≤ 100) ∧
      ∀ request : MonitorRequest κ,
        db.apply request.userId request.operation = .error .monitorLimitExceeded →
          db.step (.request request) = db := by
  refine ⟨?_, fun request hrefused => by simp only [step, hrefused]⟩
  refine run_preserves (fun db : AccountTables κ => ∀ userId, (db.monitored userId).card ≤ 100)
    (fun db action hcard userId => ?_) (fun userId => ?_) actions
  · cases action with
    | securities securities => exact hcard userId
    | request request =>
      rw [step]
      split
      · next db' happly =>
        split
        · exact (apply_fits happly userId).card_le (hcard userId)
        · exact hcard userId
      · exact hcard userId
  · change ((∅ : Finset ℕ) ∪ ∅).card ≤ 100
    simp

end AccountTables

end Apanel
