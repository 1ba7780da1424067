import Apanel.Hub.Symbols
import Apanel.Library.Binary64

/-!
# Reconciliation of the security master

`SecuritySyncService.sync` and `reconcile_snapshot` (`app/repositories/market_data.py`): one batch of
the provider is checked against the active securities and written in one transaction. The guard
compares floats; below 2^31 rows, which the key of the table allows, it accepts no batch that the
exact fractions would refuse (`not_shrinks`, `not_incomplete`).
-/

namespace Apanel

namespace UnicodeTables

/-- `status`, `fetched`, `persisted` and `error` of each symbol of the summary. -/
abbrev SecuritySyncSummary := List (List Char × SyncItemResult)

/-- One element of the provider's answer. -/
inductive SecurityProviderRecord (tables : UnicodeTables)
  | other
  | security (record : UnicodeTables.Security tables)

/-- The provider, and what the database refuses of its own. -/
structure SecuritySyncEnvironment (tables : UnicodeTables) where
  getSymbols : Except HubError (List (SecurityProviderRecord tables))
  authoritativeUniverse : Bool
  outage : Option HubError

/-- The table `securities`; its primary key is a signed 32-bit integer. -/
structure SecurityMaster where
  table : SecurityTable
  rows_lt : table.rows.length < 2 ^ 31

/-- The rows with status ACTIVE. -/
def activeSecurities (table : SecurityTable) : SecurityTable :=
  table.filterMap fun _ row => if row.active then some row else none

/-- A market and a security type. -/
def SecurityRow.segment (row : SecurityRow) : List Char × List Char := (row.market, row.securityType)

/-- `len(old - current) / len(old) > 0.05`. -/
def Shrinks (missing old : ℕ) : Prop :=
  old ≠ 0 ∧ Binary64.round (1 / 20) < Binary64.round (missing / old)

/-- `new_segments[segment] < count * 0.95`. -/
def Incomplete (current count : ℕ) : Prop :=
  (current : ℚ) < Binary64.round (count * Binary64.round (19 / 20))

instance (missing old : ℕ) : Decidable (Shrinks missing old) :=
  inferInstanceAs (Decidable (_ ∧ _))

instance (current count : ℕ) : Decidable (Incomplete current count) :=
  inferInstanceAs (Decidable (_ < _))

variable {tables : UnicodeTables}

def Security.segment (record : Security tables) : List Char × List Char :=
  (record.market.value, record.securityType.value)

def validateSecuritySnapshot (previous : SecurityTable) (records : List (Security tables)) :
    Except HubError Unit :=
  let old := previous.keys.dedup
  let current := records.map fun record => record.symbol.text
  if Shrinks (old.filter (· ∉ current)).length old.length then
    .error ⟨.record, "security snapshot shrinkage exceeds safety threshold"⟩
  else if previous.rows.any fun row =>
      Incomplete (records.countP fun record => record.segment = row.2.segment)
        (previous.rows.countP fun row' => row'.2.segment = row.2.segment) then
    .error ⟨.record, "security snapshot contains an incomplete market segment"⟩
  else .ok ()

/-- `_validated_records`. -/
def validatedRecords (records : List (Security tables)) :
    Except HubError (Table (List Char) (Security tables)) :=
  Facts.unique (fun record : Security tables => .ok (record.symbol.text, record))
    ⟨.record, "conflicting market records for one identity"⟩ records

/-- The rows after the upsert, and for an authoritative batch after the deactivation. -/
def reconciled (table : SecurityTable) (unique : Table (List Char) (Security tables))
    (authoritative : Bool) : SecurityTable :=
  let upserted := table.insertMany (unique.rows.map fun row => (row.1, row.2.values))
  if authoritative then
    upserted.mapRows fun symbol row =>
      if row.active ∧ symbol ∉ unique.keys then { row with active := false } else row
  else upserted

def reconcileSnapshot (master : SecurityMaster) (records : List (Security tables))
    (authoritative : Bool) (outage : Option HubError) : Except HubError SecurityMaster := do
  let unique ← validatedRecords records
  if unique.rows = [] then .error ⟨.record, "security snapshot must not be empty"⟩
  else do
    validateSecuritySnapshot (activeSecurities master.table) (unique.rows.map (·.2))
    match outage with
    | some error => .error error
    | none =>
      if h : (reconciled master.table unique authoritative).rows.length < 2 ^ 31 then
        .ok ⟨reconciled master.table unique authoritative, h⟩
      else .error ⟨.system, "nextval: reached maximum value of sequence"⟩

/-- The records of the provider, each a security and no symbol twice. -/
def requireSecurities (seen : List (List Char)) :
    List (SecurityProviderRecord tables) → Except HubError (List (Security tables))
  | [] => .ok []
  | .other :: _ => .error ⟨.invalidMarketData, "provider returned a non-Security record"⟩
  | .security record :: rawRecords =>
    if record.symbol.text ∈ seen then
      let symbol := String.ofList record.symbol.text
      .error ⟨.invalidMarketData, s!"provider returned a duplicate security symbol: {symbol}"⟩
    else do
      let records ← requireSecurities (record.symbol.text :: seen) rawRecords
      return record :: records

/-- `_security_failure`. -/
def securityFailure (error : SyncError) : SecuritySyncSummary :=
  [(['*'], { status := .failed, error := some error })]

/-- `SecuritySyncService.sync`: the summary, and the table after it. -/
def syncSecurities (environment : SecuritySyncEnvironment tables) (master : SecurityMaster) :
    SecuritySyncSummary × SecurityMaster :=
  match environment.getSymbols with
  | .error error => (securityFailure (syncError error), master)
  | .ok [] => ([], master)
  | .ok rawRecords =>
    match requireSecurities [] rawRecords with
    | .error error => (securityFailure (syncError error), master)
    | .ok records =>
      match reconcileSnapshot master records environment.authoritativeUniverse
          environment.outage with
      | .error error => (securityFailure ⟨.persistenceError, error.message⟩, master)
      | .ok master' =>
        (records.map fun record =>
          (record.symbol.text, { status := .success, fetched := 1, persisted := 1 }), master')

/-! ## The guard -/

/-- The error of the floats is below the distance of two fractions of such numbers. -/
theorem not_shrinks {missing old : ℕ} (hle : missing ≤ old) (hold : old < 2 ^ 31)
    (h : ¬Shrinks missing old) : 20 * missing ≤ old := by
  by_contra hlt
  refine h ⟨by omega, ?_⟩
  have hold' : (0 : ℚ) < old := by
    have : 0 < old := by omega
    exact_mod_cast this
  have hbound : (old : ℚ) ≤ 2 ^ 31 := by exact_mod_cast hold.le
  have hmissing : (old : ℚ) + 1 ≤ 20 * missing := by
    have : old + 1 ≤ 20 * missing := by omega
    exact_mod_cast this
  have hquotient : 1 / 20 + 1 / (20 * old) ≤ (missing : ℚ) / old := by
    rw [le_div_iff₀ hold', add_mul, div_mul_eq_mul_div, div_mul_eq_mul_div,
      mul_comm (20 : ℚ) (old : ℚ), one_mul, div_mul_cancel_left₀ hold'.ne']
    linarith
  have hgap : (1 : ℚ) / 2 ^ 36 ≤ 1 / (20 * old) :=
    one_div_le_one_div_of_le (by positivity) (by linarith)
  have hone : (missing : ℚ) / old ≤ 1 := (div_le_one hold').mpr (by exact_mod_cast hle)
  have hlow := Binary64.round_le (q := 1 / 20) (by norm_num)
  have hhigh := Binary64.le_round (q := (missing : ℚ) / old) (by
    have : (0 : ℚ) < 1 / (20 * old) := by positivity
    linarith)
  linarith

theorem not_incomplete {current count : ℕ} (hcount : count < 2 ^ 31)
    (h : ¬Incomplete current count) : 19 * count ≤ 20 * current := by
  by_contra hlt
  refine h ?_
  have hcount' : (0 : ℚ) < count := by
    have : 0 < count := by omega
    exact_mod_cast this
  have hbound : (count : ℚ) ≤ 2 ^ 31 := by exact_mod_cast hcount.le
  have hcurrent : 20 * (current : ℚ) + 1 ≤ 19 * count := by
    have : 20 * current + 1 ≤ 19 * count := by omega
    exact_mod_cast this
  have hfraction := Binary64.le_round (q := 19 / 20) (by norm_num)
  have hproduct : (count : ℚ) * (19 / 20 - 19 / 20 / 2 ^ 53) ≤
      count * Binary64.round (19 / 20) := mul_le_mul_of_nonneg_left hfraction hcount'.le
  have hpos : (0 : ℚ) < count * Binary64.round (19 / 20) := by
    refine lt_of_lt_of_le ?_ hproduct
    exact mul_pos hcount' (by norm_num)
  have hround := Binary64.le_round hpos
  rw [Incomplete]
  linarith

/-! ## What is active -/

theorem get?_activeSecurities {table : SecurityTable} {symbol : List Char} {row : SecurityRow} :
    (activeSecurities table).get? symbol = some row ↔
      table.get? symbol = some row ∧ row.active = true := by
  rw [activeSecurities, Table.get?_filterMap, Option.bind_eq_some_iff]
  constructor
  · rintro ⟨row', hrow', h⟩
    split at h
    · next hactive =>
      cases h
      exact ⟨hrow', hactive⟩
    · cases h
  · rintro ⟨hrow, hactive⟩
    exact ⟨row, hrow, if_pos hactive⟩

theorem length_activeSecurities_le (table : SecurityTable) :
    (activeSecurities table).rows.length ≤ table.rows.length :=
  List.length_filterMap_le _ _

theorem get?_upserted (table : SecurityTable) (unique : Table (List Char) (Security tables))
    (symbol : List Char) :
    (table.insertMany (unique.rows.map fun row => (row.1, row.2.values))).get? symbol =
      ((unique.get? symbol).map Security.values).or (table.get? symbol) :=
  Table.get?_insertMany_rows table unique Security.values symbol

/-- After an authoritative batch its securities are the active ones. -/
theorem activeSecurities_reconciled (table : SecurityTable)
    (unique : Table (List Char) (Security tables)) :
    activeSecurities (reconciled table unique true) = unique.mapRows fun _ => Security.values := by
  refine Table.ext_get? fun symbol => Option.ext fun row => ?_
  rw [get?_activeSecurities, reconciled, if_pos rfl, Table.get?_mapRows, get?_upserted,
    Table.get?_mapRows]
  cases hunique : unique.get? symbol with
  | some record =>
    have hmem : symbol ∈ unique.keys := Table.mem_keys.mpr ⟨record, hunique⟩
    simp only [Option.map_some, Option.some_or, hmem, not_true_eq_false, and_false, if_false,
      Option.some.injEq]
    exact and_iff_left_of_imp fun h => h ▸ rfl
  | none =>
    have hnot : symbol ∉ unique.keys := Table.get?_eq_none.mp hunique
    simp only [Option.map_none, Option.none_or, hnot, not_false_eq_true, and_true,
      reduceCtorEq, iff_false, not_and]
    intro hrow hactive
    obtain ⟨row', -, rfl⟩ := Option.map_eq_some_iff.mp hrow
    split at hactive
    · cases hactive
    · next h => exact h hactive

/-- Without authority a batch leaves active what was active. -/
theorem mem_activeSecurities_reconciled {table : SecurityTable}
    (unique : Table (List Char) (Security tables)) {symbol : List Char}
    (h : symbol ∈ (activeSecurities table).keys) :
    symbol ∈ (activeSecurities (reconciled table unique false)).keys := by
  obtain ⟨row, hrow⟩ := Table.mem_keys.mp h
  obtain ⟨hrow, hactive⟩ := get?_activeSecurities.mp hrow
  refine Table.mem_keys.mpr ?_
  simp only [get?_activeSecurities, reconciled, Bool.false_eq_true, if_false, get?_upserted]
  cases unique.get? symbol with
  | some record => exact ⟨record.values, rfl, rfl⟩
  | none => exact ⟨row, hrow, hactive⟩

/-- The active securities of a market and type. -/
def segmentCount (table : SecurityTable) (segment : List Char × List Char) : ℕ :=
  (activeSecurities table).rows.countP fun row => row.2.segment = segment

/-- The securities that are active before and not after. -/
def deactivated (before after : SecurityTable) : List (List Char) :=
  (activeSecurities before).keys.filter (· ∉ (activeSecurities after).keys)

theorem rows_mapRows_values (unique : Table (List Char) (Security tables)) :
    (unique.mapRows fun _ => Security.values).rows =
      unique.rows.map fun row => (row.1, row.2.values) := by
  simp only [Table.mapRows, Table.filterMap, Option.map_some, List.filterMap_eq_map']

/-- What an accepted snapshot meets. -/
theorem validateSecuritySnapshot_eq_ok {previous : SecurityTable}
    {records : List (Security tables)} (hprevious : previous.rows.length < 2 ^ 31)
    (h : validateSecuritySnapshot previous records = .ok ()) :
    20 * (previous.keys.filter (· ∉ records.map fun record => record.symbol.text)).length ≤
        previous.rows.length ∧
      ∀ segment, 19 * previous.rows.countP (fun row => row.2.segment = segment) ≤
        20 * records.countP fun record => record.segment = segment := by
  have hdedup : previous.keys.dedup = previous.keys :=
    List.dedup_eq_self.mpr (previous.keys_sorted.imp fun hlt => hlt.ne)
  have hlength : previous.keys.length = previous.rows.length := List.length_map ..
  rw [validateSecuritySnapshot, hdedup, hlength] at h
  split at h
  · cases h
  · next hshrinks =>
    split at h
    · cases h
    · next hincomplete =>
      refine ⟨not_shrinks ?_ hprevious hshrinks, fun segment => ?_⟩
      · exact (List.length_filter_le _ _).trans hlength.le
      · by_cases hrow : ∃ row ∈ previous.rows, row.2.segment = segment
        · obtain ⟨row, hrow, rfl⟩ := hrow
          refine not_incomplete (lt_of_le_of_lt (List.countP_le_length ..) hprevious) fun h => ?_
          exact hincomplete (List.any_eq_true.mpr ⟨row, hrow, decide_eq_true h⟩)
        · have hzero : previous.rows.countP (fun row => row.2.segment = segment) = 0 := by
            rw [List.countP_eq_zero]
            exact fun row hmem heq => hrow ⟨row, hmem, of_decide_eq_true heq⟩
          omega

/-! ## The sync -/

theorem reconcileSnapshot_eq_ok {master master' : SecurityMaster} {records : List (Security tables)}
    {authoritative : Bool} {outage : Option HubError}
    (h : reconcileSnapshot master records authoritative outage = .ok master') :
    ∃ unique, validatedRecords records = .ok unique ∧ unique.rows ≠ [] ∧
      validateSecuritySnapshot (activeSecurities master.table) (unique.rows.map (·.2)) = .ok () ∧
        master'.table = reconciled master.table unique authoritative := by
  rw [reconcileSnapshot] at h
  obtain ⟨unique, hunique, h⟩ := Except.bind_eq_ok.mp h
  split at h
  · cases h
  · next hne =>
    obtain ⟨_, hvalid, h⟩ := Except.bind_eq_ok.mp h
    refine ⟨unique, hunique, hne, hvalid, ?_⟩
    split at h
    · cases h
    · split at h
      · cases h
        rfl
      · cases h

/-- An empty batch is rejected. -/
theorem ne_nil_of_reconcileSnapshot {master master' : SecurityMaster}
    {records : List (Security tables)} {authoritative : Bool} {outage : Option HubError}
    (h : reconcileSnapshot master records authoritative outage = .ok master') : records ≠ [] := by
  rintro rfl
  obtain ⟨unique, hunique, hne, -⟩ := reconcileSnapshot_eq_ok h
  cases hunique
  exact hne rfl

/-- Every symbol of the summary has been synchronized. -/
def Accepted (summary : SecuritySyncSummary) : Prop :=
  summary ≠ [] ∧ ∀ item ∈ summary, item.2.status = .success

theorem not_accepted_securityFailure (error : SyncError) : ¬Accepted (securityFailure error) :=
  fun h => nomatch h.2 _ (List.mem_singleton_self _)

/-- A sync leaves the table alone, or reconciles a batch that it accepts. -/
theorem syncSecurities_cases (environment : SecuritySyncEnvironment tables)
    (master : SecurityMaster) :
    ¬Accepted (syncSecurities environment master).1 ∧
        (syncSecurities environment master).2 = master ∨
      Accepted (syncSecurities environment master).1 ∧
        ∃ records : List (Security tables),
          reconcileSnapshot master records environment.authoritativeUniverse environment.outage =
            .ok (syncSecurities environment master).2 := by
  rw [syncSecurities]
  cases environment.getSymbols with
  | error error => exact .inl ⟨not_accepted_securityFailure _, rfl⟩
  | ok rawRecords =>
    cases rawRecords with
    | nil => exact .inl ⟨fun h => h.1 rfl, rfl⟩
    | cons rawRecord rawRecords =>
      dsimp only
      cases requireSecurities [] (rawRecord :: rawRecords) with
      | error error => exact .inl ⟨not_accepted_securityFailure _, rfl⟩
      | ok records =>
        dsimp only
        cases hreconcile : reconcileSnapshot master records environment.authoritativeUniverse
            environment.outage with
        | error error => exact .inl ⟨not_accepted_securityFailure _, rfl⟩
        | ok master' =>
          refine .inr ⟨⟨?_, fun item hitem => ?_⟩, records, hreconcile⟩
          · exact fun hnil => ne_nil_of_reconcileSnapshot hreconcile (List.map_eq_nil_iff.mp hnil)
          · obtain ⟨record, -, rfl⟩ := List.mem_map.mp hitem
            rfl

/-- The effect of an authoritative batch is what the guard has checked. -/
theorem reconciled_safe {table : SecurityTable} {unique : Table (List Char) (Security tables)}
    (hrows : table.rows.length < 2 ^ 31) (hkeys : ∀ row ∈ unique.rows, row.2.symbol.text = row.1)
    (h : validateSecuritySnapshot (activeSecurities table) (unique.rows.map (·.2)) = .ok ()) :
    20 * (deactivated table (reconciled table unique true)).length ≤
        (activeSecurities table).rows.length ∧
      ∀ segment, 19 * segmentCount table segment ≤
        20 * segmentCount (reconciled table unique true) segment := by
  obtain ⟨hshrink, hsegments⟩ := validateSecuritySnapshot_eq_ok
    (lt_of_le_of_lt (length_activeSecurities_le table) hrows) h
  constructor
  · have hcurrent : ((unique.rows.map (·.2)).map fun record : Security tables => record.symbol.text) =
        (activeSecurities (reconciled table unique true)).keys := by
      rw [activeSecurities_reconciled, Table.keys, rows_mapRows_values, List.map_map, List.map_map]
      exact List.map_congr_left hkeys
    rw [deactivated, ← hcurrent]
    exact hshrink
  · intro segment
    have hcount : segmentCount (reconciled table unique true) segment =
        (unique.rows.map (·.2)).countP fun record : Security tables => record.segment = segment := by
      rw [segmentCount, activeSecurities_reconciled, rows_mapRows_values, List.countP_map,
        List.countP_map]
      rfl
    rw [hcount]
    exact hsegments segment

/-- An accepted authoritative batch deactivates at most 5 percent of the active securities and
leaves each segment at least 95 percent of its count; without authority nothing is deactivated; and
a rejected batch changes nothing. -/
theorem security_master_safe (environment : SecuritySyncEnvironment tables)
    (master : SecurityMaster) :
    (Accepted (syncSecurities environment master).1 → environment.authoritativeUniverse = true →
      20 * (deactivated master.table (syncSecurities environment master).2.table).length ≤
          (activeSecurities master.table).rows.length ∧
        ∀ segment, 19 * segmentCount master.table segment ≤
          20 * segmentCount (syncSecurities environment master).2.table segment) ∧
    (environment.authoritativeUniverse = false →
      deactivated master.table (syncSecurities environment master).2.table = []) ∧
    (¬Accepted (syncSecurities environment master).1 →
      (syncSecurities environment master).2 = master) := by
  rcases syncSecurities_cases environment master with ⟨hrejected, hsame⟩ | ⟨haccepted, records, h⟩
  · refine ⟨fun haccepted => absurd haccepted hrejected, fun _ => ?_, fun _ => hsame⟩
    rw [hsame]
    exact List.filter_eq_nil_iff.mpr fun symbol hsymbol => by simpa using hsymbol
  · obtain ⟨unique, hunique, -, hvalid, htable⟩ := reconcileSnapshot_eq_ok h
    refine ⟨fun _ hauthority => ?_, fun hauthority => ?_, fun hrejected => absurd haccepted hrejected⟩
    · rw [htable, hauthority]
      refine reconciled_safe master.rows_lt (fun row hrow => ?_) hvalid
      obtain ⟨record, -, hrecord⟩ :=
        (Facts.get?_of_unique_eq_ok hunique).mp (Table.get?_eq_some.mpr hrow)
      obtain ⟨hkey, hvalue⟩ := Prod.mk.inj (Except.ok.inj hrecord)
      rw [← hvalue, hkey]
    · rw [htable, hauthority]
      refine List.filter_eq_nil_iff.mpr fun symbol hsymbol => ?_
      simpa using mem_activeSecurities_reconciled unique hsymbol

end UnicodeTables

end Apanel
