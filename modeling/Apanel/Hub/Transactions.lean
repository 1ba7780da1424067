import Apanel.Hub.Repository
import Mathlib.Logic.Function.Basic

/-!
# Fenced transactions of the Hub

The transactions of `SqlAlchemyDailyBarRepository` over all securities. A run reserves a generation
of each stream it means to write; every later write checks, under the stream lock, that no other
run has reserved the stream since.
-/

namespace Apanel

/-- The exceptions `sync` tells apart. `record` is every persistence error that may be retried for
each symbol, `system` the others. -/
inductive HubErrorKind
  | timeout
  | configuration
  | unavailable
  | invalidMarketData
  | record
  | system
  | other
  deriving DecidableEq

/-- An exception with the text that `_safe_message` reports. -/
structure HubError where
  kind : HubErrorKind
  message : String
  deriving DecidableEq

/-- `_is_systemic_persistence_error`. -/
def HubError.isSystemic (error : HubError) : Bool := error.kind = .system

inductive Adjustment
  | qfq
  | none
  deriving DecidableEq

/-- `adjustment.value`. -/
def Adjustment.value : Adjustment → String
  | .qfq => "qfq"
  | .none => "none"

/-- The series of one security. -/
abbrev SecuritySeries (δ R : Type) := Adjustment → SeriesFacts δ R

/-- The rows of every security in the `securities` table. -/
abbrev HubDatabase (Symbol δ R : Type) := Symbol → Option (SecuritySeries δ R)

namespace HubDatabase

variable {Symbol δ R : Type} [DecidableEq Symbol] [DecidableEq R] [ToString Symbol]

/-- The write of one series in each of the given securities. -/
def modify (db : HubDatabase Symbol δ R) (symbols : List Symbol) (adjustment : Adjustment)
    (f : Symbol → SeriesFacts δ R → SeriesFacts δ R) : HubDatabase Symbol δ R := fun symbol =>
  if symbol ∈ symbols then
    (db symbol).map fun series => Function.update series adjustment (f symbol (series adjustment))
  else db symbol

def generation (db : HubDatabase Symbol δ R) (adjustment : Adjustment) (symbol : Symbol) :
    Option ℤ :=
  (db symbol).map fun series => (series adjustment).stream.syncGeneration

/-- `reserve_sync`: the reserved generations and the database. -/
def reserveSync (db : HubDatabase Symbol δ R) (symbols : List Symbol) (adjustment : Adjustment) :
    (Symbol → Option ℤ) × HubDatabase Symbol δ R :=
  let db := db.modify symbols adjustment fun _ facts =>
    { facts with stream :=
      { facts.stream with syncGeneration := facts.stream.syncGeneration + 1 } }
  (fun symbol => if symbol ∈ symbols then db.generation adjustment symbol else none, db)

/-- `_security_ids`: every symbol has a row. -/
def securityIds (db : HubDatabase Symbol δ R) (symbols : List Symbol) : Except HubError Unit :=
  let missing := symbols.filter fun symbol => (db symbol).isNone
  if missing = [] then .ok ()
  else .error ⟨.record, "security is not persisted: " ++ ", ".intercalate (missing.map toString)⟩

/-- `_check_fences`. -/
def checkFences (db : HubDatabase Symbol δ R) (symbols : List Symbol)
    (expected : Symbol → Option ℤ) (adjustment : Adjustment) : Except HubError Unit :=
  if ∀ symbol ∈ symbols, expected symbol = db.generation adjustment symbol then .ok ()
  else .error ⟨.record, "market-data sync was superseded"⟩

/-- The checks of a fenced write. -/
def checkWrite (db : HubDatabase Symbol δ R) (symbols : List Symbol)
    (expected : Symbol → Option ℤ) (adjustment : Adjustment) : Except HubError Unit := do
  db.securityIds symbols
  db.checkFences symbols expected adjustment

/-- `upsert_fenced` of the bars of each symbol; only a qfq series has a revision. -/
def upsertFenced (db : HubDatabase Symbol δ R) (symbols : List Symbol) (bars : Symbol → Bars)
    (adjustment : Adjustment) (generations : Symbol → Option ℤ) (revisions : Symbol → Option R) :
    Except HubError (HubDatabase Symbol δ R) := do
  db.checkWrite symbols generations adjustment
  return db.modify symbols adjustment fun symbol facts =>
    facts.applyUpsert (bars symbol) (if adjustment = .qfq then revisions symbol else none)

/-- `reconcile_revision`. -/
def reconcileRevision (db : HubDatabase Symbol δ R) (symbol : Symbol) (records : Bars)
    (adjustment : Adjustment) (coverageStart coverageEnd : Date) (generations : Symbol → Option ℤ)
    (revision : Option R) : Except HubError (HubDatabase Symbol δ R) :=
  if records.rows = [] then .error ⟨.record, "revised snapshot does not match its target"⟩
  else if !SeriesFacts.reconcileCovers records coverageStart coverageEnd then
    .error ⟨.record, "revised snapshot does not cover replacement range"⟩
  else do
    db.checkWrite [symbol] generations adjustment
    return db.modify [symbol] adjustment fun _ facts =>
      facts.applyReconcile records coverageStart coverageEnd revision

/-- `complete_sync`. -/
def completeSync (db : HubDatabase Symbol δ R) (symbols : List Symbol) (adjustment : Adjustment)
    (generations : Symbol → Option ℤ) (historyDepth : ℤ) :
    Except HubError (HubDatabase Symbol δ R) :=
  if symbols = [] then .ok db
  else do
    db.checkWrite symbols generations adjustment
    return db.modify symbols adjustment fun _ facts =>
      { facts with stream :=
        { facts.stream with historyDepth := max facts.stream.historyDepth historyDepth } }

end HubDatabase

end Apanel
