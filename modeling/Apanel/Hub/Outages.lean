import Apanel.Hub.Repeats

/-!
# Outages during a sync

Which database calls a run makes (`syncCalls`), and what becomes of the one that raises a systemic
error: `sync_raises_iff` says when the run raises it again.
-/

namespace Apanel

section Outages

variable {Raw Symbol δ R : Type} [DecidableEq Symbol] [DecidableEq R] [ToString Symbol]

/-- The calls made inside a handler that turns every exception into the result of one symbol. -/
def HubCall.isSwallowed : HubCall Symbol → Bool
  | .descriptor .. | .history .. | .reconcile .. | .retry _ => true
  | .reserve | .upsert _ | .complete => false

/-- The calls of a loop. -/
def loopCalls {ι : Type} (step : SyncRun Symbol δ R → ι → SyncRun Symbol δ R)
    (calls : SyncRun Symbol δ R → ι → List (HubCall Symbol)) (run : SyncRun Symbol δ R) :
    List ι → List (HubCall Symbol)
  | [] => []
  | i :: l => calls run i ++ loopCalls step calls (step run i) l

namespace SyncEnvironment

variable (env : SyncEnvironment Symbol δ R) (service : DailyBarSyncService)
  (request : SyncRequest)

/-- The call raises a systemic error. -/
def Raises (hubCall : HubCall Symbol) : Prop :=
  (env.outage hubCall).any HubError.isSystemic

instance (hubCall : HubCall Symbol) : Decidable (env.Raises hubCall) :=
  inferInstanceAs (Decidable ((env.outage hubCall).any HubError.isSystemic = true))

/-! ## The calls of a run -/

/-- The calls of `readStaleHistory`. -/
def readStaleHistoryCalls (turn : ℕ) (db : HubDatabase Symbol δ R) (symbol : Symbol)
    (revision : R) : List (HubCall Symbol) :=
  let state := (db symbol).bind fun series => (series .qfq).descriptor
  if (env.outage (.descriptor turn symbol)).isNone && state.all (·.revisionHash ≠ revision) then
    [.descriptor turn symbol, .history turn symbol]
  else [.descriptor turn symbol]

/-- The calls of `syncRevision`. -/
def syncRevisionCalls (count : ℤ) (turn : ℕ) (run : SyncRun Symbol δ R) (symbol : Symbol) :
    List (HubCall Symbol) :=
  match env.sampleRevision .before symbol with
  | .error _ => []
  | .ok revision =>
    let db := env.beforeSymbol .read symbol run.db
    env.readStaleHistoryCalls turn db symbol revision ++
      match env.readStaleHistory turn db symbol revision with
      | .error _ | .ok none => []
      | .ok (some existing) =>
        match env.planRebuild request count symbol revision existing with
        | .error _ => []
        | .ok rebuild => if rebuild.coverage.isSome then [.reconcile turn symbol] else []

/-- The calls of `compareRevisions`. -/
def compareRevisionsCalls (generations : Symbol → Option ℤ) (count : ℤ) (symbols : List Symbol)
    (run : SyncRun Symbol δ R) : List (HubCall Symbol) :=
  if env.tracksRevisions service request then
    loopCalls (fun run next => env.syncRevision request generations count next.2 run next.1)
      (fun run next => env.syncRevisionCalls request count next.2 run next.1) run symbols.zipIdx
  else []

/-- The calls of `persist`. -/
def persistCalls (generations : Symbol → Option ℤ) (symbols : List Symbol)
    (run : SyncRun Symbol δ R) : List (HubCall Symbol) :=
  let grouped := run.grouped symbols
  let run := { run with db := env.before .persist run.db }
  if grouped = [] then []
  else
    .upsert grouped ::
      match env.persistRecords request (.upsert grouped) generations run grouped with
      | .ok _ => []
      | .error error => if error.isSystemic then [] else grouped.map .retry

/-- The calls of `complete`. -/
def completeCalls (symbols : List Symbol) (run : SyncRun Symbol δ R) : List (HubCall Symbol) :=
  if run.good symbols = [] then [] else [.complete]

/-- The calls of a run that has reserved its streams. -/
def reservedCalls (generations : Symbol → Option ℤ) (count : ℤ) (symbols : List Symbol)
    (run : SyncRun Symbol δ R) : List (HubCall Symbol) :=
  env.compareRevisionsCalls service request generations count symbols run ++
    match env.fetch service request generations count symbols run with
    | .error _ => []
    | .ok run =>
      env.persistCalls request generations symbols run ++
        match env.persist request generations symbols run with
        | .error _ => []
        | .ok run => completeCalls symbols run

/-- The calls of `sync`. -/
def syncCalls (normalizeSymbol : Raw → Except HubError Symbol) (bestEffortSymbol : Raw → Symbol)
    (symbols : List Raw) (db : HubDatabase Symbol δ R) : List (HubCall Symbol) :=
  match request.count, env.outage .reserve with
  | .error _, _ => []
  | .ok _, some _ => [.reserve]
  | .ok count, none =>
    let canonical := canonicalizeSymbols normalizeSymbol bestEffortSymbol symbols
    let reserved := (env.before .reserve db).reserveSync canonical.1 request.adjustment
    .reserve :: env.reservedCalls service request reserved.1 count canonical.1
      (startRun reserved.2 canonical.2)

/-! ## The calls that are raised again -/

variable {env service request} {count : ℤ} {generations : Symbol → Option ℤ}
  {symbols : List Symbol} {hubCall : HubCall Symbol} {a b : SyncRun Symbol δ R}

/-- The revision branch makes no other calls. -/
theorem isSwallowed_of_mem_compareRevisionsCalls
    (h : hubCall ∈ env.compareRevisionsCalls service request generations count symbols a) :
    hubCall.isSwallowed ∧ env.tracksRevisions service request := by
  have hstep (turn : ℕ) (a : SyncRun Symbol δ R) (x : Symbol)
      (h : hubCall ∈ env.syncRevisionCalls request count turn a x) : hubCall.isSwallowed := by
    unfold syncRevisionCalls at h
    split at h
    · cases h
    · next revision _ =>
      rcases List.mem_append.mp h with h | h
      · unfold readStaleHistoryCalls at h
        dsimp only at h
        split at h
        · rcases List.mem_pair.mp h with rfl | rfl <;> rfl
        · rw [List.mem_singleton.mp h]
          rfl
      · split at h
        · cases h
        · cases h
        · split at h
          · cases h
          · split at h
            · rw [List.mem_singleton.mp h]
              rfl
            · cases h
  unfold compareRevisionsCalls at h
  split at h
  · next htracks =>
    refine ⟨?_, htracks⟩
    generalize symbols.zipIdx = turns at h
    induction turns generalizing a with
    | nil => cases h
    | cons next turns ih =>
      rcases List.mem_append.mp h with h | h
      · exact hstep next.2 a next.1 h
      · exact ih h
  · cases h

/-- A fenced write of its own raises no systemic error. -/
theorem isSystemic_upsertFenced {db : HubDatabase Symbol δ R} {bars : Symbol → Bars}
    {adjustment : Adjustment} {revisions : Symbol → Option R} {error : HubError}
    (h : db.upsertFenced symbols bars adjustment generations revisions = .error error) :
    error.isSystemic = false := by
  unfold HubDatabase.upsertFenced at h
  rcases db.checkWrite_eq symbols generations adjustment with
    ⟨-, hcheck⟩ | ⟨-, error', hcheck, hsystemic⟩
  · rw [hcheck] at h
    cases h
  · rw [hcheck] at h
    cases h
    exact hsystemic

omit [DecidableEq R] in
theorem isSystemic_completeSync {db : HubDatabase Symbol δ R} {adjustment : Adjustment}
    {historyDepth : ℤ} {error : HubError}
    (h : db.completeSync symbols adjustment generations historyDepth = .error error) :
    error.isSystemic = false := by
  unfold HubDatabase.completeSync at h
  split at h
  · cases h
  · rcases db.checkWrite_eq symbols generations adjustment with
      ⟨-, hcheck⟩ | ⟨-, error', hcheck, hsystemic⟩
    · rw [hcheck] at h
      cases h
    · rw [hcheck] at h
      cases h
      exact hsystemic

omit [DecidableEq Symbol] [DecidableEq R] [ToString Symbol] in
/-- The systemic errors of a call are those of the outage. -/
theorem call_eq_error {α : Type} {outcome : Except HubError α} {error : HubError}
    (houtcome : ∀ error, outcome = .error error → error.isSystemic = false)
    (h : env.call hubCall outcome = .error error) (hsystemic : error.isSystemic) :
    env.Raises hubCall := by
  unfold call at h
  unfold Raises
  split at h
  · next error' houtage =>
    cases h
    rw [houtage]
    exact hsystemic
  · rw [houtcome error h] at hsystemic
    cases hsystemic

omit [DecidableEq Symbol] [DecidableEq R] [ToString Symbol] in
theorem call_of_raises {α : Type} (outcome : Except HubError α) (h : env.Raises hubCall) :
    ∃ error, env.call hubCall outcome = .error error ∧ error.isSystemic := by
  obtain ⟨error, houtage, hsystemic⟩ := (Option.any_eq_true _ _).mp h
  refine ⟨error, ?_, hsystemic⟩
  unfold call
  rw [houtage]

/-- The bulk upsert is raised again, and nothing else of the persistence is. -/
theorem persist_raises_iff :
    (∃ error, env.persist request generations symbols a = .error error) ↔
      ∃ hubCall ∈ env.persistCalls request generations symbols a,
        ¬ hubCall.isSwallowed ∧ env.Raises hubCall := by
  unfold persist persistCalls
  generalize a.grouped symbols = grouped
  dsimp only
  split
  · constructor
    · rintro ⟨_, h⟩
      cases h
    · rintro ⟨_, h, -⟩
      cases h
  · constructor
    · rintro ⟨error, h⟩
      split at h
      · cases h
      · next error' hrecords =>
        split at h
        · next hsystemic =>
          exact ⟨_, List.mem_cons_self, nofun,
            call_eq_error (fun _ => isSystemic_upsertFenced) hrecords hsystemic⟩
        · cases h
    · rintro ⟨hubCall, hmem, hraised, hraises⟩
      rcases List.mem_cons.mp hmem with rfl | hmem
      · obtain ⟨error, hcall, hsystemic⟩ := call_of_raises (α := HubDatabase Symbol δ R) _ hraises
        unfold persistRecords
        rw [hcall]
        exact ⟨error, if_pos hsystemic⟩
      · split at hmem
        · cases hmem
        · split at hmem
          · cases hmem
          · obtain ⟨x, -, rfl⟩ := List.mem_map.mp hmem
            exact absurd rfl hraised

omit [DecidableEq R] in
/-- The completion is raised again. -/
theorem complete_raises_iff :
    (∃ error, env.complete request generations symbols a = .error error) ↔
      ∃ hubCall ∈ completeCalls symbols a, ¬ hubCall.isSwallowed ∧ env.Raises hubCall := by
  unfold complete completeCalls
  generalize a.good symbols = good
  dsimp only
  by_cases hgood : good = []
  · rw [if_pos hgood, if_pos hgood]
    unfold HubDatabase.completeSync
    rw [if_pos hgood]
    constructor
    · rintro ⟨_, h⟩
      cases h
    · rintro ⟨_, h, -⟩
      cases h
  · rw [if_neg hgood, if_neg hgood]
    constructor
    · rintro ⟨error, h⟩
      split at h
      · cases h
      · next error' hcompleted =>
        split at h
        · next hsystemic =>
          exact ⟨_, List.mem_cons_self, nofun,
            call_eq_error (fun _ => isSystemic_completeSync) hcompleted hsystemic⟩
        · cases h
    · rintro ⟨hubCall, hmem, -, hraises⟩
      rw [List.mem_singleton.mp hmem] at hraises
      obtain ⟨error, hcall, hsystemic⟩ := call_of_raises (α := HubDatabase Symbol δ R) _ hraises
      rw [hcall]
      exact ⟨error, if_pos hsystemic⟩

/-- A run that has reserved its streams raises when its fetch does, or when a call that is raised
again does. -/
theorem reserved_raises_iff :
    (∃ error, (env.fetch service request generations count symbols a >>= fun run =>
        env.persist request generations symbols run >>=
          env.complete request generations symbols) = .error error) ↔
      (∃ error, env.fetch service request generations count symbols a = .error error) ∨
      ∃ hubCall ∈ env.reservedCalls service request generations count symbols a,
        ¬ hubCall.isSwallowed ∧ env.Raises hubCall := by
  have hcompared : ¬ ∃ hubCall ∈ env.compareRevisionsCalls service request generations count symbols
      a, ¬ hubCall.isSwallowed ∧ env.Raises hubCall := fun ⟨_, hmem, hraised, _⟩ =>
    hraised (isSwallowed_of_mem_compareRevisionsCalls hmem).1
  have happend (calls calls' : List (HubCall Symbol)) :
      (∃ hubCall ∈ calls ++ calls', ¬ hubCall.isSwallowed ∧ env.Raises hubCall) ↔
        (∃ hubCall ∈ calls, ¬ hubCall.isSwallowed ∧ env.Raises hubCall) ∨
        ∃ hubCall ∈ calls', ¬ hubCall.isSwallowed ∧ env.Raises hubCall := by
    simp only [List.mem_append, or_and_right, exists_or]
  unfold reservedCalls
  rw [happend, or_iff_right hcompared]
  cases env.fetch service request generations count symbols a with
  | error error => exact ⟨fun _ => .inl ⟨error, rfl⟩, fun _ => ⟨error, rfl⟩⟩
  | ok b =>
    dsimp only
    rw [Except.ok_bind, happend, ← persist_raises_iff, or_iff_right (by rintro ⟨_, ⟨⟩⟩)]
    cases env.persist request generations symbols b with
    | error error => exact ⟨fun _ => .inl ⟨error, rfl⟩, fun _ => ⟨error, rfl⟩⟩
    | ok c =>
      dsimp only
      rw [Except.ok_bind, complete_raises_iff, or_iff_right (by rintro ⟨_, ⟨⟩⟩)]

/-- A run in which a call raises a systemic error raises it again if and only if a call outside the
handlers for one symbol raises one, or no call inside them does. -/
theorem sync_raises_iff (env : SyncEnvironment Symbol δ R) (service : DailyBarSyncService)
    (request : SyncRequest) (normalizeSymbol : Raw → Except HubError Symbol)
    (bestEffortSymbol : Raw → Symbol) (symbols : List Raw) (db : HubDatabase Symbol δ R) :
    let calls := env.syncCalls service request normalizeSymbol bestEffortSymbol symbols db
    ((∃ hubCall ∈ calls, env.Raises hubCall) →
      ∃ error, env.sync service request normalizeSymbol bestEffortSymbol symbols db =
        .error error) ↔
    (∃ hubCall ∈ calls, ¬ hubCall.isSwallowed ∧ env.Raises hubCall) ∨
      ∀ hubCall ∈ calls, hubCall.isSwallowed → ¬ env.Raises hubCall := by
  unfold syncCalls
  cases hcount : request.count with
  | error error => exact ⟨fun _ => .inr nofun, fun _ ⟨_, h, _⟩ => absurd h List.not_mem_nil⟩
  | ok count =>
    cases hreserve : env.outage .reserve with
    | some error =>
      refine ⟨fun _ => .inr fun hubCall hmem hswallowed => ?_, fun _ _ => ⟨error, ?_⟩⟩
      · rw [List.mem_singleton.mp hmem] at hswallowed
        cases hswallowed
      · unfold sync syncCanonical
        rw [hcount, hreserve]
    | none =>
      have hnot : ¬ env.Raises .reserve := by
        unfold Raises
        rw [hreserve]
        nofun
      rw [sync_eq hcount hreserve]
      dsimp only
      generalize canonicalizeSymbols normalizeSymbol bestEffortSymbol symbols = canonical
      generalize (env.before .reserve db).reserveSync canonical.1 request.adjustment = reserved
      rw [reserved_raises_iff]
      constructor
      · intro hraised
        by_cases hagain : ∃ hubCall ∈ env.reservedCalls service request reserved.1 count canonical.1
          (startRun reserved.2 canonical.2), ¬ hubCall.isSwallowed ∧ env.Raises hubCall
        · obtain ⟨hubCall, hmem, hagain⟩ := hagain
          exact .inl ⟨hubCall, List.mem_cons_of_mem _ hmem, hagain⟩
        · refine .inr fun hubCall hmem hswallowed hraises => ?_
          -- the fetch has failed: no call was made but those of the revision branch
          obtain ⟨error, hfetch⟩ := (hraised ⟨hubCall, hmem, hraises⟩).resolve_right hagain
          rcases List.mem_cons.mp hmem with rfl | hmem
          · cases hswallowed
          · unfold reservedCalls at hmem
            rw [hfetch, List.append_nil] at hmem
            obtain ⟨-, htracks⟩ := isSwallowed_of_mem_compareRevisionsCalls hmem
            rw [fetch_ok htracks] at hfetch
            cases hfetch
      · rintro (⟨hubCall, hmem, hagain, hraises⟩ | hnone) ⟨hubCall', hmem', hraises'⟩
        · rcases List.mem_cons.mp hmem with rfl | hmem
          · exact absurd hraises hnot
          · exact .inr ⟨hubCall, hmem, hagain, hraises⟩
        · rcases List.mem_cons.mp hmem' with rfl | hmem
          · exact absurd hraises' hnot
          · exact .inr ⟨hubCall', hmem, fun hswallowed => hnone _ hmem' hswallowed hraises', hraises'⟩

end SyncEnvironment

end Outages

/-! ## Two outages that are not raised again -/

/-- The environment in which one call fails. -/
def failingEnvironment (failing : HubCall ℕ) : SyncEnvironment ℕ Unit ℕ :=
  { revisedEnvironment with
    outage := fun hubCall =>
      if hubCall = failing then some ⟨.system, "connection lost"⟩ else none }

/-- The histories of 600519 only. -/
def oneSecurity : HubDatabase ℕ Unit ℕ := fun symbol =>
  if symbol = 600519 then unrevisedDatabase symbol else none

/-- An outage during the read of a descriptor, and one during the retry of a symbol, become the
result of the symbol. -/
theorem not_sync_raises :
    (let env := failingEnvironment (.descriptor 0 600519)
    .descriptor 0 600519 ∈ env.syncCalls ⟨true, 50⟩ qfqRequest .ok id [600519] unrevisedDatabase ∧
      env.Raises (.descriptor 0 600519) ∧
      (env.sync ⟨true, 50⟩ qfqRequest .ok id [600519] unrevisedDatabase).map
          (fun run => (run.results 600519).map fun result => (result.status, result.error)) =
        .ok (some (.failed, some ⟨.providerError, "connection lost"⟩))) ∧
    (let env := failingEnvironment (.retry 600519)
    .retry 600519 ∈ env.syncCalls ⟨true, 50⟩ { qfqRequest with adjustment := .none } .ok id
        [600519, 1] oneSecurity ∧
      env.Raises (.retry 600519) ∧
      (env.sync ⟨true, 50⟩ { qfqRequest with adjustment := .none } .ok id [600519, 1]
          oneSecurity).map
          (fun run => (run.results 600519).map fun result => (result.status, result.error)) =
        .ok (some (.failed, some ⟨.persistenceError, "connection lost"⟩))) := by
  decide +kernel

end Apanel
