import Apanel.Backend.Accounts
import Apanel.Library.Causal
import Apanel.Library.Transition

/-!
# Installation setup

`app/services/installation_setup.py` and `bootstrap_admin`. Each call runs under the advisory lock of
the bootstrap, so that calls follow one another. The token file lies outside the transactions: a
crash between the two leaves a new token in the file and the old hash in the database. Only
`prepare_setup` writes the hash, and `installation_oneShot` says that none it once replaced comes
back, as long as the generated tokens are new.
-/

namespace Apanel

/-- The row of `installation_setup`. -/
structure InstallationSetup (Hash : Type) where
  tokenHash : Option Hash
  completedAt : Option ℤ

/-- What `_read_setup_token` finds: no file, one that is not safe or holds no token, or a token. -/
inductive TokenFile (Token : Type)
  | missing
  | invalid
  | holds (token : Token)

structure SetupDatabase (Hash : Type) where
  users : List User
  setup : Option (InstallationSetup Hash)

structure SetupState (Token Hash : Type) where
  database : SetupDatabase Hash
  file : TokenFile Token

inductive PrepareStatus
  | created
  | reused
  | rotated
  | completed
  deriving DecidableEq

inductive SetupAnswer
  | prepared (status : PrepareStatus)
  | admin (user : User)
  deriving DecidableEq

variable {Token Hash : Type}

/-- The hash that a token is compared with. -/
def SetupState.tokenHash (s : SetupState Token Hash) : Option Hash :=
  s.database.setup.bind (·.tokenHash)

def SetupState.completed (s : SetupState Token Hash) : Prop :=
  s.database.setup.any (·.completedAt.isSome)

instance (s : SetupState Token Hash) : Decidable s.completed :=
  inferInstanceAs (Decidable (_ = true))

section Setup

variable [DecidableEq Hash] (hash : Token → Hash) (casing : Lowercase)

def readSetupToken : TokenFile Token → Except AccountError (Option Token)
  | .missing => .ok none
  | .invalid => .error .invalidTokenFile
  | .holds token => .ok (some token)

/-- `complete_setup`. -/
def completeSetup (database : SetupDatabase Hash) (token : Token) (id : ℕ)
    (username email : List Char) (now : ℤ) : Except AccountError (User × SetupDatabase Hash) :=
  match database.setup with
  | none => .error .setupNotReady
  | some setup =>
    if setup.completedAt.isSome then .error .setupAlreadyCompleted
    else if setup.tokenHash ≠ some (hash token) then .error .invalidSetupToken
    else do
      let user ← createFirstAdminLocked casing database.users id username email
      .ok (user, { users := database.users ++ [user], setup := some ⟨none, some now⟩ })

/-- `bootstrap_admin`. -/
def bootstrapAdmin (database : SetupDatabase Hash) (id : ℕ) (username email : List Char)
    (now : ℤ) : Except AccountError (User × SetupDatabase Hash) :=
  if database.setup.any (·.completedAt.isSome) then .error .adminAlreadyExists
  else do
    let user ← createFirstAdminLocked casing database.users id username email
    .ok (user, { users := database.users ++ [user], setup := some ⟨none, some now⟩ })

/-- `prepare_setup`; `token` is the one it would generate. -/
def prepareSetup (s : SetupState Token Hash) (rotate : Bool) (token : Token) (now : ℤ) :
    Except AccountError (PrepareStatus × SetupState Token Hash) :=
  if s.completed then .ok (.completed, s)
  else if s.database.users.any (·.role = .admin) then
    .ok (.completed, { s with database.setup := some ⟨none, some now⟩ })
  else if s.database.setup.isSome ∧ !rotate then do
    let held ← readSetupToken s.file
    if held.isSome ∧ s.tokenHash.isSome ∧ held.map hash = s.tokenHash then .ok (.reused, s)
    else .error .tokenFileMismatch
  else
    .ok (if rotate then .rotated else .created,
      { database := { s.database with setup := some ⟨some (hash token), none⟩ }
        file := .holds token })

/-! ## Calls -/

/-- Where a call is interrupted, by a crash or an exception of the file system. -/
inductive Interruption
  | beforeFile
  | beforeCommit
  deriving DecidableEq

inductive SetupOperation (Token : Type)
  | prepare (rotate : Bool) (token : Token) (now : ℤ)
  | complete (token : Token) (id : ℕ) (username email : List Char) (now : ℤ)
  | bootstrap (id : ℕ) (username email : List Char) (now : ℤ)

structure SetupCall (Token : Type) where
  operation : SetupOperation Token
  interruption : Option Interruption := none

/-- An operation that nothing interrupts. -/
def SetupOperation.run (s : SetupState Token Hash) :
    SetupOperation Token → Except AccountError (SetupAnswer × SetupState Token Hash)
  | .prepare rotate token now =>
    (prepareSetup hash s rotate token now).map fun (status, s') => (.prepared status, s')
  | .complete token id username email now =>
    (completeSetup hash casing s.database token id username email now).map fun (user, database) =>
      (.admin user, { s with database })
  | .bootstrap id username email now =>
    (bootstrapAdmin casing s.database id username email now).map fun (user, database) =>
      (.admin user, { s with database })

/-- What a call answers, and what it leaves. An interrupted call is rolled back, except for the file
it may have replaced. -/
def SetupCall.execute (s : SetupState Token Hash) (call : SetupCall Token) :
    Except AccountError SetupAnswer × SetupState Token Hash :=
  match call.operation.run hash casing s with
  | .error error => (.error error, s)
  | .ok (answer, s') =>
    match call.interruption with
    | none => (.ok answer, s')
    | some .beforeFile => (.error .interrupted, s)
    | some .beforeCommit => (.error .interrupted, { s with file := s'.file })

def SetupState.step (s : SetupState Token Hash) (call : SetupCall Token) : SetupState Token Hash :=
  (call.execute hash casing s).2

/-- The tokens that the calls generate, as hashes. -/
def generatedHashes (calls : List (SetupCall Token)) : List Hash :=
  calls.filterMap fun call => match call.operation with
    | .prepare _ token _ => some (hash token)
    | _ => none

/-! ## What a call can do -/

/-- What an operation answers and leaves. -/
inductive SetupChange (s : SetupState Token Hash) :
    SetupOperation Token → SetupAnswer → SetupState Token Hash → Prop
  | completed {operation} (h : s.completed) : SetupChange s operation (.prepared .completed) s
  | reused {operation} (h : ¬s.completed) : SetupChange s operation (.prepared .reused) s
  | closed {operation} (h : ¬s.completed) (now : ℤ) :
    SetupChange s operation (.prepared .completed) { s with database.setup := some ⟨none, some now⟩ }
  | issued (rotate : Bool) (token : Token) (now : ℤ) (h : ¬s.completed) :
    SetupChange s (.prepare rotate token now) (.prepared (if rotate then .rotated else .created))
      { database := { s.database with setup := some ⟨some (hash token), none⟩ }
        file := .holds token }
  | admin {operation} (user : User) (now : ℤ) (h : ¬s.completed)
    (hrole : user.role = .admin) (hadmins : ∀ existing ∈ s.database.users, existing.role ≠ .admin)
    (haccepts : ∀ token id username email now, operation = .complete token id username email now →
      s.tokenHash = some (hash token)) :
    SetupChange s operation (.admin user)
      { s with database := ⟨s.database.users ++ [user], some ⟨none, some now⟩⟩ }

variable {hash casing} {s s' : SetupState Token Hash}

theorem createFirstAdminLocked_eq_ok {users : List User} {id : ℕ} {username email : List Char}
    {user : User} (h : createFirstAdminLocked casing users id username email = .ok user) :
    (∀ existing ∈ users, existing.role ≠ .admin) ∧
      loginConflict casing users (loginIdentifiers casing username email) = false ∧
      user = ⟨id, strip username, normalizeIdentifier casing email, .admin, .active, none⟩ := by
  rw [createFirstAdminLocked] at h
  split at h
  · next hadmins =>
    split at h
    · cases h
    · next hconflict =>
      cases h
      refine ⟨fun existing hexisting hrole => ?_, by simpa using hconflict, rfl⟩
      exact List.filter_eq_nil_iff.mp hadmins existing hexisting (decide_eq_true hrole)
  · cases h
  · cases h

theorem completeSetup_eq_ok {database database' : SetupDatabase Hash} {token : Token} {id : ℕ}
    {username email : List Char} {now : ℤ} {user : User}
    (h : completeSetup hash casing database token id username email now = .ok (user, database')) :
    database.setup.any (·.completedAt.isSome) = false ∧
      database.setup.bind (·.tokenHash) = some (hash token) ∧
      createFirstAdminLocked casing database.users id username email = .ok user ∧
      database' = ⟨database.users ++ [user], some ⟨none, some now⟩⟩ := by
  rw [completeSetup] at h
  split at h
  · cases h
  · next setup hsetup =>
    rw [hsetup]
    split at h
    · cases h
    · next hcompleted =>
      split at h
      · cases h
      · next htoken =>
        obtain ⟨created, hcreated, h⟩ := Except.bind_eq_ok.mp h
        cases h
        exact ⟨by simpa using hcompleted, not_not.mp htoken, hcreated, rfl⟩

theorem SetupOperation.run_eq_ok {operation : SetupOperation Token} {answer : SetupAnswer}
    (h : operation.run hash casing s = .ok (answer, s')) :
    SetupChange hash s operation answer s' := by
  cases operation with
  | prepare rotate token now =>
    obtain ⟨⟨status, s''⟩, hprepare, h⟩ := Except.map_eq_ok.mp h
    cases h
    rw [prepareSetup] at hprepare
    split at hprepare
    · next hcompleted =>
      cases hprepare
      exact .completed hcompleted
    · next hcompleted =>
      split at hprepare
      · cases hprepare
        exact .closed hcompleted now
      · split at hprepare
        · obtain ⟨held, -, hprepare⟩ := Except.bind_eq_ok.mp hprepare
          split at hprepare
          · cases hprepare
            exact .reused hcompleted
          · cases hprepare
        · cases hprepare
          exact .issued rotate token now hcompleted
  | complete token id username email now =>
    obtain ⟨⟨user, database⟩, hcomplete, h⟩ := Except.map_eq_ok.mp h
    cases h
    obtain ⟨hcompleted, htoken, hcreate, rfl⟩ := completeSetup_eq_ok hcomplete
    obtain ⟨hadmins, -, huser⟩ := createFirstAdminLocked_eq_ok hcreate
    refine .admin user now (by simp [SetupState.completed, hcompleted]) (huser ▸ rfl) hadmins ?_
    rintro _ _ _ _ _ ⟨⟩
    exact htoken
  | bootstrap id username email now =>
    obtain ⟨⟨user, database⟩, hbootstrap, h⟩ := Except.map_eq_ok.mp h
    cases h
    rw [bootstrapAdmin] at hbootstrap
    split at hbootstrap
    · cases hbootstrap
    · next hcompleted =>
      obtain ⟨created, hcreate, h⟩ := Except.bind_eq_ok.mp hbootstrap
      cases h
      obtain ⟨hadmins, -, huser⟩ := createFirstAdminLocked_eq_ok hcreate
      exact .admin user now hcompleted (huser ▸ rfl) hadmins nofun

variable (hash casing) in
/-- A call that answers has run, and one that raises leaves the database alone. -/
theorem SetupCall.execute_cases (s : SetupState Token Hash) (call : SetupCall Token) :
    (∃ answer s', call.execute hash casing s = (.ok answer, s') ∧
      SetupChange hash s call.operation answer s') ∨
    ∃ error s', call.execute hash casing s = (.error error, s') ∧ s'.database = s.database := by
  rw [SetupCall.execute]
  cases hrun : call.operation.run hash casing s with
  | error error => exact .inr ⟨error, s, rfl, rfl⟩
  | ok result =>
    obtain ⟨answer, s'⟩ := result
    dsimp only
    cases call.interruption with
    | none => exact .inl ⟨answer, s', rfl, SetupOperation.run_eq_ok hrun⟩
    | some interruption =>
      cases interruption with
      | beforeFile => exact .inr ⟨_, _, rfl, rfl⟩
      | beforeCommit => exact .inr ⟨_, _, rfl, rfl⟩

theorem SetupCall.execute_error {call : SetupCall Token} {error : AccountError}
    (h : (call.execute hash casing s).1 = .error error) :
    (call.execute hash casing s).2.database = s.database := by
  obtain ⟨answer, s', heq, -⟩ | ⟨error', s', heq, hdatabase⟩ := call.execute_cases hash casing s
  · rw [heq] at h
    cases h
  · rw [heq]
    exact hdatabase

/-! ## Administrators -/

def HasAdmin (users : List User) : Prop := ∃ user ∈ users, user.role = .admin

variable (hash casing) in
/-- A call adds an administrator if there is none, and no other user. -/
theorem SetupState.step_users (s : SetupState Token Hash) (call : SetupCall Token) :
    (s.step hash casing call).database.users = s.database.users ∨
      ¬HasAdmin s.database.users ∧ ∃ user, user.role = .admin ∧
        (s.step hash casing call).database.users = s.database.users ++ [user] := by
  rw [SetupState.step]
  obtain ⟨answer, s', heq, hchange⟩ | ⟨error, s', heq, hdatabase⟩ :=
    call.execute_cases hash casing s
  · rw [heq]
    generalize call.operation = operation at hchange
    cases hchange with
    | completed => exact .inl rfl
    | reused => exact .inl rfl
    | closed => exact .inl rfl
    | issued => exact .inl rfl
    | admin user _ _ hrole hadmins =>
      refine .inr ⟨?_, user, hrole, rfl⟩
      rintro ⟨existing, hexisting, hadmin⟩
      exact hadmins existing hexisting hadmin
  · rw [heq, hdatabase]
    exact .inl rfl

theorem run_users (s : SetupState Token Hash) (calls : List (SetupCall Token)) :
    ∃ created, (run (SetupState.step hash casing) s calls).database.users =
        s.database.users ++ created ∧
      created.length ≤ 1 ∧ (HasAdmin s.database.users → created = []) := by
  induction calls generalizing s with
  | nil => exact ⟨[], (List.append_nil _).symm, Nat.zero_le 1, fun _ => rfl⟩
  | cons call calls ih =>
    obtain ⟨created, husers, hlength, hcreated⟩ := ih (s.step hash casing call)
    rw [run_cons, husers]
    obtain hsame | ⟨hadmin, user, hrole, hadded⟩ := s.step_users hash casing call
    · rw [hsame] at hcreated ⊢
      exact ⟨created, rfl, hlength, hcreated⟩
    · have hnone : created = [] := by
        refine hcreated ⟨user, ?_, hrole⟩
        rw [hadded]
        exact List.mem_append_right _ (List.mem_singleton_self user)
      rw [hadded, hnone, List.append_nil]
      exact ⟨[user], rfl, le_rfl, fun h => absurd h hadmin⟩

/-! ## Tokens -/

variable (hash casing) in
/-- A call leaves the hash, clears it, or replaces it by that of the token it generates. -/
theorem SetupState.step_tokenHash (s : SetupState Token Hash) (call : SetupCall Token) :
    (s.step hash casing call).tokenHash = s.tokenHash ∨
      (s.step hash casing call).tokenHash = none ∨
      ∃ h ∈ generatedHashes hash [call], (s.step hash casing call).tokenHash = some h := by
  rw [SetupState.step]
  obtain ⟨answer, s', heq, hchange⟩ | ⟨error, s', heq, hdatabase⟩ :=
    call.execute_cases hash casing s
  · rw [heq]
    generalize hoperation : call.operation = operation at hchange
    cases hchange with
    | completed => exact .inl rfl
    | reused => exact .inl rfl
    | closed => exact .inr (.inl rfl)
    | issued rotate token now =>
      exact .inr (.inr ⟨hash token, by simp [generatedHashes, hoperation], rfl⟩)
    | admin => exact .inr (.inl rfl)
  · rw [heq, SetupState.tokenHash, SetupState.tokenHash, hdatabase]
    exact .inl rfl

omit [DecidableEq Hash] in
theorem generatedHashes_cons (call : SetupCall Token) (calls : List (SetupCall Token)) :
    generatedHashes hash (call :: calls) =
      generatedHashes hash [call] ++ generatedHashes hash calls :=
  List.filterMap_append (l := [call])

/-- A hash that is not in the row, and that no call generates, does not come into the row. -/
theorem run_tokenHash_ne {calls : List (SetupCall Token)} {h : Hash} (hs : s.tokenHash ≠ some h)
    (hgenerated : h ∉ generatedHashes hash calls) :
    (run (SetupState.step hash casing) s calls).tokenHash ≠ some h := by
  induction calls generalizing s with
  | nil => exact hs
  | cons call calls ih =>
    rw [generatedHashes_cons, List.mem_append, not_or] at hgenerated
    refine ih ?_ hgenerated.2
    obtain hsame | hnone | ⟨new, hnew, hreplaced⟩ :=
      s.step_tokenHash hash casing call
    · rwa [hsame]
    · rw [hnone]
      exact nofun
    · rw [hreplaced]
      rintro ⟨⟩
      exact hgenerated.1 hnew

/-- The hash in the row is the initial one or has been generated. -/
theorem mem_of_run_tokenHash {calls : List (SetupCall Token)} {h : Hash}
    (hrun : (run (SetupState.step hash casing) s calls).tokenHash = some h) :
    h ∈ s.tokenHash.toList ++ generatedHashes hash calls := by
  by_contra hnot
  rw [List.mem_append, not_or, Option.mem_toList] at hnot
  exact run_tokenHash_ne hnot.1 hnot.2 hrun

variable (hash casing) in
/-- The call consumes the token, or commits its rotation. -/
def Retires (s : SetupState Token Hash) (call : SetupCall Token) (token : Token) : Prop :=
  (∃ id username email now user, call.operation = .complete token id username email now ∧
      (call.execute hash casing s).1 = .ok (.admin user)) ∨
    s.tokenHash = some (hash token) ∧ (call.execute hash casing s).1 = .ok (.prepared .rotated)

/-- A retired token was the current one, and is it no longer. -/
theorem Retires.tokenHash {call : SetupCall Token} {token : Token}
    (h : Retires hash casing s call token) :
    s.tokenHash = some (hash token) ∧
      ((s.step hash casing call).tokenHash = none ∨
        ∃ new ∈ generatedHashes hash [call], (s.step hash casing call).tokenHash = some new) := by
  rw [SetupState.step]
  obtain ⟨answer, s', heq, hchange⟩ | ⟨error, s', heq, -⟩ :=
    call.execute_cases hash casing s
  · rw [Retires, heq] at h
    rw [heq]
    generalize hoperation : call.operation = operation at h hchange
    rcases h with ⟨id, username, email, now, user, hcomplete, hanswer⟩ | ⟨htoken, hanswer⟩
    · cases hanswer
      cases hchange with
      | admin user _ _ _ _ haccepts => exact ⟨haccepts _ _ _ _ _ hcomplete, .inl rfl⟩
    · refine ⟨htoken, ?_⟩
      cases hanswer
      generalize hstatus : PrepareStatus.rotated = status at hchange
      cases hchange with
      | completed => cases hstatus
      | reused => cases hstatus
      | closed => cases hstatus
      | issued rotate token now =>
        exact .inr ⟨hash token, by simp [generatedHashes, hoperation], rfl⟩
  · rw [Retires, heq] at h
    rcases h with ⟨_, _, _, _, _, -, hanswer⟩ | ⟨-, hanswer⟩ <;> cases hanswer

/-! ## Completion -/

theorem SetupState.completed.run_operation (h : s.completed) {operation : SetupOperation Token}
    {answer : SetupAnswer} (hok : operation.run hash casing s = .ok (answer, s')) :
    answer = .prepared .completed ∧ s' = s := by
  cases SetupOperation.run_eq_ok hok with
  | completed => exact ⟨rfl, rfl⟩
  | reused hopen => exact absurd h hopen
  | closed hopen => exact absurd h hopen
  | issued _ _ _ hopen => exact absurd h hopen
  | admin _ _ hopen => exact absurd h hopen

/-- Once setup is completed, a call does nothing. -/
theorem SetupState.completed.execute (h : s.completed) (call : SetupCall Token) :
    (call.execute hash casing s).2 = s ∧
      ∀ answer, (call.execute hash casing s).1 = .ok answer → answer = .prepared .completed := by
  rw [SetupCall.execute]
  split
  · exact ⟨rfl, nofun⟩
  · next answer s' hok =>
    obtain ⟨rfl, rfl⟩ := h.run_operation hok
    cases call.interruption with
    | none => exact ⟨rfl, fun answer hanswer => (Except.ok.inj hanswer).symm⟩
    | some interruption =>
      cases interruption with
      | beforeFile => exact ⟨rfl, nofun⟩
      | beforeCommit => exact ⟨rfl, nofun⟩

theorem SetupState.completed.run (h : s.completed) (calls : List (SetupCall Token)) :
    Apanel.run (SetupState.step hash casing) s calls = s := by
  induction calls with
  | nil => rfl
  | cons call calls ih => rw [run_cons, SetupState.step, (h.execute call).1, ih]

/-- A retired token is not accepted after any further calls. -/
theorem Retires.not_accepted {before between : List (SetupCall Token)} {call : SetupCall Token}
    {token : Token}
    (h : Retires hash casing (run (SetupState.step hash casing) s before) call token)
    (hfresh : (s.tokenHash.toList ++ generatedHashes hash (before ++ call :: between)).Nodup)
    (id : ℕ) (username email : List Char) (now : ℤ) (result : User × SetupDatabase Hash) :
    completeSetup hash casing (run (SetupState.step hash casing) s (before ++ call :: between)).database
      token id username email now ≠ .ok result := by
  intro haccepted
  obtain ⟨-, htoken, -⟩ := completeSetup_eq_ok haccepted
  obtain ⟨hcurrent, hreplaced⟩ := h.tokenHash
  have hseen := mem_of_run_tokenHash hcurrent
  have hnew : hash token ∉ generatedHashes hash (call :: between) := by
    rw [generatedHashes, List.filterMap_append, ← List.append_assoc] at hfresh
    exact fun hmem => (List.nodup_append.mp hfresh).2.2 _ hseen _ hmem rfl
  rw [generatedHashes_cons, List.mem_append, not_or] at hnew
  rw [run_append, run_cons] at htoken
  refine run_tokenHash_ne ?_ hnew.2 htoken
  rcases hreplaced with hnone | ⟨new, hgenerated, hsome⟩
  · rw [hnone]
    exact nofun
  · rw [hsome]
    rintro ⟨⟩
    exact hnew.1 hgenerated

variable (hash casing) in
/-- In every run of setup calls whose generated tokens are new: the calls create at most one user, an
administrator, and none if there is one; a token that has been consumed, or whose rotation has been
committed, is never accepted again; once setup is completed, no call issues or accepts a token; and a
call that raises leaves the database alone. -/
theorem installation_oneShot (s : SetupState Token Hash) (calls : List (SetupCall Token))
    (hfresh : (s.tokenHash.toList ++ generatedHashes hash calls).Nodup) :
    (∃ created, (run (SetupState.step hash casing) s calls).database.users =
        s.database.users ++ created ∧
      created.length ≤ 1 ∧ (HasAdmin s.database.users → created = [])) ∧
    (∀ before call between rest, calls = before ++ call :: between ++ rest → ∀ token,
      Retires hash casing (run (SetupState.step hash casing) s before) call token →
        ∀ id username email now result, completeSetup hash casing
          (run (SetupState.step hash casing) s (before ++ call :: between)).database
            token id username email now ≠ .ok result) ∧
    (∀ before rest, calls = before ++ rest →
      (run (SetupState.step hash casing) s before).completed → ∀ call : SetupCall Token,
        (call.execute hash casing (run (SetupState.step hash casing) s calls)).2 =
            run (SetupState.step hash casing) s calls ∧
          ∀ answer, (call.execute hash casing (run (SetupState.step hash casing) s calls)).1 =
            .ok answer → answer = .prepared .completed) ∧
    ∀ before call rest, calls = before ++ call :: rest → ∀ error,
      (call.execute hash casing (run (SetupState.step hash casing) s before)).1 = .error error →
        (call.execute hash casing (run (SetupState.step hash casing) s before)).2.database =
          (run (SetupState.step hash casing) s before).database := by
  refine ⟨run_users s calls, ?_, ?_, fun _ _ _ _ _ => SetupCall.execute_error⟩
  · rintro before call between rest rfl token hretires
    rw [generatedHashes, List.filterMap_append, ← List.append_assoc] at hfresh
    exact hretires.not_accepted (List.nodup_append.mp hfresh).1
  · rintro before rest rfl hcompleted call
    rw [run_append, hcompleted.run]
    exact hcompleted.execute call

end Setup

/-! ## A rotation that is interrupted, and one that is committed -/

/-- The first token is issued, rotated in the file only, and rotated; the last one is consumed. -/
def rotationCalls : List (SetupCall ℕ) :=
  [⟨.prepare false 1 0, none⟩, ⟨.prepare true 2 1, some .beforeCommit⟩, ⟨.prepare true 3 2, none⟩,
    ⟨.complete 3 1 ['a'] ['b'] 3, none⟩]

/-- The run of the calls, on an empty database. -/
def rotationState (calls : List (SetupCall ℕ)) : SetupState ℕ ℕ :=
  run (SetupState.step (fun token => token) .latin) ⟨⟨[], none⟩, .missing⟩ calls

theorem installation_oneShot_rotation :
    ¬∃ id username email now result, completeSetup (fun token : ℕ => token) .latin
      (rotationState (rotationCalls.take 3)).database 1 id username email now = .ok result := by
  rintro ⟨id, username, email, now, result, haccepted⟩
  have hretires : Retires (fun token => token) .latin (rotationState (rotationCalls.take 2))
      ⟨.prepare true 3 2, none⟩ 1 := .inr ⟨rfl, rfl⟩
  exact (installation_oneShot (fun token => token) .latin ⟨⟨[], none⟩, .missing⟩ rotationCalls
    (by decide)).2.1 (rotationCalls.take 2) _ [] (rotationCalls.drop 3) rfl 1 hretires id username
      email now result haccepted

end Apanel
