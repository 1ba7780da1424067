import Apanel.Backend.InstallationSetup
import Apanel.Library.Locks

/-!
# Registration

`register_user` and the writers of the first administrator, statement by statement: the steps of any
number of requests interleave, each statement reads what is committed, and row and advisory locks are
held to the end of the transaction. No constraint of the database keeps a username apart from an
email; `registration_safe` rests on the advisory locks of the identifiers, taken before the query
for conflicts. A token stands for its hash.
-/

namespace Apanel

inductive InvitationStatus
  | pending
  | accepted
  | revoked
  | expired
  deriving DecidableEq

/-- A row of `invitations`, less its key `token_hash`. Times are microseconds. -/
structure Invitation where
  email : List Char
  status : InvitationStatus
  createdBy : ℕ
  expiresAt : ℤ
  acceptedAt : Option ℤ
  deriving DecidableEq

/-- The committed rows. -/
structure AccountDatabase (Hash : Type) [LinearOrder Hash] where
  users : List User
  invitations : Table Hash Invitation
  setup : Option (InstallationSetup Hash)

inductive AccountOperation (Hash : Type)
  | register (inviteToken : Hash) (username : List Char) (email : Option (List Char))
  | complete (token : Hash) (username email : List Char)
  | bootstrap (username email : List Char)

/-- A user about to be added, and the invitation this consumes; without one it closes the setup. -/
structure Creation (Hash : Type) where
  user : User
  invitation : Option Hash

/-- How far the transaction of a request has come. -/
inductive AccountPhase (Hash : Type)
  | started
  | bootstrapLocked
  | reserving (creation : Creation Hash) (locked remaining : List (List Char))
  | checked (creation : Creation Hash) (locked : List (List Char))
  | closing (invitation : Option Hash) (expire : Bool)

/-- A request in flight. `now` is read before its transaction begins, and `id` is the one that the
sequence of `users` gives it. -/
structure AccountRequest (Hash : Type) where
  operation : AccountOperation Hash
  now : ℤ
  id : ℕ
  phase : AccountPhase Hash

inductive AccountLock (Hash : Type)
  | advisory (key : ℤ)
  | invitation (tokenHash : Hash)
  deriving DecidableEq

structure AccountState (Hash : Type) [LinearOrder Hash] where
  database : AccountDatabase Hash
  requests : Table ℕ (AccountRequest Hash)

/-- One step of the service. Requests are numbered by the caller. -/
inductive AccountAction (Hash : Type)
  | begin (request : ℕ) (operation : AccountOperation Hash) (now : ℤ) (id : ℕ)
  | invite (admin : User) (email : List Char) (tokenHash : Hash) (expiresAt : ℤ)
  | proceed (request : ℕ)
  | commit (request : ℕ)
  | rollback (request : ℕ)

/-- What the next statement of a request leads to. -/
inductive Outcome (Hash : Type)
  | blocked
  | next (phase : AccountPhase Hash)
  | raised (error : AccountError)

/-- `BOOTSTRAP_ADMIN_ADVISORY_LOCK_KEY`. -/
def bootstrapAdminAdvisoryLockKey : ℤ := 4839176021

section Service

variable {Hash : Type} [LinearOrder Hash] (casing : Lowercase) (key : List Char → ℤ)

local instance lawfulBEq_hash : LawfulBEq Hash := inferInstance

/-! ## Statements -/

/-- `register_user` from the locked row on, up to the reservation of the identifiers. -/
def registerInvited (invitation : Option Invitation) (inviteToken : Hash) (now : ℤ) (id : ℕ)
    (username : List Char) (email : Option (List Char)) : AccountPhase Hash :=
  match invitation with
  | none => .closing none false
  | some invitation =>
    if invitation.status ≠ .pending then .closing (some inviteToken) false
    else if invitation.expiresAt ≤ now then .closing (some inviteToken) true
    else if email.any fun email => email ≠ [] ∧
        normalizeIdentifier casing email ≠ normalizeIdentifier casing invitation.email then
      .closing (some inviteToken) false
    else
      .reserving
        { user :=
            { id
              username := strip username
              email := invitation.email
              role := .user
              status := .active
              invitedBy := some invitation.createdBy }
          invitation := some inviteToken }
        [] (loginIdentifiers casing username invitation.email)

/-- The first query of `_create_first_admin_locked`. -/
def checkNoAdmin (users : List User) : Except AccountError Unit :=
  match users.filter (·.role = .admin) with
  | [] => .ok ()
  | [_] => .error .adminAlreadyExists
  | _ :: _ :: _ => .error .multipleResultsFound

/-- The checks of `complete_setup` and of `bootstrap_admin` on the row of `installation_setup`. -/
def checkSetup (setup : Option (InstallationSetup Hash)) (token : Option Hash) :
    Except AccountError Unit :=
  match token with
  | none => if setup.any (·.completedAt.isSome) then .error .adminAlreadyExists else .ok ()
  | some token =>
    match setup with
    | none => .error .setupNotReady
    | some setup =>
      if setup.completedAt.isSome then .error .setupAlreadyCompleted
      else if setup.tokenHash ≠ some token then .error .invalidSetupToken
      else .ok ()

/-- An administrator's creation, up to the reservation of the identifiers. -/
def createAdmin (database : AccountDatabase Hash) (token : Option Hash) (id : ℕ)
    (username email : List Char) : Outcome Hash :=
  match (do checkSetup database.setup token; checkNoAdmin database.users) with
  | .error error => .raised error
  | .ok () =>
    .next <| .reserving
      { user :=
          { id
            username := strip username
            email := normalizeIdentifier casing email
            role := .admin
            status := .active
            invitedBy := none }
        invitation := none }
      [] (loginIdentifiers casing username email)

/-! ## Locks -/

/-- The lock under which a creation was prepared. -/
def Creation.lock (creation : Creation Hash) : AccountLock Hash :=
  match creation.invitation with
  | some invitation => .invitation invitation
  | none => .advisory bootstrapAdminAdvisoryLockKey

def AccountPhase.held : AccountPhase Hash → List (AccountLock Hash)
  | .started => []
  | .bootstrapLocked => [.advisory bootstrapAdminAdvisoryLockKey]
  | .reserving creation locked _ => creation.lock :: locked.map fun x => .advisory (key x)
  | .checked creation locked => creation.lock :: locked.map fun x => .advisory (key x)
  | .closing invitation _ => invitation.toList.map .invitation

def AccountRequest.held (request : AccountRequest Hash) : List (AccountLock Hash) :=
  request.phase.held key

namespace AccountState

/-- No other request holds the lock. -/
def Free (s : AccountState Hash) (r : ℕ) (lock : AccountLock Hash) : Prop :=
  Locks.Free (AccountRequest.held key) s.requests r lock

instance (s : AccountState Hash) (r : ℕ) (lock : AccountLock Hash) : Decidable (s.Free key r lock) :=
  inferInstanceAs (Decidable (Locks.Free ..))

/-- The next statement of a request; `_reserve_login_identifiers` takes one lock at a time. -/
def nextStatement (s : AccountState Hash) (r : ℕ) (request : AccountRequest Hash) : Outcome Hash :=
  match request.phase with
  | .started =>
    match request.operation with
    | .register inviteToken username email =>
      if inviteToken ∈ s.database.invitations.keys ∧
          ¬s.Free key r (.invitation inviteToken) then .blocked
      else .next (registerInvited casing (s.database.invitations.get? inviteToken) inviteToken
        request.now request.id username email)
    | _ =>
      if s.Free key r (.advisory bootstrapAdminAdvisoryLockKey) then .next .bootstrapLocked
      else .blocked
  | .bootstrapLocked =>
    match request.operation with
    | .register .. => .blocked
    | .complete token username email =>
      createAdmin casing s.database (some token) request.id username email
    | .bootstrap username email => createAdmin casing s.database none request.id username email
  | .reserving creation locked (x :: remaining) =>
    if s.Free key r (.advisory (key x)) then
      .next (.reserving creation (locked ++ [x]) remaining)
    else .blocked
  | .reserving creation locked [] =>
    if loginConflict casing s.database.users locked then .raised .invalidRequest
    else .next (.checked creation locked)
  | .checked .. => .blocked
  | .closing .. => .blocked

end AccountState

/-! ## Commits -/

/-- The update of one row of `invitations`. -/
def updateInvitation (invitations : Table Hash Invitation) (hash : Hash)
    (f : Invitation → Invitation) : Table Hash Invitation :=
  invitations.mapRows fun hash' row => if hash' = hash then f row else row

/-- A creation adds its user, and consumes its invitation or closes the setup. -/
def Creation.apply (creation : Creation Hash) (now : ℤ) (database : AccountDatabase Hash) :
    AccountDatabase Hash :=
  match creation.invitation with
  | some invitation =>
    { database with
      users := database.users ++ [creation.user]
      invitations := updateInvitation database.invitations invitation fun row =>
        { row with status := .accepted, acceptedAt := some now } }
  | none =>
    { database with
      users := database.users ++ [creation.user]
      setup := some ⟨none, some now⟩ }

/-- What an administrator's creation comes to when nothing runs in between. -/
def Outcome.finish (database : AccountDatabase Hash) (now : ℤ) :
    Outcome Hash → Except AccountError (User × SetupDatabase Hash)
  | .next (.reserving creation locked remaining) =>
    if loginConflict casing database.users (locked ++ remaining) then .error .invalidRequest
    else .ok (creation.user,
      ⟨(creation.apply now database).users, (creation.apply now database).setup⟩)
  | .next _ => .error .invalidRequest
  | .blocked => .error .interrupted
  | .raised error => .error error

/-- What the transaction of a request commits. -/
def AccountRequest.apply (request : AccountRequest Hash) (database : AccountDatabase Hash) :
    AccountDatabase Hash :=
  match request.phase with
  | .checked creation _ => creation.apply request.now database
  | .closing (some invitation) true =>
    { database with
      invitations := updateInvitation database.invitations invitation fun row =>
        { row with status := .expired } }
  | _ => database

/-- What a transaction that has come to its end answers once it has committed. -/
def AccountRequest.answer (request : AccountRequest Hash) :
    Option (Except AccountError (Creation Hash)) :=
  match request.phase with
  | .checked creation _ => some (.ok creation)
  | .closing .. => some (.error .invalidInvitation)
  | _ => none

/-- The row of `create_invitation`. -/
def Invitation.created (admin : User) (email : List Char) (expiresAt : ℤ) : Invitation where
  email := normalizeIdentifier casing email
  status := .pending
  createdBy := admin.id
  expiresAt
  acceptedAt := none

namespace AccountState

/-- Before the first user; the setup may be in any state. -/
def initial (setup : Option (InstallationSetup Hash)) : AccountState Hash := ⟨⟨[], ∅, setup⟩, ∅⟩

/-- A step that is not enabled changes nothing. -/
def step (s : AccountState Hash) : AccountAction Hash → AccountState Hash
  | .begin r operation now id =>
    if r ∈ s.requests.keys then s
    else { s with requests := s.requests.insert r { operation, now, id, phase := .started } }
  | .invite admin email tokenHash expiresAt =>
    if admin.role = .admin ∧ admin.status = .active ∧ tokenHash ∉ s.database.invitations.keys then
      { s with database.invitations :=
          s.database.invitations.insert tokenHash (.created casing admin email expiresAt) }
    else s
  | .proceed r =>
    match s.requests.get? r with
    | none => s
    | some request =>
      match s.nextStatement casing key r request with
      | .blocked => s
      | .next phase => { s with requests := s.requests.insert r { request with phase } }
      | .raised _ => { s with requests := s.requests.erase r }
  | .commit r =>
    match s.requests.get? r with
    | none => s
    | some request =>
      if request.answer.isSome then ⟨request.apply s.database, s.requests.erase r⟩ else s
  | .rollback r => { s with requests := s.requests.erase r }

end AccountState

/-! ## Outcomes -/

/-- The creation that a step commits. -/
def AccountState.created (s : AccountState Hash) : AccountAction Hash → Option (Creation Hash)
  | .commit r =>
    match (s.requests.get? r).bind AccountRequest.answer with
    | some (.ok creation) => some creation
    | _ => none
  | _ => none

def AccountAction.request : AccountAction Hash → Option ℕ
  | .begin r _ _ _ => some r
  | .invite .. => none
  | .proceed r => some r
  | .commit r => some r
  | .rollback r => some r

/-- Nothing is changed but the status of pending invitations that have expired by `now`. -/
structure AccountDatabase.OnlyExpires (database database' : AccountDatabase Hash) (now : ℤ) :
    Prop where
  users : database'.users = database.users
  setup : database'.setup = database.setup
  invitations (hash : Hash) :
    database'.invitations.get? hash = database.invitations.get? hash ∨
      ∃ row, database.invitations.get? hash = some row ∧ row.status = .pending ∧
        row.expiresAt ≤ now ∧
        database'.invitations.get? hash = some { row with status := .expired }

/-! ## Logging in -/

inductive IdentifierType
  | auto
  | username
  | email

/-- The clause of `authenticate_and_issue_tokens` for an identifier already normalized. -/
def loginClause (identifierType : IdentifierType) (identifier : List Char) (user : User) : Bool :=
  match identifierType with
  | .auto => casing.lower user.username = identifier ∨ casing.lower user.email = identifier
  | .username => casing.lower user.username = identifier
  | .email => casing.lower user.email = identifier

/-- The user whose password `authenticate_and_issue_tokens` checks. -/
def matchLogin (users : List User) (identifierType : IdentifierType) (username : List Char) :
    Option User :=
  match (users.filter (loginClause casing identifierType
    (normalizeIdentifier casing username))).take 2 with
  | [user] => some user
  | _ => none

/-! ## Invariant -/

/-- No login of one user is one of the other. -/
def User.Distinct (u v : User) : Prop := ∀ x ∈ u.logins casing, x ∉ v.logins casing

def User.Stripped (user : User) : Prop :=
  strip user.username = user.username ∧ strip user.email = user.email

/-- A creation reserves the logins of its user, and its invitation is pending. -/
structure Creation.Sound (creation : Creation Hash) (invitations : Table Hash Invitation)
    (identifiers : List (List Char)) : Prop where
  stripped : creation.user.Stripped
  logins : ∀ x ∈ creation.user.logins casing, x ∈ identifiers
  pending : ∀ hash ∈ creation.invitation, ∃ invitation,
    invitations.get? hash = some invitation ∧ invitation.status = .pending

def AccountPhase.Sound (database : AccountDatabase Hash) (now : ℤ) : AccountPhase Hash → Prop
  | .reserving creation locked remaining =>
    creation.Sound casing database.invitations (locked ++ remaining)
  | .checked creation locked =>
    creation.Sound casing database.invitations locked ∧
      loginConflict casing database.users locked = false
  | .closing invitation true => ∀ hash ∈ invitation, ∃ row,
    database.invitations.get? hash = some row ∧ row.status = .pending ∧ row.expiresAt ≤ now
  | _ => True

structure AccountState.Sound (s : AccountState Hash) : Prop where
  exclusive : Locks.Exclusive (AccountRequest.held key) s.requests
  requests {r : ℕ} {request : AccountRequest Hash} :
    s.requests.get? r = some request → request.phase.Sound casing s.database request.now
  distinct : s.database.users.Pairwise (User.Distinct casing)
  stripped : ∀ user ∈ s.database.users, user.Stripped
  emails {hash : Hash} {invitation : Invitation} :
    s.database.invitations.get? hash = some invitation → strip invitation.email = invitation.email

variable {casing key}

theorem mem_loginIdentifiers {username email x : List Char} :
    x ∈ loginIdentifiers casing username email ↔
      x = normalizeIdentifier casing username ∨ x = normalizeIdentifier casing email := by
  rw [loginIdentifiers, List.mem_insertionSort, List.mem_dedup, List.mem_pair]

theorem strip_normalizeIdentifier (value : List Char) :
    strip (normalizeIdentifier casing value) = normalizeIdentifier casing value :=
  casing.strip_lower _ (strip_strip value)

theorem loginConflict_eq_false {users : List User} {identifiers : List (List Char)} :
    loginConflict casing users identifiers = false ↔
      ∀ user ∈ users, ∀ x ∈ user.logins casing, x ∉ identifiers := by
  simp [loginConflict]

theorem registerInvited_sound {database : AccountDatabase Hash} {inviteToken : Hash}
    (hemails : ∀ invitation, database.invitations.get? inviteToken = some invitation →
      strip invitation.email = invitation.email)
    (now : ℤ) (id : ℕ) (username : List Char) (email : Option (List Char)) :
    (registerInvited casing (database.invitations.get? inviteToken) inviteToken now id username
      email).Sound casing database now := by
  cases hinvitation : database.invitations.get? inviteToken with
  | none => trivial
  | some invitation =>
    rw [registerInvited]
    split
    · trivial
    · next hpending =>
      have hpending : invitation.status = .pending := not_not.mp hpending
      split
      · next hexpired =>
        rintro hash ⟨⟩
        exact ⟨invitation, hinvitation, hpending, hexpired⟩
      · split
        · trivial
        · refine ⟨⟨strip_strip username, hemails invitation hinvitation⟩, fun x hx => ?_, ?_⟩
          · rw [List.nil_append, mem_loginIdentifiers, normalizeIdentifier, normalizeIdentifier,
              hemails invitation hinvitation]
            exact List.mem_pair.mp hx
          · rintro hash ⟨⟩
            exact ⟨invitation, hinvitation, hpending⟩

omit [LinearOrder Hash] in
/-- The row lock is the only one that `register_user` has taken so far, if there is a row. -/
theorem held_registerInvited {invitation : Option Invitation} {inviteToken : Hash} {now : ℤ} {id : ℕ}
    {username : List Char} {email : Option (List Char)} {lock : AccountLock Hash}
    (h : lock ∈ (registerInvited casing invitation inviteToken now id username email).held key) :
    invitation.isSome ∧ lock = .invitation inviteToken := by
  cases invitation with
  | none => cases h
  | some invitation =>
    refine ⟨rfl, ?_⟩
    rw [registerInvited] at h
    split_ifs at h <;> exact List.mem_singleton.mp h

variable (key) in
theorem createAdmin_sound {database : AccountDatabase Hash} {token : Option Hash} {id : ℕ}
    {username email : List Char} {phase : AccountPhase Hash}
    (h : createAdmin casing database token id username email = .next phase) (now : ℤ) :
    phase.Sound casing database now ∧
      phase.held key = [.advisory bootstrapAdminAdvisoryLockKey] := by
  rw [createAdmin] at h
  split at h
  · cases h
  · cases h
    refine ⟨⟨⟨strip_strip username, strip_normalizeIdentifier email⟩, fun x hx => ?_, nofun⟩, rfl⟩
    rw [List.nil_append, mem_loginIdentifiers]
    rcases List.mem_pair.mp hx with rfl | rfl
    · exact .inl rfl
    · exact .inr (casing.lower_lower _)

/-! A request with nothing in between does as the calls of `InstallationSetup` do. -/

theorem finish_createAdmin (database : AccountDatabase Hash) (token : Option Hash) (id : ℕ)
    (username email : List Char) (now : ℤ) :
    (createAdmin casing database token id username email).finish casing database now = (do
      checkSetup database.setup token
      let user ← createFirstAdminLocked casing database.users id username email
      .ok (user, ⟨database.users ++ [user], some ⟨none, some now⟩⟩)) := by
  rw [createAdmin, createFirstAdminLocked]
  cases checkSetup database.setup token with
  | error error => rfl
  | ok =>
    rw [checkNoAdmin]
    dsimp only [bind, Except.bind]
    cases database.users.filter (·.role = .admin) with
    | nil =>
      dsimp only
      rw [Outcome.finish, List.nil_append]
      split_ifs <;> rfl
    | cons user rest => cases rest <;> rfl

theorem completeSetup_eq_finish {Token : Type} (hash : Token → Hash) (database : AccountDatabase Hash)
    (token : Token) (id : ℕ) (username email : List Char) (now : ℤ) :
    completeSetup hash casing ⟨database.users, database.setup⟩ token id username email now =
      (createAdmin casing database (some (hash token)) id username email).finish casing database
        now := by
  rw [finish_createAdmin, completeSetup]
  cases database.setup with
  | none => rfl
  | some setup =>
    rw [checkSetup]
    dsimp only
    split_ifs <;> rfl

theorem bootstrapAdmin_eq_finish (database : AccountDatabase Hash) (id : ℕ)
    (username email : List Char) (now : ℤ) :
    bootstrapAdmin casing ⟨database.users, database.setup⟩ id username email now =
      (createAdmin casing database none id username email).finish casing database now := by
  rw [finish_createAdmin, bootstrapAdmin, checkSetup]
  split_ifs <;> rfl

/-- A statement takes the request to a sound phase, and takes free locks only. -/
theorem AccountState.Sound.nextStatement {s : AccountState Hash} (h : s.Sound casing key) {r : ℕ}
    {request : AccountRequest Hash} (hrequest : s.requests.get? r = some request)
    {phase : AccountPhase Hash} (hnext : s.nextStatement casing key r request = .next phase) :
    phase.Sound casing s.database request.now ∧
      ∀ lock ∈ phase.held key, lock ∈ request.held key ∨ s.Free key r lock := by
  have hsound := h.requests hrequest
  obtain ⟨operation, now, id, current⟩ := request
  rw [AccountState.nextStatement] at hnext
  have hbootstrap (hnext : (if s.Free key r (.advisory bootstrapAdminAdvisoryLockKey) then
      Outcome.next AccountPhase.bootstrapLocked else .blocked) = .next phase) :
      phase.Sound casing s.database now ∧
        ∀ lock ∈ phase.held key, lock ∈ current.held key ∨ s.Free key r lock := by
    split at hnext
    · next hfree =>
      cases hnext
      exact ⟨trivial, fun lock hlock => .inr (List.mem_singleton.mp hlock ▸ hfree)⟩
    · cases hnext
  cases current with
  | started =>
    cases operation with
    | register inviteToken username email =>
      dsimp only at hnext
      split at hnext
      · cases hnext
      · next hfree =>
        cases hnext
        refine ⟨registerInvited_sound (fun _ => h.emails) now id username email, ?_⟩
        intro lock hlock
        obtain ⟨hrow, rfl⟩ := held_registerInvited hlock
        rw [not_and, not_not] at hfree
        exact .inr (hfree (Table.mem_keys.mpr (Option.isSome_iff_exists.mp hrow)))
    | complete token username email => exact hbootstrap hnext
    | bootstrap username email => exact hbootstrap hnext
  | bootstrapLocked =>
    cases operation with
    | register => cases hnext
    | complete token username email =>
      obtain ⟨hnew, hheld⟩ := createAdmin_sound key hnext now
      exact ⟨hnew, fun lock hlock => .inl (by rwa [hheld] at hlock)⟩
    | bootstrap username email =>
      obtain ⟨hnew, hheld⟩ := createAdmin_sound key hnext now
      exact ⟨hnew, fun lock hlock => .inl (by rwa [hheld] at hlock)⟩
  | reserving creation locked remaining =>
    cases remaining with
    | nil =>
      dsimp only at hnext
      split at hnext
      · cases hnext
      · next hconflict =>
        cases hnext
        have hcreation : creation.Sound casing s.database.invitations (locked ++ []) := hsound
        rw [List.append_nil] at hcreation
        exact ⟨⟨hcreation, by simpa using hconflict⟩, fun lock hlock => .inl hlock⟩
    | cons x remaining =>
      dsimp only at hnext
      split at hnext
      · next hfree =>
        cases hnext
        refine ⟨?_, fun lock hlock => ?_⟩
        · change creation.Sound casing s.database.invitations (locked ++ [x] ++ remaining)
          rw [List.append_assoc]
          exact hsound
        · rw [AccountPhase.held, List.map_append, ← List.cons_append, List.mem_append,
            List.map_singleton, List.mem_singleton] at hlock
          rcases hlock with hlock | rfl
          · exact .inl hlock
          · exact .inr hfree
      · cases hnext
  | checked => cases hnext
  | closing => cases hnext

/-! ## Frames -/

theorem get?_updateInvitation_self (invitations : Table Hash Invitation) (hash : Hash)
    (f : Invitation → Invitation) :
    (updateInvitation invitations hash f).get? hash = (invitations.get? hash).map f := by
  rw [updateInvitation, Table.get?_mapRows]
  simp

theorem get?_updateInvitation_of_ne {invitations : Table Hash Invitation} {hash hash' : Hash}
    (hne : hash' ≠ hash) (f : Invitation → Invitation) :
    (updateInvitation invitations hash f).get? hash' = invitations.get? hash' := by
  rw [updateInvitation, Table.get?_mapRows]
  simp [hne]

/-- A commit changes no invitation that its request has not locked. -/
theorem get?_apply_invitations {request : AccountRequest Hash} {database : AccountDatabase Hash}
    {hash : Hash} (h : .invitation hash ∉ request.held key) :
    (request.apply database).invitations.get? hash = database.invitations.get? hash := by
  have hupdate {hash' : Hash} {f : Invitation → Invitation}
      (hmem : AccountLock.invitation hash' ∈ request.held key) :
      (updateInvitation database.invitations hash' f).get? hash = database.invitations.get? hash := by
    refine get?_updateInvitation_of_ne ?_ f
    rintro rfl
    exact h hmem
  rw [AccountRequest.held] at hupdate
  rw [AccountRequest.apply]
  split
  · next creation locked hphase =>
    rw [Creation.apply]
    split
    · next hash' hinvitation =>
      refine hupdate ?_
      rw [hphase, AccountPhase.held, Creation.lock, hinvitation]
      exact List.mem_cons_self
    · rfl
  · next hash' hphase =>
    refine hupdate ?_
    rw [hphase]
    exact List.mem_singleton_self _
  · rfl

theorem apply_users (request : AccountRequest Hash) (database : AccountDatabase Hash) :
    (request.apply database).users = database.users ∨ ∃ creation locked,
      request.phase = .checked creation locked ∧
        (request.apply database).users = database.users ++ [creation.user] := by
  rw [AccountRequest.apply]
  split
  · next creation locked hphase =>
    refine .inr ⟨creation, locked, hphase, ?_⟩
    rw [Creation.apply]
    split <;> rfl
  · exact .inl rfl
  · exact .inl rfl

omit [LinearOrder Hash] in
theorem mem_held_of_mem_locked {creation : Creation Hash} {locked : List (List Char)} {x : List Char}
    (hx : x ∈ locked) : .advisory (key x) ∈ (AccountPhase.checked creation locked).held key :=
  List.mem_cons_of_mem _ (List.mem_map_of_mem hx)

theorem Creation.Sound.congr {creation : Creation Hash} {invitations invitations' : Table Hash Invitation}
    {identifiers : List (List Char)} (h : creation.Sound casing invitations identifiers)
    (hsame : ∀ hash ∈ creation.invitation, invitations'.get? hash = invitations.get? hash) :
    creation.Sound casing invitations' identifiers where
  stripped := h.stripped
  logins := h.logins
  pending hash hhash := by
    rw [hsame hash hhash]
    exact h.pending hash hhash

/-- A commit leaves a request sound that shares no lock with it. -/
theorem AccountPhase.Sound.frame {request other : AccountRequest Hash} {database : AccountDatabase Hash}
    (hlocks : ∀ lock ∈ request.held key, lock ∉ other.held key)
    (hrequest : request.phase.Sound casing database request.now)
    (hother : other.phase.Sound casing database other.now) :
    other.phase.Sound casing (request.apply database) other.now := by
  have hinvitation {hash : Hash} (hheld : .invitation hash ∈ other.held key) :
      (request.apply database).invitations.get? hash = database.invitations.get? hash :=
    get?_apply_invitations fun hmem => hlocks _ hmem hheld
  have hcreation {creation : Creation Hash} (hlock : creation.lock ∈ other.held key) (hash : Hash)
      (hhash : hash ∈ creation.invitation) :
      (request.apply database).invitations.get? hash = database.invitations.get? hash := by
    refine hinvitation ?_
    rw [Creation.lock, Option.mem_def.mp hhash] at hlock
    exact hlock
  obtain ⟨operation, now, id, phase⟩ := other
  cases phase with
  | started => trivial
  | bootstrapLocked => trivial
  | reserving creation locked remaining =>
    have hsound : creation.Sound casing database.invitations (locked ++ remaining) := hother
    exact hsound.congr (hcreation List.mem_cons_self)
  | checked creation locked =>
    obtain ⟨hsound, hconflict⟩ := hother
    refine ⟨hsound.congr (hcreation List.mem_cons_self), ?_⟩
    obtain husers | ⟨creation', locked', hphase, husers⟩ := apply_users request database
    · rw [husers]
      exact hconflict
    · rw [loginConflict_eq_false] at hconflict ⊢
      intro user huser x hx hlocked
      rw [husers] at huser
      rcases List.mem_append.mp huser with huser | huser
      · exact hconflict user huser x hx hlocked
      · cases List.mem_singleton.mp huser
        rw [hphase] at hrequest
        refine hlocks (.advisory (key x)) ?_ (mem_held_of_mem_locked hlocked)
        rw [AccountRequest.held, hphase]
        exact mem_held_of_mem_locked (hrequest.1.logins x hx)
  | closing invitation expire =>
    cases expire with
    | false => trivial
    | true =>
      intro hash hhash
      obtain ⟨row, hrow, hpending⟩ := hother hash hhash
      refine ⟨row, ?_, hpending⟩
      rw [hinvitation, hrow]
      exact List.mem_map_of_mem (Option.mem_toList.mpr hhash)

/-! ## Steps -/

theorem apply_emails {request : AccountRequest Hash} {database : AccountDatabase Hash} {hash : Hash}
    {row : Invitation} (h : (request.apply database).invitations.get? hash = some row) :
    ∃ old, database.invitations.get? hash = some old ∧ row.email = old.email := by
  have hupdate {hash' : Hash} {f : Invitation → Invitation}
      (h : (updateInvitation database.invitations hash' f).get? hash = some row)
      (hf : ∀ x, (f x).email = x.email) :
      ∃ old, database.invitations.get? hash = some old ∧ row.email = old.email := by
    by_cases heq : hash = hash'
    · subst heq
      rw [get?_updateInvitation_self] at h
      obtain ⟨old, hold, rfl⟩ := Option.map_eq_some_iff.mp h
      exact ⟨old, hold, hf old⟩
    · rw [get?_updateInvitation_of_ne heq] at h
      exact ⟨row, h, rfl⟩
  rw [AccountRequest.apply] at h
  split at h
  · rw [Creation.apply] at h
    split at h
    · exact hupdate h fun _ => rfl
    · exact ⟨row, h, rfl⟩
  · exact hupdate h fun _ => rfl
  · exact ⟨row, h, rfl⟩

namespace AccountState.Sound

theorem initial (setup : Option (InstallationSetup Hash)) :
    (initial setup).Sound casing key where
  exclusive := .empty
  requests h := by cases h
  distinct := .nil
  stripped _ h := by cases h
  emails h := by cases h

variable {s : AccountState Hash}

/-- What a request has written is not seen before it commits. -/
theorem insert (h : s.Sound casing key) {r : ℕ} {request : AccountRequest Hash}
    (hsound : request.phase.Sound casing s.database request.now)
    (hlocks : ∀ lock ∈ request.held key,
      (∃ old, s.requests.get? r = some old ∧ lock ∈ old.held key) ∨ s.Free key r lock) :
    ({ s with requests := s.requests.insert r request } : AccountState Hash).Sound casing key where
  exclusive := h.exclusive.insert hlocks
  requests {r'} request' hget := by
    rw [Table.get?_insert] at hget
    split at hget
    · cases hget
      exact hsound
    · exact h.requests hget
  distinct := h.distinct
  stripped := h.stripped
  emails := h.emails

theorem erase (h : s.Sound casing key) (r : ℕ) :
    ({ s with requests := s.requests.erase r } : AccountState Hash).Sound casing key where
  exclusive := h.exclusive.erase r
  requests {r'} request' hget := by
    rw [Table.get?_erase] at hget
    split at hget
    · cases hget
    · exact h.requests hget
  distinct := h.distinct
  stripped := h.stripped
  emails := h.emails

theorem commit (h : s.Sound casing key) {r : ℕ} {request : AccountRequest Hash}
    (hrequest : s.requests.get? r = some request) :
    (⟨request.apply s.database, s.requests.erase r⟩ : AccountState Hash).Sound casing key where
  exclusive := h.exclusive.erase r
  requests {r'} request' hget := by
    rw [Table.get?_erase] at hget
    split at hget
    · cases hget
    · next hne =>
      exact .frame (h.exclusive r r' _ _ hrequest hget (Ne.symm hne)) (h.requests hrequest)
        (h.requests hget)
  distinct := by
    obtain husers | ⟨creation, locked, hphase, husers⟩ := apply_users request s.database
    · exact husers ▸ h.distinct
    · obtain ⟨hcreation, hconflict⟩ := hphase ▸ h.requests hrequest
      rw [husers]
      refine List.pairwise_append.mpr ⟨h.distinct, List.pairwise_singleton _ _, ?_⟩
      intro user huser user' huser' x hx hx'
      cases List.mem_singleton.mp huser'
      exact loginConflict_eq_false.mp hconflict user huser x hx (hcreation.logins x hx')
  stripped user huser := by
    obtain husers | ⟨creation, locked, hphase, husers⟩ := apply_users request s.database
    · exact h.stripped user (husers ▸ huser)
    · obtain ⟨hcreation, -⟩ := hphase ▸ h.requests hrequest
      rcases List.mem_append.mp (husers ▸ huser) with huser | huser
      · exact h.stripped user huser
      · cases List.mem_singleton.mp huser
        exact hcreation.stripped
  emails hget := by
    obtain ⟨old, hold, hemail⟩ := apply_emails hget
    rw [hemail]
    exact h.emails hold

theorem invite (h : s.Sound casing key) {tokenHash : Hash}
    (hnew : tokenHash ∉ s.database.invitations.keys) (admin : User) (email : List Char)
    (expiresAt : ℤ) :
    ({ s with database.invitations :=
        s.database.invitations.insert tokenHash (.created casing admin email expiresAt) } :
      AccountState Hash).Sound casing key where
  exclusive := h.exclusive
  requests {r request} hrequest := by
    have hsame {hash : Hash} {row : Invitation} (hrow : s.database.invitations.get? hash = some row) :
        (s.database.invitations.insert tokenHash (.created casing admin email expiresAt)).get? hash =
          s.database.invitations.get? hash := by
      refine Table.get?_insert_of_ne ?_
      rintro rfl
      exact hnew (Table.mem_keys.mpr ⟨row, hrow⟩)
    have hcreation {creation : Creation Hash} {identifiers : List (List Char)}
        (hsound : creation.Sound casing s.database.invitations identifiers) :
        creation.Sound casing (s.database.invitations.insert tokenHash
          (.created casing admin email expiresAt)) identifiers :=
      hsound.congr fun hash hhash => (hsound.pending hash hhash).elim fun _ hrow => hsame hrow.1
    have hsound := h.requests hrequest
    obtain ⟨operation, now, id, phase⟩ := request
    cases phase with
    | started => trivial
    | bootstrapLocked => trivial
    | reserving creation locked remaining => exact hcreation hsound
    | checked creation locked => exact ⟨hcreation hsound.1, hsound.2⟩
    | closing invitation expire =>
      cases expire with
      | false => trivial
      | true =>
        intro hash hhash
        obtain ⟨row, hrow, hpending⟩ := hsound hash hhash
        exact ⟨row, (hsame hrow).trans hrow, hpending⟩
  distinct := h.distinct
  stripped := h.stripped
  emails hget := by
    rw [Table.get?_insert] at hget
    split at hget
    · cases hget
      exact strip_normalizeIdentifier email
    · exact h.emails hget

theorem step (h : s.Sound casing key) (a : AccountAction Hash) :
    (s.step casing key a).Sound casing key := by
  cases a with
  | begin r operation now id =>
    rw [AccountState.step]
    split
    · exact h
    · exact h.insert trivial (fun lock hlock => absurd hlock List.not_mem_nil)
  | invite admin email tokenHash expiresAt =>
    rw [AccountState.step]
    split
    · next hnew => exact h.invite hnew.2.2 admin email expiresAt
    · exact h
  | proceed r =>
    rw [AccountState.step]
    split
    · exact h
    · next request hrequest =>
      split
      · exact h
      · next phase hnext =>
        obtain ⟨hsound, hlocks⟩ := h.nextStatement hrequest hnext
        refine h.insert hsound fun lock hlock => ?_
        exact (hlocks lock hlock).imp_left fun hheld => ⟨request, hrequest, hheld⟩
      · exact h.erase r
  | commit r =>
    rw [AccountState.step]
    split
    · exact h
    · next request hrequest =>
      split
      · exact h.commit hrequest
      · exact h
  | rollback r => exact h.erase r

theorem run (setup : Option (InstallationSetup Hash)) (actions : List (AccountAction Hash)) :
    (Apanel.run (AccountState.step casing key) (AccountState.initial setup) actions).Sound casing key :=
  run_preserves (AccountState.Sound casing key) (fun _ a h => h.step a) (.initial setup) actions

end AccountState.Sound

/-! ## Results -/

theorem get?_apply_of_ne_pending {request : AccountRequest Hash} {database : AccountDatabase Hash}
    (h : request.phase.Sound casing database request.now) {hash : Hash} {row : Invitation}
    (hrow : database.invitations.get? hash = some row) (hstatus : row.status ≠ .pending) :
    (request.apply database).invitations.get? hash = some row := by
  have hne {hash' : Hash} (hpending : ∃ row, database.invitations.get? hash' = some row ∧
      row.status = .pending) : hash ≠ hash' := by
    rintro rfl
    obtain ⟨row', hrow', hpending⟩ := hpending
    cases hrow.symm.trans hrow'
    exact hstatus hpending
  rw [AccountRequest.apply]
  split
  · next creation locked hphase =>
    rw [hphase] at h
    rw [Creation.apply]
    split
    · next hash' hinvitation =>
      rw [← hrow]
      exact get?_updateInvitation_of_ne (hne (h.1.pending hash' hinvitation)) _
    · exact hrow
  · next hash' hphase =>
    rw [hphase] at h
    obtain ⟨row', hrow', hpending, -⟩ := h hash' rfl
    rw [← hrow]
    exact get?_updateInvitation_of_ne (hne ⟨row', hrow', hpending⟩) _
  · exact hrow

namespace AccountState

variable {s : AccountState Hash}

theorem created_commit {r : ℕ} {creation : Creation Hash}
    (h : s.created (.commit r) = some creation) :
    ∃ request locked, s.requests.get? r = some request ∧
      request.phase = .checked creation locked := by
  rw [created] at h
  split at h
  · next creation' hanswer =>
    cases h
    obtain ⟨request, hrequest, hanswer⟩ := Option.bind_eq_some_iff.mp hanswer
    rw [AccountRequest.answer] at hanswer
    split at hanswer
    · next creation' locked hphase =>
      cases hanswer
      exact ⟨request, locked, hrequest, hphase⟩
    · cases hanswer
    · cases hanswer
  · cases h

/-- A step adds the user it creates and no other. -/
theorem users_step (a : AccountAction Hash) :
    (s.step casing key a).database.users =
      s.database.users ++ (s.created a).toList.map Creation.user := by
  cases a with
  | begin r operation now id =>
    rw [step]
    split <;> exact (List.append_nil _).symm
  | invite admin email tokenHash expiresAt =>
    rw [step]
    split <;> exact (List.append_nil _).symm
  | proceed r =>
    rw [step]
    split
    · exact (List.append_nil _).symm
    · split <;> exact (List.append_nil _).symm
  | commit r =>
    rw [step, created]
    cases hrequest : s.requests.get? r with
    | none => exact (List.append_nil _).symm
    | some request =>
      obtain ⟨operation, now, id, phase⟩ := request
      cases phase with
      | checked creation locked =>
        change (creation.apply now s.database).users = _
        rw [Creation.apply]
        split <;> rfl
      | closing invitation expire =>
        cases invitation <;> cases expire <;> exact (List.append_nil _).symm
      | _ => exact (List.append_nil _).symm
  | rollback r => exact (List.append_nil _).symm

theorem Sound.accepted_step (h : s.Sound casing key) {hash : Hash} {row : Invitation}
    (hrow : s.database.invitations.get? hash = some row) (hstatus : row.status ≠ .pending)
    (a : AccountAction Hash) :
    (s.step casing key a).database.invitations.get? hash = some row := by
  cases a with
  | begin r operation now id =>
    rw [AccountState.step]
    split <;> exact hrow
  | invite admin email tokenHash expiresAt =>
    rw [AccountState.step]
    split
    · next hnew =>
      refine (Table.get?_insert_of_ne ?_).trans hrow
      rintro rfl
      exact hnew.2.2 (Table.mem_keys.mpr ⟨row, hrow⟩)
    · exact hrow
  | proceed r =>
    rw [AccountState.step]
    split
    · exact hrow
    · split <;> exact hrow
  | commit r =>
    rw [AccountState.step]
    split
    · exact hrow
    · next request hrequest =>
      split
      · exact get?_apply_of_ne_pending (h.requests hrequest) hrow hstatus
      · exact hrow
  | rollback r => exact hrow

/-- The invitation of a creation was pending, and its commit has it accepted. -/
theorem Sound.created_invitation (h : s.Sound casing key) {a : AccountAction Hash} {hash : Hash}
    (hcreated : (s.created a).bind Creation.invitation = some hash) :
    ∃ row, s.database.invitations.get? hash = some row ∧ row.status = .pending ∧ ∃ row',
      (s.step casing key a).database.invitations.get? hash = some row' ∧ row'.status = .accepted := by
  obtain ⟨creation, hcreated, hinvitation⟩ := Option.bind_eq_some_iff.mp hcreated
  cases a with
  | commit r =>
    obtain ⟨request, locked, hrequest, hphase⟩ := created_commit hcreated
    have hsound := h.requests hrequest
    rw [hphase] at hsound
    obtain ⟨row, hrow, hpending⟩ := hsound.1.pending hash hinvitation
    refine ⟨row, hrow, hpending, { row with status := .accepted, acceptedAt := some request.now }, ?_, rfl⟩
    rw [AccountState.step, hrequest]
    dsimp only
    rw [if_pos (by rw [AccountRequest.answer, hphase]; rfl), AccountRequest.apply, hphase]
    dsimp only
    rw [Creation.apply, hinvitation]
    dsimp only
    rw [get?_updateInvitation_self, hrow]
    rfl
  | _ => cases hcreated

/-- How far an invitation that has created `n` users has come. -/
def Consumed (s : AccountState Hash) (hash : Hash) (n : ℕ) : Prop :=
  n = 0 ∨ n = 1 ∧ ∃ row, s.database.invitations.get? hash = some row ∧ row.status = .accepted

theorem Sound.consumed_step (h : s.Sound casing key) {hash : Hash} {n : ℕ} (hn : s.Consumed hash n)
    (a : AccountAction Hash) :
    (s.step casing key a).Consumed hash
      (n + if (s.created a).bind Creation.invitation = some hash then 1 else 0) := by
  split
  · next hcreated =>
    obtain ⟨row, hrow, hpending, haccepted⟩ := h.created_invitation hcreated
    rcases hn with rfl | ⟨-, row', hrow', haccepted'⟩
    · exact .inr ⟨rfl, haccepted⟩
    · cases hrow.symm.trans hrow'
      cases hpending.symm.trans haccepted'
  · rcases hn with rfl | ⟨rfl, row, hrow, haccepted⟩
    · exact .inl rfl
    · refine .inr ⟨rfl, row, h.accepted_step hrow ?_ a, haccepted⟩
      rw [haccepted]
      exact nofun

/-- An invitation that has created a user is accepted for good. -/
theorem created_at_most_once (setup : Option (InstallationSetup Hash)) (hash : Hash)
    (actions : List (AccountAction Hash)) :
    countSteps (step casing key) (fun s a => (s.created a).bind Creation.invitation = some hash)
      (initial setup) actions ≤ 1 := by
  have hrun := countSteps_invariant
    (fun (s : AccountState Hash) n => s.Sound casing key ∧ s.Consumed hash n)
    (fun s a n h _ => ⟨h.1.step a, h.1.consumed_step h.2 a⟩) ⟨.initial setup, .inl rfl⟩
    (always_of_forall (fun a (_ : a ∈ actions) => trivial) _)
  rw [Nat.zero_add] at hrun
  rcases hrun.2 with hn | ⟨hn, -⟩ <;> omega

end AccountState

namespace AccountDatabase.OnlyExpires

theorem refl (database : AccountDatabase Hash) (now : ℤ) : database.OnlyExpires database now :=
  ⟨rfl, rfl, fun _ => .inl rfl⟩

end AccountDatabase.OnlyExpires

/-- A request that does not commit a creation changes nothing but what has expired. -/
theorem AccountState.Sound.onlyExpires {s : AccountState Hash} (h : s.Sound casing key) {r : ℕ}
    {request : AccountRequest Hash} (hrequest : s.requests.get? r = some request)
    {a : AccountAction Hash} (ha : a.request = some r) (hrefused : s.created a = none) :
    s.database.OnlyExpires (s.step casing key a).database request.now := by
  cases a with
  | begin r operation now id =>
    rw [AccountState.step]
    split <;> exact .refl s.database request.now
  | invite => cases ha
  | proceed r =>
    rw [AccountState.step]
    split
    · exact .refl s.database request.now
    · split <;> exact .refl s.database request.now
  | commit r =>
    cases ha
    rw [AccountState.step, hrequest]
    dsimp only
    split
    · have hsound := h.requests hrequest
      obtain ⟨operation, now, id, phase⟩ := request
      cases phase with
      | checked creation locked =>
        rw [AccountState.created, hrequest] at hrefused
        cases hrefused
      | closing invitation expire =>
        cases invitation with
        | none => exact .refl s.database now
        | some hash =>
          cases expire with
          | false => exact .refl s.database now
          | true =>
            refine ⟨rfl, rfl, fun hash' => ?_⟩
            obtain ⟨row, hrow, hpending, hexpired⟩ := hsound hash rfl
            by_cases heq : hash' = hash
            · subst heq
              refine .inr ⟨row, hrow, hpending, hexpired, ?_⟩
              exact (get?_updateInvitation_self ..).trans (congrArg _ hrow)
            · exact .inl (get?_updateInvitation_of_ne heq _)
      | _ => exact .refl s.database now
    · exact .refl s.database request.now
  | rollback r => exact .refl s.database request.now

theorem filter_eq_singleton_of_pairwise {α : Type} {p : α → Bool} {l : List α} {x : α}
    (hl : l.Pairwise fun y z => p y → p z → False) (hx : x ∈ l) (hpx : p x) : l.filter p = [x] := by
  obtain ⟨front, back, rfl⟩ := List.append_of_mem hx
  obtain ⟨-, hback, hfront⟩ := List.pairwise_append.mp hl
  rw [List.filter_append, List.filter_cons_of_pos hpx,
    List.filter_eq_nil_iff.mpr fun y hy hpy => hfront y hy x List.mem_cons_self hpy hpx,
    List.filter_eq_nil_iff.mpr fun y hy hpy => List.rel_of_pairwise_cons hback hy hpx hpy,
    List.nil_append]

/-- With no login in common, a login of one user matches that user alone. -/
theorem matchLogin_eq_some {users : List User} (hdistinct : users.Pairwise (User.Distinct casing))
    {user : User} (huser : user ∈ users) {identifier : List Char}
    (hlogin : normalizeIdentifier casing identifier ∈ user.logins casing) :
    matchLogin casing users .auto identifier = some user := by
  have hclause {user : User} : loginClause casing .auto (normalizeIdentifier casing identifier) user ↔
      normalizeIdentifier casing identifier ∈ user.logins casing := by
    rw [loginClause, decide_eq_true_iff, User.logins, List.mem_pair, eq_comm,
      @eq_comm _ (casing.lower user.email)]
  rw [matchLogin, filter_eq_singleton_of_pairwise _ huser (hclause.mpr hlogin)]
  · rfl
  · exact hdistinct.imp fun h hu hv => h _ (hclause.mp hu) (hclause.mp hv)

variable (casing) in
theorem User.Stripped.mem_logins {user : User} (h : user.Stripped) :
    normalizeIdentifier casing user.username ∈ user.logins casing ∧
      normalizeIdentifier casing user.email ∈ user.logins casing := by
  rw [normalizeIdentifier, normalizeIdentifier, h.1, h.2, User.logins]
  simp

/-- In every run an invitation creates one user at most, no login of a user is one of another so
that either identifier matches its owner, and a refused registration creates no user and changes no
invitation except that it may mark an expired one. -/
theorem registration_safe (casing : Lowercase) (key : List Char → ℤ)
    (setup : Option (InstallationSetup Hash)) (actions : List (AccountAction Hash)) :
    let s := run (AccountState.step casing key) (AccountState.initial setup) actions
    (∀ hash, countSteps (AccountState.step casing key)
      (fun s a => (s.created a).bind Creation.invitation = some hash)
      (AccountState.initial setup) actions ≤ 1) ∧
    (∀ a, (s.step casing key a).database.users =
      s.database.users ++ (s.created a).toList.map Creation.user) ∧
    s.database.users.Pairwise (User.Distinct casing) ∧
    (∀ user ∈ s.database.users,
      matchLogin casing s.database.users .auto user.username = some user ∧
      matchLogin casing s.database.users .auto user.email = some user ∧
      ∀ identifier, normalizeIdentifier casing identifier ∈ user.logins casing →
        matchLogin casing s.database.users .auto identifier = some user) ∧
    ∀ r request a, s.requests.get? r = some request → a.request = some r →
      s.created a = none →
        s.database.OnlyExpires (s.step casing key a).database request.now := by
  intro s
  have h : s.Sound casing key := .run setup actions
  refine ⟨fun hash => AccountState.created_at_most_once setup hash actions,
    AccountState.users_step, h.distinct, fun user huser => ?_,
    fun r request a hrequest ha hrefused => h.onlyExpires hrequest ha hrefused⟩
  have hlogins := (h.stripped user huser).mem_logins casing
  exact ⟨matchLogin_eq_some h.distinct huser hlogins.1,
    matchLogin_eq_some h.distinct huser hlogins.2,
    fun identifier hlogin => matchLogin_eq_some h.distinct huser hlogin⟩

end Service

end Apanel
