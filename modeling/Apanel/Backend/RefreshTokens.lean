import Apanel.Library.Table
import Apanel.Library.Transition

/-!
# Refresh-token families

`refresh_tokens`, `logout` and the session a login opens (`app/services/auth_service.py`). A request
is one transaction: it resolves the family of the presented token, waits for the advisory lock of
that family, reads the token's row and executes its statements, and commits or is rolled back; the
steps of any number of requests interleave. A token stands for its hash. The two generators of the
service are taken at their word: a login's family id is new, and nobody presents a generated token
before the commit that stores it (`State.Unguessed`).
-/

namespace Apanel

/-- A row of `refresh_sessions`. Times are microseconds. -/
structure RefreshSession (Token Family : Type) where
  userId : ℕ
  tokenHash : Token
  familyId : Family
  issuedAt : ℤ
  expiresAt : ℤ
  usedAt : Option ℤ
  revokedAt : Option ℤ
  replacedByHash : Option Token
  deriving DecidableEq

/-- Unused, unrevoked and unexpired. -/
def RefreshSession.live {Token Family : Type} (row : RefreshSession Token Family) (now : ℤ) : Bool :=
  row.usedAt.isNone && row.revokedAt.isNone && !(row.expiresAt ≤ now)

/-- The row of an issued token. -/
def RefreshSession.issued {Token Family : Type} (ttl : ℤ) (userId : ℕ) (tokenHash : Token)
    (familyId : Family) (now : ℤ) : RefreshSession Token Family where
  userId := userId
  tokenHash := tokenHash
  familyId := familyId
  issuedAt := now
  expiresAt := now + ttl
  usedAt := none
  revokedAt := none
  replacedByHash := none

/-- The committed rows, by `token_hash` (a unique index). -/
abbrev RefreshSessions (Token Family : Type) [LinearOrder Token] :=
  Table Token (RefreshSession Token Family)

/-- A statement that changes rows. -/
inductive SessionWrite (Token Family : Type)
  | use (tokenHash newHash : Token) (now : ℤ)
  | revoke (tokenHashes : List Token) (now : ℤ)
  | add (row : RefreshSession Token Family)

inductive TokenRequestKind
  | refresh
  | logout
  deriving DecidableEq

/-- What a request answers once its transaction has committed. -/
inductive TokenResult (Token : Type)
  | accepted (newHash : Token)
  | refused
  | loggedOut
  deriving DecidableEq

/-- How far the transaction of a request has come. -/
inductive TokenPhase (Token Family : Type)
  | started
  | resolved (family : Option Family)
  | locked (family : Option Family)
  | executed (family : Option Family) (writes : List (SessionWrite Token Family))
      (result : TokenResult Token)

/-- A request in flight; `now` is read before its transaction begins. -/
structure TokenRequest (Token Family : Type) where
  kind : TokenRequestKind
  tokenHash : Token
  now : ℤ
  phase : TokenPhase Token Family

section Service

variable {Token Family : Type} [LinearOrder Token] [DecidableEq Family]

def SessionWrite.apply (sessions : RefreshSessions Token Family) :
    SessionWrite Token Family → RefreshSessions Token Family
  | .use tokenHash newHash now => sessions.mapRows fun hash row =>
      if hash = tokenHash then { row with usedAt := some now, replacedByHash := some newHash } else row
  | .revoke tokenHashes now => sessions.mapRows fun hash row =>
      if hash ∈ tokenHashes then { row with revokedAt := some now } else row
  | .add row => sessions.insert row.tokenHash row

/-- `_revoke_family`: the rows the statement sees. -/
def revokeFamily (sessions : RefreshSessions Token Family) (familyId : Family) (now : ℤ) :
    SessionWrite Token Family :=
  .revoke (sessions.filterMap fun _ row =>
    if row.familyId = familyId ∧ row.revokedAt = none then some row else none).keys now

/-- The statements of `refresh_tokens` from its locked read on. -/
def refreshTokens (ttl : ℤ) (sessions : RefreshSessions Token Family) (tokenHash : Token) (now : ℤ)
    (newHash : Token) (userActive : Bool) :
    List (SessionWrite Token Family) × TokenResult Token :=
  match sessions.get? tokenHash with
  | none => ([], .refused)
  | some row =>
    if row.usedAt.isSome || row.revokedAt.isSome || row.expiresAt ≤ now then
      ([revokeFamily sessions row.familyId now], .refused)
    else if !userActive then ([revokeFamily sessions row.familyId now], .refused)
    else
      ([.use tokenHash newHash now,
        .add (.issued ttl row.userId newHash row.familyId now)], .accepted newHash)

/-- The statements of `logout` from its locked read on. -/
def logout (sessions : RefreshSessions Token Family) (tokenHash : Token) (now : ℤ) :
    List (SessionWrite Token Family) × TokenResult Token :=
  match sessions.get? tokenHash with
  | none => ([], .loggedOut)
  | some row => ([revokeFamily sessions row.familyId now], .loggedOut)

def TokenRequest.transaction (ttl : ℤ) (sessions : RefreshSessions Token Family)
    (request : TokenRequest Token Family) (newHash : Token) (userActive : Bool) :
    List (SessionWrite Token Family) × TokenResult Token :=
  match request.kind with
  | .refresh => refreshTokens ttl sessions request.tokenHash request.now newHash userActive
  | .logout => logout sessions request.tokenHash request.now

/-! ## Interleavings -/

/-- The family whose advisory lock the request holds. -/
def TokenPhase.heldLock : TokenPhase Token Family → Option Family
  | .locked family => family
  | .executed family _ _ => family
  | _ => none

structure AuthState (Token Family : Type) [LinearOrder Token] where
  sessions : RefreshSessions Token Family
  requests : Table ℕ (TokenRequest Token Family)

namespace AuthState

def initial : AuthState Token Family := ⟨∅, ∅⟩

def LockFree (s : AuthState Token Family) (family : Family) : Prop :=
  ∀ row ∈ s.requests.rows, row.2.phase.heldLock ≠ some family

/-- No request in flight presents the token. -/
def Unguessed (s : AuthState Token Family) (tokenHash : Token) : Prop :=
  ∀ row ∈ s.requests.rows, row.2.tokenHash ≠ tokenHash

/-- No session belongs to the family. -/
def NewFamily (s : AuthState Token Family) (familyId : Family) : Prop :=
  ∀ row ∈ s.sessions.rows, row.2.familyId ≠ familyId

instance (s : AuthState Token Family) (family : Family) : Decidable (s.LockFree family) :=
  inferInstanceAs (Decidable (∀ row ∈ s.requests.rows, row.2.phase.heldLock ≠ some family))

instance (s : AuthState Token Family) (tokenHash : Token) : Decidable (s.Unguessed tokenHash) :=
  inferInstanceAs (Decidable (∀ row ∈ s.requests.rows, row.2.tokenHash ≠ tokenHash))

instance (s : AuthState Token Family) (familyId : Family) : Decidable (s.NewFamily familyId) :=
  inferInstanceAs (Decidable (∀ row ∈ s.sessions.rows, row.2.familyId ≠ familyId))

end AuthState

/-- One step of the service. Requests are numbered by the caller. -/
inductive AuthAction (Token Family : Type)
  | login (userId : ℕ) (tokenHash : Token) (familyId : Family) (now : ℤ)
  | present (request : ℕ) (kind : TokenRequestKind) (tokenHash : Token) (now : ℤ)
  | resolve (request : ℕ)
  | lock (request : ℕ)
  | execute (request : ℕ) (newHash : Token) (userActive : Bool)
  | commit (request : ℕ)
  | rollback (request : ℕ)

namespace AuthState

/-- The request whose transaction commits in a step, with its statements and its answer. A token
hash that is stored already violates the unique index. -/
def committing (s : AuthState Token Family) :
    AuthAction Token Family →
      Option (TokenRequest Token Family × List (SessionWrite Token Family) × TokenResult Token)
  | .commit r =>
    match s.requests.get? r with
    | some request =>
      match request.phase with
      | .executed _ writes (.accepted newHash) =>
        if newHash ∉ s.sessions.keys ∧ s.Unguessed newHash then
          some (request, writes, .accepted newHash)
        else none
      | .executed _ writes result => some (request, writes, result)
      | _ => none
    | none => none
  | _ => none

/-- The request, if it is in a phase in which the step is enabled, moves to the next one. -/
def advance (s : AuthState Token Family) (r : ℕ)
    (f : TokenRequest Token Family → Option (TokenPhase Token Family)) : AuthState Token Family :=
  { s with requests :=
      s.requests.update r fun request => (f request).map ({ request with phase := · }) }

/-- A step that is not enabled changes nothing. -/
def step (ttl : ℤ) (s : AuthState Token Family) : AuthAction Token Family → AuthState Token Family
  | .login userId tokenHash familyId now =>
    if tokenHash ∉ s.sessions.keys ∧ s.Unguessed tokenHash ∧ s.NewFamily familyId then
      { s with sessions :=
          s.sessions.insert tokenHash (.issued ttl userId tokenHash familyId now) }
    else s
  | .present r kind tokenHash now =>
    if r ∈ s.requests.keys then s
    else { s with requests := s.requests.insert r { kind, tokenHash, now, phase := .started } }
  | .resolve r => s.advance r fun request =>
    match request.phase with
    | .started => some (.resolved ((s.sessions.get? request.tokenHash).map (·.familyId)))
    | _ => none
  | .lock r => s.advance r fun request =>
    match request.phase with
    | .resolved none => some (.locked none)
    | .resolved (some family) => if s.LockFree family then some (.locked (some family)) else none
    | _ => none
  | .execute r newHash userActive => s.advance r fun request =>
    match request.phase with
    | .locked family =>
      let (writes, result) := request.transaction ttl s.sessions newHash userActive
      some (.executed family writes result)
    | _ => none
  | .commit r =>
    match s.committing (.commit r) with
    | some (_, writes, _) =>
      ⟨writes.foldl SessionWrite.apply s.sessions, s.requests.erase r⟩
    | none => s
  | .rollback r => { s with requests := s.requests.erase r }

end AuthState

/-! ## What a transaction does -/

/-- `_revoke_family` sets `revoked_at` where it is missing. -/
theorem get?_revokeFamily (sessions : RefreshSessions Token Family) (familyId : Family) (now : ℤ)
    (hash : Token) : ((revokeFamily sessions familyId now).apply sessions).get? hash =
      (sessions.get? hash).map fun row =>
        if row.familyId = familyId ∧ row.revokedAt = none then { row with revokedAt := some now }
        else row := by
  rw [revokeFamily, SessionWrite.apply, Table.get?_mapRows]
  cases hrow : sessions.get? hash with
  | none => rfl
  | some row => simp [Table.mem_keys, hrow]

/-- The statements of a request: none for an unknown token, the revocation of its family, or, for a
live token presented to `refresh_tokens`, the rotation. -/
theorem TokenRequest.transaction_cases (ttl : ℤ) (sessions : RefreshSessions Token Family)
    (request : TokenRequest Token Family) (newHash : Token) (userActive : Bool) :
    let t := request.transaction ttl sessions newHash userActive
    (sessions.get? request.tokenHash = none ∧ t.1 = [] ∧ ∀ hash, t.2 ≠ .accepted hash) ∨
    ∃ row, sessions.get? request.tokenHash = some row ∧
      (t.1 = [revokeFamily sessions row.familyId request.now] ∧ (∀ hash, t.2 ≠ .accepted hash) ∨
      request.kind = .refresh ∧ row.live request.now ∧
        t = ([.use request.tokenHash newHash request.now,
          .add (.issued ttl row.userId newHash row.familyId request.now)], .accepted newHash)) := by
  unfold transaction refreshTokens logout
  cases request.kind <;> cases hrow : sessions.get? request.tokenHash <;> dsimp only
  · exact .inl ⟨rfl, rfl, nofun⟩
  · next row =>
    refine .inr ⟨row, rfl, ?_⟩
    split
    · exact .inl ⟨rfl, nofun⟩
    · next hlive =>
      split
      · exact .inl ⟨rfl, nofun⟩
      · refine .inr ⟨rfl, ?_, rfl⟩
        simp only [RefreshSession.live]
        grind
  · exact .inl ⟨rfl, rfl, nofun⟩
  · next row => exact .inr ⟨row, rfl, .inl ⟨rfl, nofun⟩⟩

/-- A transaction depends only on the rows of the family of its token. -/
theorem TokenRequest.transaction_congr {ttl : ℤ} {sessions sessions' : RefreshSessions Token Family}
    {request : TokenRequest Token Family} {family : Option Family}
    (h : (sessions.get? request.tokenHash).map (·.familyId) = family)
    (h' : (sessions'.get? request.tokenHash).map (·.familyId) = family)
    (hrows : ∀ hash row, some row.familyId = family →
      (sessions.get? hash = some row ↔ sessions'.get? hash = some row))
    (newHash : Token) (userActive : Bool) :
    request.transaction ttl sessions newHash userActive =
      request.transaction ttl sessions' newHash userActive := by
  have hrevoke (row : RefreshSession Token Family) (hrow : some row.familyId = family) :
      revokeFamily sessions row.familyId request.now =
        revokeFamily sessions' row.familyId request.now := by
    unfold revokeFamily
    congr 2
    refine Table.ext_get? fun hash => Option.ext fun row' => ?_
    simp only [Table.get?_filterMap, Option.bind_eq_some_iff]
    refine exists_congr fun row'' => ?_
    by_cases hfamily : row''.familyId = row.familyId
    · rw [hrows hash row'' (hfamily ▸ hrow)]
    · simp [hfamily]
  have hget : sessions.get? request.tokenHash = sessions'.get? request.tokenHash := by
    cases hrow : sessions.get? request.tokenHash with
    | none =>
      rw [hrow] at h
      cases h
      cases hrow' : sessions'.get? request.tokenHash with
      | none => rfl
      | some row' => rw [hrow'] at h'; cases h'
    | some row =>
      rw [hrow] at h
      exact ((hrows _ row h).mp hrow).symm
  unfold transaction refreshTokens logout
  rw [← hget]
  cases hrow : sessions.get? request.tokenHash with
  | none => rfl
  | some row =>
    rw [hrow] at h
    dsimp only
    rw [hrevoke row h]

/-- Neither used nor revoked. -/
def RefreshSession.Unspent (row : RefreshSession Token Family) : Prop :=
  row.usedAt = none ∧ row.revokedAt = none

/-- A family has at most one unspent token. -/
def OneUnspent (sessions : RefreshSessions Token Family) : Prop :=
  ∀ hash hash' row row', sessions.get? hash = some row → sessions.get? hash' = some row' →
    row.familyId = row'.familyId → row.Unspent → row'.Unspent → hash = hash'

/-- The family has tokens, and all of them are revoked. -/
def FamilyRevoked (sessions : RefreshSessions Token Family) (family : Family) : Prop :=
  (∃ hash row, sessions.get? hash = some row ∧ row.familyId = family) ∧
    ∀ hash row, sessions.get? hash = some row → row.familyId = family → row.revokedAt ≠ none

/-- What the statements of one request do to the committed rows: `family` is the family of its
token, `added` the token it issues. -/
structure FamilyEffect (sessions sessions' : RefreshSessions Token Family) (family : Option Family)
    (added : Option Token) : Prop where
  others : ∀ hash row, some row.familyId ≠ family →
    (sessions.get? hash = some row ↔ sessions'.get? hash = some row)
  located : ∀ hash, some hash ≠ added →
    (sessions'.get? hash).map (·.familyId) = (sessions.get? hash).map (·.familyId)
  oneUnspent : OneUnspent sessions → OneUnspent sessions'
  revoked : ∀ g, FamilyRevoked sessions g → FamilyRevoked sessions' g

omit [DecidableEq Family] in
theorem FamilyEffect.refl (sessions : RefreshSessions Token Family) (family : Option Family) :
    FamilyEffect sessions sessions family none :=
  ⟨fun _ _ _ => .rfl, fun _ _ => rfl, id, fun _ => id⟩

section Revoke

variable (sessions : RefreshSessions Token Family) (familyId : Family) (now : ℤ)

/-- A row after the revocation. -/
theorem of_get?_revokeFamily {hash : Token} {row' : RefreshSession Token Family}
    (h : ((revokeFamily sessions familyId now).apply sessions).get? hash = some row') :
    ∃ row, sessions.get? hash = some row ∧ row'.familyId = row.familyId ∧
      row'.usedAt = row.usedAt ∧ (row'.revokedAt = none → row.revokedAt = none) ∧
      (row.revokedAt ≠ none → row'.revokedAt ≠ none) ∧
      (row.familyId = familyId → row'.revokedAt ≠ none) := by
  rw [get?_revokeFamily, Option.map_eq_some_iff] at h
  obtain ⟨row, hrow, rfl⟩ := h
  refine ⟨row, hrow, ?_⟩
  split <;> grind

theorem familyRevoked_revokeFamily {hash : Token} {row : RefreshSession Token Family}
    (hrow : sessions.get? hash = some row) (hfamily : row.familyId = familyId) :
    FamilyRevoked ((revokeFamily sessions familyId now).apply sessions) familyId := by
  refine ⟨⟨hash, _, (get?_revokeFamily ..).trans (congrArg _ hrow), ?_⟩, fun hash' row' h hf => ?_⟩
  · dsimp only
    split <;> exact hfamily
  · obtain ⟨_, -, hid, -, -, -, hrevoked⟩ := of_get?_revokeFamily sessions familyId now h
    exact hrevoked (hid.symm.trans hf)

theorem familyEffect_revokeFamily :
    FamilyEffect sessions ((revokeFamily sessions familyId now).apply sessions) (some familyId)
      none where
  others hash row hne := by
    rw [get?_revokeFamily, Option.map_eq_some_iff]
    have hid : row.familyId ≠ familyId := fun h => hne (congrArg some h)
    constructor
    · exact fun h => ⟨row, h, if_neg fun h => hid h.1⟩
    · rintro ⟨row', hrow', rfl⟩
      split at hid
      · next h => exact absurd h.1 hid
      · next h => rwa [if_neg h]
  located hash _ := by
    rw [get?_revokeFamily]
    cases sessions.get? hash with
    | none => rfl
    | some row =>
      simp only [Option.map_some]
      split <;> rfl
  oneUnspent hone hash hash' row row' h h' hfamily hu hu' := by
    obtain ⟨old, hold, hid, hused, hrevoked, -⟩ := of_get?_revokeFamily sessions familyId now h
    obtain ⟨old', hold', hid', hused', hrevoked', -⟩ := of_get?_revokeFamily sessions familyId now h'
    exact hone hash hash' old old' hold hold' (by rw [← hid, ← hid', hfamily])
      ⟨hused ▸ hu.1, hrevoked hu.2⟩ ⟨hused' ▸ hu'.1, hrevoked' hu'.2⟩
  revoked g hg := by
    obtain ⟨⟨hash, row, hrow, hid⟩, hall⟩ := hg
    refine ⟨⟨hash, _, (get?_revokeFamily ..).trans (congrArg _ hrow), ?_⟩, fun hash' row' h hf => ?_⟩
    · dsimp only
      split <;> exact hid
    · obtain ⟨old, hold, hid', -, -, hkeep, -⟩ := of_get?_revokeFamily sessions familyId now h
      exact hkeep (hall hash' old hold (hid'.symm.trans hf))

end Revoke

section Rotate

variable {sessions : RefreshSessions Token Family} {tokenHash : Token} {now : ℤ}
  {row added : RefreshSession Token Family}

omit [DecidableEq Family] in
theorem get?_rotate (hrow : sessions.get? tokenHash = some row) (hash : Token) :
    ([.use tokenHash added.tokenHash now, .add added].foldl SessionWrite.apply sessions).get? hash =
      if hash = added.tokenHash then some added
      else if hash = tokenHash then
        some { row with usedAt := some now, replacedByHash := some added.tokenHash }
      else sessions.get? hash := by
  simp only [List.foldl_cons, List.foldl_nil, SessionWrite.apply, Table.get?_insert,
    Table.get?_mapRows]
  split
  · rfl
  · split
    · next h => rw [h, hrow, Option.map_some]
    · exact Option.map_id_apply

omit [DecidableEq Family] in
/-- A row after the rotation: the new one, the used one, or one that is unchanged. -/
theorem of_get?_rotate (hrow : sessions.get? tokenHash = some row) {hash : Token}
    {r : RefreshSession Token Family}
    (h : ([.use tokenHash added.tokenHash now, .add added].foldl SessionWrite.apply sessions).get?
      hash = some r) :
    hash = added.tokenHash ∧ r = added ∨
      hash = tokenHash ∧
        r = { row with usedAt := some now, replacedByHash := some added.tokenHash } ∨
      hash ≠ tokenHash ∧ sessions.get? hash = some r := by
  rw [get?_rotate hrow] at h
  split at h
  · next heq => exact .inl ⟨heq, (Option.some.inj h).symm⟩
  · split at h
    · next heq => exact .inr (.inl ⟨heq, (Option.some.inj h).symm⟩)
    · next hne => exact .inr (.inr ⟨hne, h⟩)

omit [DecidableEq Family] in
theorem familyEffect_rotate (hrow : sessions.get? tokenHash = some row)
    (hadded : added.tokenHash ∉ sessions.keys) (hfamily : added.familyId = row.familyId)
    (hunspent : row.Unspent) :
    FamilyEffect sessions
      ([.use tokenHash added.tokenHash now, .add added].foldl SessionWrite.apply sessions)
      (some row.familyId) (some added.tokenHash) where
  others hash row' hne := by
    constructor
    · intro h
      have hnew : hash ≠ added.tokenHash := fun heq => hadded (heq ▸ Table.mem_keys.mpr ⟨_, h⟩)
      have hold : hash ≠ tokenHash := by
        rintro rfl
        rw [hrow] at h
        exact hne (congrArg (fun r : RefreshSession Token Family => some r.familyId)
          (Option.some.inj h).symm)
      rw [get?_rotate hrow, if_neg hnew, if_neg hold, h]
    · intro h
      obtain ⟨-, rfl⟩ | ⟨-, rfl⟩ | ⟨-, h⟩ := of_get?_rotate hrow h
      · exact absurd (congrArg some hfamily) hne
      · exact absurd rfl hne
      · exact h
  located hash hne := by
    rw [get?_rotate hrow, if_neg fun heq => hne (congrArg some heq)]
    split
    · next heq => rw [heq, hrow, Option.map_some, Option.map_some]
    · rfl
  oneUnspent hone hash hash' r r' h h' hrr hu hu' := by
    -- the other unspent tokens of the family are gone once `tokenHash` is used
    have hother {hash : Token} {r : RefreshSession Token Family} (hne : hash ≠ tokenHash)
        (h : sessions.get? hash = some r) (hu : r.Unspent) : r.familyId ≠ added.familyId := by
      intro heq
      exact hne (hone hash tokenHash r row h hrow (heq.trans hfamily) hu hunspent)
    obtain ⟨rfl, rfl⟩ | ⟨-, rfl⟩ | ⟨hne, hr⟩ := of_get?_rotate hrow h
    · obtain ⟨rfl, -⟩ | ⟨-, rfl⟩ | ⟨hne', hr'⟩ := of_get?_rotate hrow h'
      · rfl
      · exact absurd hu'.1 nofun
      · exact absurd hrr.symm (hother hne' hr' hu')
    · exact absurd hu.1 nofun
    · obtain ⟨rfl, rfl⟩ | ⟨-, rfl⟩ | ⟨hne', hr'⟩ := of_get?_rotate hrow h'
      · exact absurd hrr (hother hne hr hu)
      · exact absurd hu'.1 nofun
      · exact hone hash hash' r r' hr hr' hrr hu hu'
  revoked g hg := by
    obtain ⟨⟨hash, r, hr, hid⟩, hall⟩ := hg
    have hg : row.familyId ≠ g := fun heq => hall tokenHash row hrow heq hunspent.2
    have hold : hash ≠ tokenHash := by
      rintro rfl
      rw [hrow] at hr
      exact hg (Option.some.inj hr ▸ hid)
    have hnew : hash ≠ added.tokenHash := fun heq => hadded (heq ▸ Table.mem_keys.mpr ⟨_, hr⟩)
    refine ⟨⟨hash, r, by rw [get?_rotate hrow, if_neg hnew, if_neg hold, hr], hid⟩,
      fun hash' r' h hf => ?_⟩
    obtain ⟨-, rfl⟩ | ⟨-, rfl⟩ | ⟨-, h⟩ := of_get?_rotate hrow h
    · exact absurd (hfamily.symm.trans hf) hg
    · exact absurd hf hg
    · exact hall hash' r' h hf

end Rotate

/-- The effect of a transaction whose statements were computed on the rows it changes. -/
theorem TokenRequest.transaction_effect {ttl : ℤ} {sessions : RefreshSessions Token Family}
    {request : TokenRequest Token Family} {newHash : Token} {userActive : Bool}
    {writes : List (SessionWrite Token Family)} {result : TokenResult Token}
    (h : request.transaction ttl sessions newHash userActive = (writes, result)) :
    (∀ hash, result ≠ .accepted hash) ∧
        FamilyEffect sessions (writes.foldl SessionWrite.apply sessions)
          ((sessions.get? request.tokenHash).map (·.familyId)) none ∧
        (∀ row, sessions.get? request.tokenHash = some row →
          FamilyRevoked (writes.foldl SessionWrite.apply sessions) row.familyId) ∨
      ∃ row, sessions.get? request.tokenHash = some row ∧ request.kind = .refresh ∧
        row.live request.now ∧ result = .accepted newHash ∧
        (newHash ∉ sessions.keys →
          FamilyEffect sessions (writes.foldl SessionWrite.apply sessions) (some row.familyId)
            (some newHash)) := by
  have hcases := request.transaction_cases ttl sessions newHash userActive
  rw [h] at hcases
  obtain ⟨hnone, rfl, hresult⟩ | ⟨row, hrow, ⟨rfl, hresult⟩ | ⟨hkind, hlive, ht⟩⟩ := hcases
  · exact .inl ⟨hresult, .refl .., fun row hrow => absurd (hnone.symm.trans hrow) nofun⟩
  · refine .inl ⟨hresult, hrow ▸ familyEffect_revokeFamily .., fun row' hrow' => ?_⟩
    obtain rfl := Option.some.inj (hrow.symm.trans hrow')
    exact familyRevoked_revokeFamily sessions row.familyId request.now hrow rfl
  · obtain ⟨rfl, rfl⟩ := Prod.mk.inj ht
    refine .inr ⟨row, hrow, hkind, hlive, rfl, fun hnew => familyEffect_rotate hrow hnew rfl ?_⟩
    simp only [RefreshSession.live, Bool.and_eq_true, Option.isNone_iff_eq_none] at hlive
    exact hlive.1

omit [DecidableEq Family] in
/-- A login opens a family of its own. -/
theorem familyEffect_login {sessions : RefreshSessions Token Family}
    (row : RefreshSession Token Family) (hnew : row.tokenHash ∉ sessions.keys)
    (hfamily : ∀ old ∈ sessions.rows, old.2.familyId ≠ row.familyId) :
    FamilyEffect sessions (sessions.insert row.tokenHash row) (some row.familyId)
      (some row.tokenHash) where
  others hash row' hne := by
    rw [Table.get?_insert]
    split
    · next heq =>
      refine ⟨fun h => absurd (heq ▸ Table.mem_keys.mpr ⟨_, h⟩) hnew, fun h => ?_⟩
      exact absurd (congrArg (fun r : RefreshSession Token Family => some r.familyId)
        (Option.some.inj h).symm) hne
    · rfl
  located hash hne := by
    rw [Table.get?_insert_of_ne fun heq => hne (congrArg some heq)]
  oneUnspent hone hash hash' r r' h h' hrr hu hu' := by
    rw [Table.get?_insert] at h h'
    split at h
    · next heq =>
      cases h
      split at h'
      · next heq' => exact heq.trans heq'.symm
      · exact absurd hrr.symm (hfamily (hash', r') (Table.get?_eq_some.mp h'))
    · split at h'
      · cases h'
        exact absurd hrr (hfamily (hash, r) (Table.get?_eq_some.mp h))
      · exact hone hash hash' r r' h h' hrr hu hu'
  revoked g hg := by
    obtain ⟨⟨hash, r, hr, hid⟩, hall⟩ := hg
    have hg : row.familyId ≠ g := fun heq =>
      hfamily (hash, r) (Table.get?_eq_some.mp hr) (hid.trans heq.symm)
    have hne : hash ≠ row.tokenHash := fun heq => hnew (heq ▸ Table.mem_keys.mpr ⟨_, hr⟩)
    refine ⟨⟨hash, r, by rw [Table.get?_insert_of_ne hne, hr], hid⟩, fun hash' r' h hf => ?_⟩
    rw [Table.get?_insert] at h
    split at h
    · cases h
      exact absurd hf hg
    · exact hall hash' r' h hf

/-! ## Every interleaving -/

/-- What a request has read so far agrees with the committed rows. -/
def TokenRequest.Consistent (ttl : ℤ) (sessions : RefreshSessions Token Family)
    (request : TokenRequest Token Family) : Prop :=
  match request.phase with
  | .started => True
  | .resolved family => (sessions.get? request.tokenHash).map (·.familyId) = family
  | .locked family => (sessions.get? request.tokenHash).map (·.familyId) = family
  | .executed family writes result =>
    (sessions.get? request.tokenHash).map (·.familyId) = family ∧
      ∃ newHash userActive,
        request.transaction ttl sessions newHash userActive = (writes, result)

theorem TokenRequest.Consistent.family_of_heldLock {ttl : ℤ}
    {sessions : RefreshSessions Token Family} {request : TokenRequest Token Family}
    (h : request.Consistent ttl sessions) {family : Family}
    (hlock : request.phase.heldLock = some family) :
    (sessions.get? request.tokenHash).map (·.familyId) = some family := by
  unfold Consistent at h
  cases hphase : request.phase with
  | locked f =>
    rw [hphase] at h hlock
    exact h.trans hlock
  | executed f writes result =>
    rw [hphase] at h hlock
    exact h.1.trans hlock
  | _ => rw [hphase] at hlock; cases hlock

/-- A request is not disturbed by what happens to other families. -/
theorem TokenRequest.Consistent.of_effect {ttl : ℤ} {sessions sessions' : RefreshSessions Token Family}
    {request : TokenRequest Token Family} {family : Option Family} {added : Option Token}
    (h : request.Consistent ttl sessions) (heffect : FamilyEffect sessions sessions' family added)
    (hadded : some request.tokenHash ≠ added)
    (hlock : ∀ f, request.phase.heldLock = some f → some f ≠ family) :
    request.Consistent ttl sessions' := by
  have hlocated := heffect.located request.tokenHash hadded
  unfold Consistent at h ⊢
  cases hphase : request.phase with
  | started => trivial
  | resolved f =>
    rw [hphase] at h
    exact hlocated.trans h
  | locked f =>
    rw [hphase] at h
    exact hlocated.trans h
  | executed f writes result =>
    rw [hphase] at h hlock
    obtain ⟨hf, newHash, userActive, ht⟩ := h
    refine ⟨hlocated.trans hf, newHash, userActive, ?_⟩
    rw [← ht]
    refine (transaction_congr hf (hlocated.trans hf) (fun hash row hrow => ?_) ..).symm
    exact heffect.others hash row (hrow ▸ hlock row.familyId hrow.symm)

namespace AuthState

structure Consistent (ttl : ℤ) (s : AuthState Token Family) : Prop where
  requests : ∀ r request, s.requests.get? r = some request → request.Consistent ttl s.sessions
  locks : ∀ r r' q q' family, s.requests.get? r = some q → s.requests.get? r' = some q' →
    q.phase.heldLock = some family → q'.phase.heldLock = some family → r = r'
  oneUnspent : OneUnspent s.sessions

variable {ttl : ℤ} {s : AuthState Token Family}

theorem Consistent.advance (hs : s.Consistent ttl) {r : ℕ}
    {f : TokenRequest Token Family → Option (TokenPhase Token Family)}
    (hf : ∀ request phase, s.requests.get? r = some request → f request = some phase →
      TokenRequest.Consistent ttl s.sessions { request with phase } ∧
        ∀ family, phase.heldLock = some family →
          request.phase.heldLock = some family ∨ s.LockFree family) :
    (s.advance r f).Consistent ttl := by
  -- a request after the step is one from before, or `r` in a new phase
  have hcases {r' : ℕ} {q' : TokenRequest Token Family}
      (h : (s.advance r f).requests.get? r' = some q') :
      ∃ q, s.requests.get? r' = some q ∧ q'.Consistent ttl s.sessions ∧
        ∀ family, q'.phase.heldLock = some family →
          q.phase.heldLock = some family ∨ r' = r ∧ s.LockFree family := by
    obtain ⟨q, hq, rfl | ⟨rfl, hupdate⟩⟩ := Table.of_get?_update h
    · exact ⟨q', hq, hs.requests r' q' hq, fun family hheld => .inl hheld⟩
    · obtain ⟨phase, hphase, rfl⟩ := Option.map_eq_some_iff.mp hupdate
      obtain ⟨hconsistent, hlock⟩ := hf q phase hq hphase
      exact ⟨q, hq, hconsistent, fun family hheld => (hlock family hheld).imp id (⟨rfl, ·⟩)⟩
  refine ⟨fun r' q hq => ?_, fun r₁ r₂ q₁ q₂ family h₁ h₂ hl₁ hl₂ => ?_, hs.oneUnspent⟩
  · obtain ⟨_, -, hconsistent, -⟩ := hcases hq
    exact hconsistent
  · obtain ⟨p₁, hp₁, -, hheld₁⟩ := hcases h₁
    obtain ⟨p₂, hp₂, -, hheld₂⟩ := hcases h₂
    obtain hold₁ | ⟨rfl, hfree⟩ := hheld₁ family hl₁
    · obtain hold₂ | ⟨rfl, hfree⟩ := hheld₂ family hl₂
      · exact hs.locks r₁ r₂ p₁ p₂ family hp₁ hp₂ hold₁ hold₂
      · exact absurd hold₁ (hfree (r₁, p₁) (Table.get?_eq_some.mp hp₁))
    · obtain hold₂ | ⟨rfl, -⟩ := hheld₂ family hl₂
      · exact absurd hold₂ (hfree (r₂, p₂) (Table.get?_eq_some.mp hp₂))
      · rfl

omit [DecidableEq Family] in
theorem committing_eq_some {a : AuthAction Token Family} {request : TokenRequest Token Family}
    {writes : List (SessionWrite Token Family)} {result : TokenResult Token} :
    s.committing a = some (request, writes, result) ↔
      ∃ r family, a = .commit r ∧ s.requests.get? r = some request ∧
        request.phase = .executed family writes result ∧
        ∀ hash, result = .accepted hash → hash ∉ s.sessions.keys ∧ s.Unguessed hash := by
  cases a with
  | commit r =>
    rw [committing]
    cases hr : s.requests.get? r with
    | none => simp [hr]
    | some q =>
      cases hphase : q.phase with
      | executed family writes' result' => cases result' <;> grind
      | _ => grind
  | _ => simp [committing]

/-- A commit has the effect of the whole transaction on the rows it finds. -/
theorem Consistent.commit_effect (hs : s.Consistent ttl) {a : AuthAction Token Family}
    {request : TokenRequest Token Family} {writes : List (SessionWrite Token Family)}
    {result : TokenResult Token} (h : s.committing a = some (request, writes, result)) :
    ∃ added, FamilyEffect s.sessions (writes.foldl SessionWrite.apply s.sessions)
        ((s.sessions.get? request.tokenHash).map (·.familyId)) added ∧
      ∀ hash, added = some hash → s.Unguessed hash := by
  obtain ⟨r, family, -, hr, hphase, hadded⟩ := committing_eq_some.mp h
  have hrequest := hs.requests r request hr
  rw [TokenRequest.Consistent, hphase] at hrequest
  obtain ⟨hfamily, newHash, userActive, ht⟩ := hrequest
  obtain ⟨-, heffect, -⟩ | ⟨row, hrow, -, -, rfl, heffect⟩ := TokenRequest.transaction_effect ht
  · exact ⟨none, heffect, nofun⟩
  · obtain ⟨hnew, hunguessed⟩ := hadded newHash rfl
    refine ⟨some newHash, hrow ▸ heffect hnew, fun hash hhash => ?_⟩
    exact Option.some.inj hhash ▸ hunguessed

theorem Consistent.commit (hs : s.Consistent ttl) (r : ℕ) :
    (s.step ttl (.commit r)).Consistent ttl := by
  rw [AuthState.step]
  split
  · next request writes result h =>
    obtain ⟨added, heffect, hunguessed⟩ := hs.commit_effect h
    obtain ⟨_, family, hcommit, hr, hphase, -⟩ := committing_eq_some.mp h
    cases hcommit
    have hfamily : (s.sessions.get? request.tokenHash).map (·.familyId) = family := by
      have hrequest := hs.requests r request hr
      rw [TokenRequest.Consistent, hphase] at hrequest
      exact hrequest.1
    have hremaining {r' : ℕ} {q : TokenRequest Token Family}
        (hq : (s.requests.erase r).get? r' = some q) :
        r' ≠ r ∧ s.requests.get? r' = some q := by
      rw [Table.get?_erase] at hq
      split at hq
      · cases hq
      · next hne => exact ⟨hne, hq⟩
    refine ⟨fun r' q hq => ?_, fun r₁ r₂ q₁ q₂ g h₁ h₂ hl₁ hl₂ => ?_, heffect.oneUnspent hs.oneUnspent⟩
    · obtain ⟨hne, hq⟩ := hremaining hq
      refine (hs.requests r' q hq).of_effect heffect (fun heq => ?_) fun g hg heq => ?_
      · exact hunguessed q.tokenHash heq.symm (r', q) (Table.get?_eq_some.mp hq) rfl
      · -- the family of `r` is locked by `r`
        refine hne (hs.locks r' r q request g hq hr hg ?_)
        rw [hphase, TokenPhase.heldLock, ← hfamily, heq]
    · exact hs.locks r₁ r₂ q₁ q₂ g (hremaining h₁).2 (hremaining h₂).2 hl₁ hl₂
  · exact hs

theorem Consistent.rollback (hs : s.Consistent ttl) (r : ℕ) :
    (s.step ttl (.rollback r)).Consistent ttl := by
  have hremaining {r' : ℕ} {q : TokenRequest Token Family}
      (hq : (s.requests.erase r).get? r' = some q) : s.requests.get? r' = some q := by
    rw [Table.get?_erase] at hq
    split at hq
    · cases hq
    · exact hq
  exact ⟨fun r' q hq => hs.requests r' q (hremaining hq),
    fun r₁ r₂ q₁ q₂ g h₁ h₂ => hs.locks r₁ r₂ q₁ q₂ g (hremaining h₁) (hremaining h₂), hs.oneUnspent⟩

theorem Consistent.login (hs : s.Consistent ttl) (userId : ℕ) (tokenHash : Token)
    (familyId : Family) (now : ℤ) :
    (s.step ttl (.login userId tokenHash familyId now)).Consistent ttl := by
  rw [AuthState.step]
  split
  · next hnew =>
    obtain ⟨hkey, hunguessed, hfamily⟩ := hnew
    have heffect := familyEffect_login (.issued ttl userId tokenHash familyId now) hkey hfamily
    refine ⟨fun r q hq => ?_, hs.locks, heffect.oneUnspent hs.oneUnspent⟩
    refine (hs.requests r q hq).of_effect heffect (fun heq => ?_) fun g hg heq => ?_
    · exact hunguessed (r, q) (Table.get?_eq_some.mp hq) (Option.some.inj heq)
    · have hheld := (hs.requests r q hq).family_of_heldLock hg
      obtain ⟨row, hrow, hid⟩ := Option.map_eq_some_iff.mp hheld
      exact hfamily (q.tokenHash, row) (Table.get?_eq_some.mp hrow) (hid.trans (Option.some.inj heq))
  · exact hs

theorem Consistent.present (hs : s.Consistent ttl) (r : ℕ) (kind : TokenRequestKind)
    (tokenHash : Token) (now : ℤ) : (s.step ttl (.present r kind tokenHash now)).Consistent ttl := by
  rw [AuthState.step]
  split
  · exact hs
  · have hfresh {r' : ℕ} {q : TokenRequest Token Family}
        (hq : (s.requests.insert r ⟨kind, tokenHash, now, .started⟩).get? r' = some q) :
        q = ⟨kind, tokenHash, now, .started⟩ ∨ s.requests.get? r' = some q := by
      rw [Table.get?_insert] at hq
      split at hq
      · exact .inl (Option.some.inj hq).symm
      · exact .inr hq
    refine ⟨fun r' q hq => ?_, fun r₁ r₂ q₁ q₂ g h₁ h₂ hl₁ hl₂ => ?_, hs.oneUnspent⟩
    · obtain rfl | hq := hfresh hq
      · trivial
      · exact hs.requests r' q hq
    · obtain rfl | h₁ := hfresh h₁
      · cases hl₁
      · obtain rfl | h₂ := hfresh h₂
        · cases hl₂
        · exact hs.locks r₁ r₂ q₁ q₂ g h₁ h₂ hl₁ hl₂

theorem Consistent.step (hs : s.Consistent ttl) (a : AuthAction Token Family) :
    (s.step ttl a).Consistent ttl := by
  cases a with
  | login userId tokenHash familyId now => exact hs.login userId tokenHash familyId now
  | present r kind tokenHash now => exact hs.present r kind tokenHash now
  | resolve r =>
    refine hs.advance fun request phase hrequest hphase => ?_
    cases h : request.phase with
    | started =>
      rw [h] at hphase
      cases hphase
      exact ⟨rfl, nofun⟩
    | _ => rw [h] at hphase; cases hphase
  | lock r =>
    refine hs.advance fun request phase hrequest hphase => ?_
    have hconsistent := hs.requests r request hrequest
    unfold TokenRequest.Consistent at hconsistent
    cases h : request.phase with
    | resolved family =>
      rw [h] at hphase hconsistent
      cases family with
      | none =>
        cases hphase
        exact ⟨hconsistent, nofun⟩
      | some family =>
        dsimp only at hphase
        split at hphase
        · next hfree =>
          cases hphase
          exact ⟨hconsistent, fun g hg => .inr (Option.some.inj hg ▸ hfree)⟩
        · cases hphase
    | _ => rw [h] at hphase; cases hphase
  | execute r newHash userActive =>
    refine hs.advance fun request phase hrequest hphase => ?_
    have hconsistent := hs.requests r request hrequest
    unfold TokenRequest.Consistent at hconsistent
    cases h : request.phase with
    | locked family =>
      rw [h] at hphase hconsistent
      cases hphase
      exact ⟨⟨hconsistent, newHash, userActive, rfl⟩, fun g hg => .inl hg⟩
    | _ => rw [h] at hphase; cases hphase
  | commit r => exact hs.commit r
  | rollback r => exact hs.rollback r

theorem consistent_initial (ttl : ℤ) : (initial : AuthState Token Family).Consistent ttl :=
  ⟨fun _ _ h => absurd h (by simp [initial]), fun _ _ _ _ _ h => absurd h (by simp [initial]),
    fun _ _ _ _ h => absurd h (by simp [initial])⟩

theorem consistent_run (ttl : ℤ) (actions : List (AuthAction Token Family)) :
    (run (AuthState.step ttl) initial actions).Consistent ttl :=
  run_preserves (AuthState.Consistent ttl) (fun _ a hs => hs.step a) (consistent_initial ttl) actions

/-- A revoked family stays revoked. -/
theorem Consistent.familyRevoked_step (hs : s.Consistent ttl) {family : Family}
    (h : FamilyRevoked s.sessions family) (a : AuthAction Token Family) :
    FamilyRevoked (s.step ttl a).sessions family := by
  cases a with
  | login userId tokenHash familyId now =>
    rw [AuthState.step]
    split
    · next hnew =>
      exact (familyEffect_login (.issued ttl userId tokenHash familyId now) hnew.1
        hnew.2.2).revoked family h
    · exact h
  | present r kind tokenHash now =>
    rw [AuthState.step]
    split <;> exact h
  | resolve r => exact h
  | lock r => exact h
  | execute r newHash userActive => exact h
  | commit r =>
    rw [AuthState.step]
    split
    · next request writes result hcommit =>
      obtain ⟨_, heffect, -⟩ := hs.commit_effect hcommit
      exact heffect.revoked family h
    · exact h
  | rollback r => exact h

/-- Two tokens of one family are never both live. -/
def OneLive (s : AuthState Token Family) : Prop :=
  ∀ (now : ℤ) (hash hash' : Token) (row row' : RefreshSession Token Family),
    s.sessions.get? hash = some row → s.sessions.get? hash' = some row' →
      row.familyId = row'.familyId → row.live now → row'.live now → hash = hash'

/-- The step commits a `logout`, or a `refresh_tokens` that presents a used, revoked or expired
token, of the family. -/
def Condemns (s : AuthState Token Family) (a : AuthAction Token Family) (family : Family) : Prop :=
  ∃ request writes result row, s.committing a = some (request, writes, result) ∧
    s.sessions.get? request.tokenHash = some row ∧ row.familyId = family ∧
    (request.kind = .logout ∨ row.live request.now = false)

/-- The step commits a `refresh_tokens` that accepts a token of the family. -/
def Accepts (s : AuthState Token Family) (a : AuthAction Token Family) (family : Family) : Prop :=
  ∃ request writes newHash row, s.committing a = some (request, writes, .accepted newHash) ∧
    s.sessions.get? request.tokenHash = some row ∧ row.familyId = family

/-- The transaction that commits, computed on the rows it finds. -/
theorem Consistent.committing_transaction (hs : s.Consistent ttl) {a : AuthAction Token Family}
    {request : TokenRequest Token Family} {writes : List (SessionWrite Token Family)}
    {result : TokenResult Token} (h : s.committing a = some (request, writes, result)) :
    ∃ newHash userActive,
      request.transaction ttl s.sessions newHash userActive = (writes, result) := by
  obtain ⟨r, family, -, hr, hphase, -⟩ := committing_eq_some.mp h
  have hrequest := hs.requests r request hr
  rw [TokenRequest.Consistent, hphase] at hrequest
  exact hrequest.2

theorem Consistent.step_of_committing {a : AuthAction Token Family}
    {request : TokenRequest Token Family} {writes : List (SessionWrite Token Family)}
    {result : TokenResult Token} (h : s.committing a = some (request, writes, result)) :
    (s.step ttl a).sessions = writes.foldl SessionWrite.apply s.sessions := by
  obtain ⟨r, family, rfl, -⟩ := committing_eq_some.mp h
  rw [AuthState.step, h]

theorem Consistent.familyRevoked_of_condemns (hs : s.Consistent ttl)
    {a : AuthAction Token Family} {family : Family} (h : s.Condemns a family) :
    FamilyRevoked (s.step ttl a).sessions family := by
  obtain ⟨request, writes, result, row, hcommit, hrow, rfl, hbad⟩ := h
  obtain ⟨newHash, userActive, ht⟩ := hs.committing_transaction hcommit
  rw [step_of_committing hcommit]
  obtain ⟨-, -, hrevoked⟩ | ⟨row', hrow', hkind, hlive, -⟩ := TokenRequest.transaction_effect ht
  · exact hrevoked row hrow
  · -- a rotation needs a live token
    obtain rfl := Option.some.inj (hrow.symm.trans hrow')
    obtain hlogout | hdead := hbad
    · rw [hkind] at hlogout
      cases hlogout
    · rw [hdead] at hlive
      cases hlive

theorem Consistent.not_accepts (hs : s.Consistent ttl) {a : AuthAction Token Family}
    {family : Family} (h : FamilyRevoked s.sessions family) : ¬ s.Accepts a family := by
  rintro ⟨request, writes, newHash, row, hcommit, hrow, hid⟩
  obtain ⟨newHash', userActive, ht⟩ := hs.committing_transaction hcommit
  obtain ⟨hresult, -⟩ | ⟨row', hrow', -, hlive, -⟩ := TokenRequest.transaction_effect ht
  · exact hresult newHash rfl
  · obtain rfl := Option.some.inj (hrow.symm.trans hrow')
    simp only [RefreshSession.live, Bool.and_eq_true, Option.isNone_iff_eq_none] at hlive
    exact h.2 request.tokenHash row hrow hid hlive.1.2

/-- In every run, a family has at most one live token; and once a used, revoked or expired token of
a family has been presented, or one of its tokens logged out, none of its tokens is accepted. -/
theorem refreshFamilies_safe (ttl : ℤ) (before between : List (AuthAction Token Family))
    (a b : AuthAction Token Family) :
    (run (AuthState.step ttl) initial before).OneLive ∧
      ∀ family, (run (AuthState.step ttl) initial before).Condemns a family →
        ¬ (run (AuthState.step ttl) initial (before ++ a :: between)).Accepts b family := by
  have hs := consistent_run ttl before
  refine ⟨fun now hash hash' row row' hrow hrow' hfamily hlive hlive' => ?_, fun family ha => ?_⟩
  · simp only [RefreshSession.live, Bool.and_eq_true, Option.isNone_iff_eq_none] at hlive hlive'
    exact hs.oneUnspent hash hash' row row' hrow hrow' hfamily hlive.1 hlive'.1
  · rw [run_append, run_cons]
    have hrevoked := run_preserves
      (fun s : AuthState Token Family => s.Consistent ttl ∧ FamilyRevoked s.sessions family)
      (fun s c h => ⟨h.1.step c, h.1.familyRevoked_step h.2 c⟩)
      ⟨hs.step a, hs.familyRevoked_of_condemns ha⟩ between
    exact hrevoked.1.not_accepts hrevoked.2

end AuthState

end Service

/-! ## A replayed token -/

/-- A login with token 1, a rotation to token 2, and token 1 presented again while token 2 is
presented for a rotation to token 3: the replay takes the lock first. -/
def replayedRun : List (AuthAction ℕ ℕ) :=
  [.login 7 1 0 0,
    .present 0 .refresh 1 10, .resolve 0, .lock 0, .execute 0 2 true, .commit 0,
    .present 1 .refresh 2 20, .resolve 1,
    .present 2 .refresh 1 21, .resolve 2, .lock 2, .execute 2 4 true]

/-- The rotation to token 3 after the replay. -/
def rotationAfterReplay : List (AuthAction ℕ ℕ) := [.lock 1, .execute 1 3 true]

theorem refreshFamilies_safe_replayed :
    (run (AuthState.step 3600) AuthState.initial replayedRun).Condemns (.commit 2) 0 ∧
      ¬ (run (AuthState.step 3600) AuthState.initial
        (replayedRun ++ .commit 2 :: rotationAfterReplay)).Accepts (.commit 1) 0 := by
  have hcondemns : (run (AuthState.step 3600) AuthState.initial replayedRun).Condemns
      (.commit 2) 0 :=
    ⟨_, _, _, _, rfl, rfl, rfl, .inr (by decide)⟩
  exact ⟨hcondemns,
    (AuthState.refreshFamilies_safe 3600 replayedRun rotationAfterReplay (.commit 2) (.commit 1)).2 0
      hcondemns⟩

end Apanel
