import Apanel.Library.Transition
import Mathlib.Logic.Function.Basic

/-!
# The session of a browser

The tabs of one browser (`auth-session.ts`) share the refresh lock and the BroadcastChannel, and each
keeps an access token of its own; `api-client.ts` refreshes after a 401 and retries once. A refresh
is discarded when the tab's `sessionGeneration` has moved since it was asked for, and messages from
other tabs move it: `refresh_unsafe` is a run in which one tab logs the other out, `refresh_safe`
what holds of runs in which no message overtakes a refresh and none runs into a deadline of the
coordinator (`auth-coordinator.mjs`); one that does logs out (`timeout_unsafe`).
-/

namespace Apanel

namespace Frontend

/-- A token stands for the refresh that brought it: its tab, and when the server answered. -/
structure AccessToken (ι : Type) where
  tab : ι
  issuedAt : ℕ
  deriving DecidableEq

structure AuthSession (ι User : Type) where
  accessToken : AccessToken ι
  user : User
  deriving DecidableEq

inductive AuthStateStatus
  | authenticated
  | unauthenticated
  deriving DecidableEq

structure AuthStateMessage (ι User : Type) where
  source : ι
  epoch : ℕ
  status : AuthStateStatus
  userId : Option User
  deriving DecidableEq

/-- A snapshot of `sessionScope`. -/
structure ScopeSnapshot (User : Type) where
  version : ℕ
  userId : Option User
  deriving DecidableEq

/-- A call of `refreshSession`, with the scope of the request that it is for; the message handler
has none. -/
structure RefreshCall (User : Type) where
  startedAt : ℕ
  scope : Option (ScopeSnapshot User)

/-- The answer to `POST /auth/refresh`; an empty one holds no session. -/
inductive RefreshAnswer (User : Type)
  | failed
  | empty
  | refreshed (user : User)
  deriving DecidableEq

/-- How far the task of the coordinator has come; the last three are its ends. -/
inductive RefreshPhase (ι User : Type)
  | waiting
  | locked
  | requesting
  | answered (answer : RefreshAnswer User) (issuedAt : ℕ)
  | discarded
  | published (session : Option (AuthSession ι User))
  | failed

/-- `refreshInFlight`, with the `generationAtStart` of its guard. -/
structure Refresh (ι User : Type) where
  generation : ℕ
  phase : RefreshPhase ι User
  calls : List (RefreshCall User)

structure RefreshOutcome (ι User : Type) where
  session : Option (AuthSession ι User)
  discarded : Bool
  published : Bool
  generation : ℕ

/-- A request that was sent again after a refresh. -/
structure Retry (ι User : Type) where
  startedAt : ℕ
  scope : ScopeSnapshot User
  accessToken : Option (AccessToken ι)

structure Tab (ι User : Type) where
  currentSession : Option (AuthSession ι User)
  sessionGeneration : ℕ
  sessionEpoch : ℕ
  scope : ScopeSnapshot User
  refreshInFlight : Option (Refresh ι User)
  retries : List (Retry ι User)

/-- What a run is judged by. -/
inductive Event (ι User : Type)
  | resolved (tab : ι) (startedAt : ℕ) (session : Option (AuthSession ι User))
  | cleared (tab : ι)
  | posted (message : AuthStateMessage ι User)
  deriving DecidableEq

/-- The tabs, the messages on their way to each, and the holder of the refresh lock. `time` counts
the steps. -/
structure Browser (ι User : Type) where
  tabs : ι → Tab ι User
  inbox : ι → List (AuthStateMessage ι User)
  lock : Option ι
  time : ℕ
  trace : List (Event ι User)

/-- `now` is what `Date.now()` returns in the step. A `timeout` is the end of the wait for the lock,
or of the whole attempt. -/
inductive Action (ι User : Type)
  | unauthorized (tab : ι)
  | acquire (tab : ι)
  | check (tab : ι)
  | answer (tab : ι) (answer : RefreshAnswer User)
  | receive (tab : ι) (now : ℕ)
  | timeout (tab : ι)
  | settle (tab : ι) (now : ℕ)
  | deliver (tab : ι) (message : ℕ)
  | reply (tab : ι) (retry : ℕ) (unauthorized : Bool) (now : ℕ)

variable {ι User : Type} [DecidableEq ι] [DecidableEq User]

/-! ## Tabs -/

def ScopeSnapshot.transition (scope : ScopeSnapshot User) (userId : Option User) (force : Bool) :
    ScopeSnapshot User :=
  if !force ∧ scope.userId = userId then scope else ⟨scope.version + 1, userId⟩

def RefreshAnswer.session (answer : RefreshAnswer User) (tab : ι) (issuedAt : ℕ) :
    Option (AuthSession ι User) :=
  match answer with
  | .refreshed user => some ⟨⟨tab, issuedAt⟩, user⟩
  | _ => none

/-- What the operation of a refresh resolves to, once its task has come to an end. -/
def Refresh.outcome (refresh : Refresh ι User) (sessionGeneration : ℕ) :
    Option (RefreshOutcome ι User) :=
  match refresh.phase with
  | .discarded => some ⟨none, true, false, refresh.generation⟩
  | .published session =>
    some <| if sessionGeneration = refresh.generation then ⟨session, false, true, refresh.generation⟩
      else ⟨none, true, false, refresh.generation⟩
  | .failed => some ⟨none, sessionGeneration ≠ refresh.generation, false, refresh.generation⟩
  | _ => none

namespace Tab

/-- The part of `refreshSession` that runs at once: a call joins the refresh in flight. -/
def refreshSession (tab : Tab ι User) (call : RefreshCall User) : Tab ι User :=
  { tab with
    refreshInFlight := some <| match tab.refreshInFlight with
      | some refresh => { refresh with calls := refresh.calls ++ [call] }
      | none => { generation := tab.sessionGeneration, phase := .waiting, calls := [call] } }

def abortActiveRefresh (tab : Tab ι User) : Tab ι User :=
  { tab with refreshInFlight := tab.refreshInFlight.map fun refresh => { refresh with phase := .failed } }

/-- `applySession`, less its broadcast. -/
def applySession (tab : Tab ι User) (session : Option (AuthSession ι User)) (forceScope : Bool)
    (now : ℕ) : Tab ι User :=
  { tab with
    currentSession := session
    scope := tab.scope.transition (session.map (·.user)) forceScope
    sessionGeneration := tab.sessionGeneration + 1
    sessionEpoch := max (tab.sessionEpoch + 1) now }

/-- What the handler does about a message that ends the session of the tab. -/
def leave (tab : Tab ι User) (epoch : ℕ) : Tab ι User :=
  { tab.abortActiveRefresh with
    currentSession := none
    scope := tab.scope.transition none true
    sessionGeneration := max tab.sessionGeneration epoch + 1 }

/-- A message that names another user than that of the session. -/
def Mismatch (tab : Tab ι User) (message : AuthStateMessage ι User) : Prop :=
  ∃ userId ∈ message.userId, ∃ session ∈ tab.currentSession, session.user ≠ userId

instance (tab : Tab ι User) (message : AuthStateMessage ι User) : Decidable (tab.Mismatch message) :=
  inferInstanceAs (Decidable (∃ userId ∈ message.userId, _))

end Tab

/-! ## Steps -/

namespace Browser

def modify (b : Browser ι User) (i : ι) (f : Tab ι User → Tab ι User) : Browser ι User :=
  { b with tabs := Function.update b.tabs i (f (b.tabs i)) }

def setPhase (b : Browser ι User) (i : ι) (refresh : Refresh ι User) (phase : RefreshPhase ι User) :
    Browser ι User :=
  b.modify i fun tab => { tab with refreshInFlight := some { refresh with phase } }

def log (b : Browser ι User) (event : Event ι User) : Browser ι User :=
  { b with trace := b.trace ++ [event] }

/-- The coordinator lets the lock go with the end of its task. -/
def release (b : Browser ι User) (i : ι) : Browser ι User :=
  { b with lock := if b.lock = some i then none else b.lock }

/-- A message reaches all other tabs. -/
def post (b : Browser ι User) (message : AuthStateMessage ι User) : Browser ι User :=
  { b with
    inbox := fun i => if i = message.source then b.inbox i else b.inbox i ++ [message]
    trace := b.trace ++ [.posted message] }

def broadcastAuthState (b : Browser ι User) (i : ι) (session : Option (AuthSession ι User)) :
    Browser ι User :=
  b.post
    { source := i
      epoch := (b.tabs i).sessionEpoch
      status := if session.isSome then .authenticated else .unauthenticated
      userId := (b.tabs i).currentSession.map (·.user) }

def applySession (b : Browser ι User) (i : ι) (session : Option (AuthSession ι User))
    (broadcast forceScope : Bool) (now : ℕ) : Browser ι User :=
  let b := b.modify i (·.applySession session forceScope now)
  if broadcast then b.broadcastAuthState i session else b

def abortActiveRefresh (b : Browser ι User) (i : ι) : Browser ι User :=
  (b.modify i Tab.abortActiveRefresh).release i

def clearSession (b : Browser ι User) (i : ι) (now : ℕ) : Browser ι User :=
  ((b.abortActiveRefresh i).applySession i none true true now).log (.cleared i)

def refreshSession (b : Browser ι User) (i : ι) (scope : Option (ScopeSnapshot User)) :
    Browser ι User :=
  b.modify i (·.refreshSession ⟨b.time, scope⟩)

/-- The message handler of `createAuthChannel`. -/
def onMessage (b : Browser ι User) (i : ι) (message : AuthStateMessage ι User) : Browser ι User :=
  let b := b.modify i fun tab => { tab with sessionEpoch := max tab.sessionEpoch message.epoch }
  match message.status with
  | .unauthenticated => (b.modify i (·.leave message.epoch)).release i
  | .authenticated =>
    if (b.tabs i).Mismatch message then
      ((b.modify i (·.leave message.epoch)).release i).refreshSession i none
    else if (b.tabs i).sessionGeneration < message.epoch then
      b.modify i fun tab => { tab with sessionGeneration := message.epoch }
    else b

/-- `applyRefreshOutcome` of one call, and the session that the call resolves to. -/
def applyRefreshOutcome (b : Browser ι User) (i : ι) (outcome : RefreshOutcome ι User) (now : ℕ) :
    Browser ι User × Option (AuthSession ι User) :=
  if !outcome.discarded ∧ (b.tabs i).sessionGeneration = outcome.generation then
    (b.applySession i outcome.session (!outcome.published) false now, outcome.session)
  else (b, (b.tabs i).currentSession)

/-- The calls of a refresh resolve one after the other, before any of their callers goes on. -/
def resolveCalls (i : ι) (outcome : RefreshOutcome ι User) (now : ℕ) :
    List (RefreshCall User) → Browser ι User →
      Browser ι User × List (RefreshCall User × Option (AuthSession ι User))
  | [], b => (b, [])
  | call :: calls, b =>
    let (b, session) := b.applyRefreshOutcome i outcome now
    let (b, results) := resolveCalls i outcome now calls (b.log (.resolved i call.startedAt session))
    (b, (call, session) :: results)

/-- How `request` goes on after `refreshOnce`. -/
def afterRefresh (b : Browser ι User) (i : ι) (call : RefreshCall User)
    (session : Option (AuthSession ι User)) (now : ℕ) : Browser ι User :=
  match call.scope with
  | none => b
  | some scope =>
    if (b.tabs i).scope ≠ scope then b
    else if session.isSome then
      b.modify i fun tab =>
        { tab with
          retries := tab.retries ++
            [{ startedAt := call.startedAt, scope, accessToken := tab.currentSession.map (·.accessToken) }] }
    else b.clearSession i now

def act (b : Browser ι User) : Action ι User → Browser ι User
  | .unauthorized i => b.refreshSession i (some (b.tabs i).scope)
  | .acquire i =>
    match (b.tabs i).refreshInFlight with
    | some refresh@⟨_, .waiting, _⟩ =>
      if b.lock = none then { b.setPhase i refresh .locked with lock := some i } else b
    | _ => b
  | .check i =>
    match (b.tabs i).refreshInFlight with
    | some refresh@⟨generation, .locked, _⟩ =>
      if (b.tabs i).sessionGeneration = generation then b.setPhase i refresh .requesting
      else (b.setPhase i refresh .discarded).release i
    | _ => b
  | .answer i answer =>
    match (b.tabs i).refreshInFlight with
    | some refresh@⟨_, .requesting, _⟩ => b.setPhase i refresh (.answered answer b.time)
    | _ => b
  | .receive i now =>
    match (b.tabs i).refreshInFlight with
    | some refresh@⟨generation, .answered answer issuedAt, _⟩ =>
      if answer = .failed then (b.setPhase i refresh .failed).release i
      else if (b.tabs i).sessionGeneration = generation then
        let session := answer.session i issuedAt
        let b := b.modify i fun tab => { tab with sessionEpoch := max (tab.sessionEpoch + 1) now }
        ((b.broadcastAuthState i session).setPhase i refresh (.published session)).release i
      else (b.setPhase i refresh .discarded).release i
    | _ => b
  -- the signal of a deadline rejects the task as that of `abortActiveRefresh` does
  | .timeout i => b.abortActiveRefresh i
  | .settle i now =>
    match (b.tabs i).refreshInFlight with
    | none => b
    | some refresh =>
      match refresh.outcome (b.tabs i).sessionGeneration with
      | none => b
      | some outcome =>
        let b := b.modify i fun tab => { tab with refreshInFlight := none }
        let (b, results) := resolveCalls i outcome now refresh.calls b
        results.foldl (fun b (call, session) => b.afterRefresh i call session now) b
  | .deliver i k =>
    match (b.inbox i)[k]? with
    | none => b
    | some message =>
      { b with inbox := Function.update b.inbox i ((b.inbox i).eraseIdx k) }.onMessage i message
  | .reply i k unauthorized now =>
    match (b.tabs i).retries[k]? with
    | none => b
    | some retry =>
      let b := b.modify i fun tab => { tab with retries := tab.retries.eraseIdx k }
      if unauthorized ∧ (b.tabs i).scope = retry.scope then b.clearSession i now else b

def step (b : Browser ι User) (a : Action ι User) : Browser ι User :=
  { b.act a with time := b.time + 1 }

end Browser

/-! ## Conditions -/

/-- A token that the tab has got from a refresh answered after the call. -/
def AccessToken.Fresh (token : AccessToken ι) (tab : ι) (startedAt : ℕ) : Prop :=
  token.tab = tab ∧ startedAt < token.issuedAt

instance (token : AccessToken ι) (tab : ι) (startedAt : ℕ) : Decidable (token.Fresh tab startedAt) :=
  inferInstanceAs (Decidable (_ ∧ _))

/-- A call resolves to a fresh session, and no session is cleared. -/
def Event.Safe : Event ι User → Prop
  | .resolved tab startedAt session => ∃ s ∈ session, s.accessToken.Fresh tab startedAt
  | .cleared _ => False
  | .posted message => message.status = .authenticated

instance (event : Event ι User) : Decidable event.Safe :=
  match event with
  | .resolved _ _ session => inferInstanceAs (Decidable (∃ s ∈ session, _))
  | .cleared _ => .isFalse id
  | .posted _ => inferInstanceAs (Decidable (_ = _))

/-- The server has not answered the refresh yet. -/
def RefreshPhase.Pending : RefreshPhase ι User → Prop
  | .waiting => True
  | .locked => True
  | .requesting => True
  | _ => False

instance (phase : RefreshPhase ι User) : Decidable phase.Pending := by
  cases phase <;> unfold RefreshPhase.Pending <;> infer_instance

namespace Browser

/-- No tab has a session of another user, and nothing is on its way. -/
structure Initial (user : User) (b : Browser ι User) : Prop where
  sessions (i : ι) : ∀ session ∈ (b.tabs i).currentSession, session.user = user
  refreshes (i : ι) : (b.tabs i).refreshInFlight = none
  retries (i : ι) : (b.tabs i).retries = []
  inbox (i : ι) : b.inbox i = []
  trace : b.trace = []

/-- Every refresh the server answers succeeds for the user, and the server refuses no fresh token. -/
def Premise (user : User) (b : Browser ι User) : Action ι User → Prop
  | .answer _ answer => answer = .refreshed user
  | .reply i k unauthorized _ => unauthorized → ∀ retry ∈ (b.tabs i).retries[k]?,
      ∀ token ∈ retry.accessToken, ¬token.Fresh i retry.startedAt
  | _ => True

/-- No message with an epoch beyond the generation of a tab reaches it while it has a refresh in
flight, no call joins a refresh that the server has answered, and no refresh meets a deadline. -/
def Undisturbed (b : Browser ι User) : Action ι User → Prop
  | .unauthorized i => ∀ refresh ∈ (b.tabs i).refreshInFlight, refresh.phase.Pending
  | .deliver i k => ∀ message ∈ (b.inbox i)[k]?, (b.tabs i).refreshInFlight.isSome →
      message.epoch ≤ (b.tabs i).sessionGeneration
  | .timeout i => (b.tabs i).refreshInFlight = none
  | _ => True

instance (user : User) (b : Browser ι User) (a : Action ι User) : Decidable (b.Premise user a) := by
  cases a <;> unfold Premise <;> infer_instance

instance (b : Browser ι User) (a : Action ι User) : Decidable (b.Undisturbed a) := by
  cases a <;> unfold Undisturbed <;> infer_instance

end Browser

/-! ## Invariant -/

def AuthStateMessage.Sound (user : User) (message : AuthStateMessage ι User) : Prop :=
  message.status = .authenticated ∧ ∀ userId ∈ message.userId, userId = user

/-- The calls of a refresh precede its answer, which is a session of the user. -/
def Refresh.Sound (user : User) (tab : ι) (time : ℕ) (refresh : Refresh ι User) : Prop :=
  match refresh.phase with
  | .waiting => ∀ call ∈ refresh.calls, call.startedAt < time
  | .locked => ∀ call ∈ refresh.calls, call.startedAt < time
  | .requesting => ∀ call ∈ refresh.calls, call.startedAt < time
  | .answered answer issuedAt =>
    answer = .refreshed user ∧ ∀ call ∈ refresh.calls, call.startedAt < issuedAt
  | .published session => ∃ issuedAt, session = some ⟨⟨tab, issuedAt⟩, user⟩ ∧
      ∀ call ∈ refresh.calls, call.startedAt < issuedAt
  | .discarded => False
  | .failed => False

/-- A refresh in flight is still current, and retries go out with fresh tokens. -/
structure Tab.Sound (user : User) (i : ι) (time : ℕ) (tab : Tab ι User) : Prop where
  session : ∀ session ∈ tab.currentSession, session.user = user
  current : ∀ refresh ∈ tab.refreshInFlight, tab.sessionGeneration = refresh.generation
  refresh : ∀ refresh ∈ tab.refreshInFlight, refresh.Sound user i time
  retries : ∀ retry ∈ tab.retries, ∃ token ∈ retry.accessToken, token.Fresh i retry.startedAt

structure Browser.Sound (user : User) (time : ℕ) (b : Browser ι User) : Prop where
  tabs (i : ι) : (b.tabs i).Sound user i time
  inbox (i : ι) : ∀ message ∈ b.inbox i, message.Sound user
  trace : ∀ event ∈ b.trace, event.Safe

section Mono

omit [DecidableEq ι] [DecidableEq User]

theorem Refresh.Sound.mono {user : User} {tab : ι} {time time' : ℕ} {refresh : Refresh ι User}
    (h : refresh.Sound user tab time) (htime : time ≤ time') : refresh.Sound user tab time' := by
  obtain ⟨generation, phase, calls⟩ := refresh
  cases phase with
  | waiting => exact fun call hcall => Nat.lt_of_lt_of_le (h call hcall) htime
  | locked => exact fun call hcall => Nat.lt_of_lt_of_le (h call hcall) htime
  | requesting => exact fun call hcall => Nat.lt_of_lt_of_le (h call hcall) htime
  | answered => exact h
  | discarded => exact h
  | published => exact h
  | failed => exact h

/-- A call may join a refresh that is not answered. -/
theorem Refresh.Sound.append {user : User} {tab : ι} {time : ℕ} {refresh : Refresh ι User}
    (h : refresh.Sound user tab time) (hpending : refresh.phase.Pending) {call : RefreshCall User}
    (hcall : call.startedAt < time) :
    ({ refresh with calls := refresh.calls ++ [call] } : Refresh ι User).Sound user tab time := by
  have happend (h : ∀ call ∈ refresh.calls, call.startedAt < time) :
      ∀ x ∈ refresh.calls ++ [call], x.startedAt < time := by
    intro x hx
    rcases List.mem_append.mp hx with hx | hx
    · exact h x hx
    · exact List.mem_singleton.mp hx ▸ hcall
  obtain ⟨generation, phase, calls⟩ := refresh
  cases phase with
  | waiting => exact happend h
  | locked => exact happend h
  | requesting => exact happend h
  | answered => exact hpending.elim
  | discarded => exact hpending.elim
  | published => exact hpending.elim
  | failed => exact hpending.elim

theorem Tab.Sound.mono {user : User} {i : ι} {time time' : ℕ} {tab : Tab ι User}
    (h : tab.Sound user i time) (htime : time ≤ time') : tab.Sound user i time' where
  session := h.session
  current := h.current
  refresh refresh hrefresh := (h.refresh refresh hrefresh).mono htime
  retries := h.retries

namespace Browser.Sound

variable {user : User} {time : ℕ} {b : Browser ι User}

theorem mono (h : b.Sound user time) {time' : ℕ} (htime : time ≤ time') : b.Sound user time' where
  tabs i := (h.tabs i).mono htime
  inbox := h.inbox
  trace := h.trace

theorem log (h : b.Sound user time) {event : Event ι User} (hevent : event.Safe) :
    (b.log event).Sound user time where
  tabs := h.tabs
  inbox := h.inbox
  trace := by
    intro event' hevent'
    rcases List.mem_append.mp hevent' with hevent' | hevent'
    · exact h.trace event' hevent'
    · exact List.mem_singleton.mp hevent' ▸ hevent

theorem initial (h : b.Initial user) (time : ℕ) : b.Sound user time where
  tabs i :=
    { session := h.sessions i
      current := by
        rw [h.refreshes i]
        exact nofun
      refresh := by
        rw [h.refreshes i]
        exact nofun
      retries := by
        rw [h.retries i]
        exact nofun }
  inbox i := by
    rw [h.inbox i]
    exact nofun
  trace := by
    rw [h.trace]
    exact nofun

end Browser.Sound

end Mono

namespace Browser

variable {user : User} {time : ℕ} {b : Browser ι User} {i : ι}

section Parts

omit [DecidableEq User]

@[simp] theorem modify_tabs_self (b : Browser ι User) (i : ι) (f : Tab ι User → Tab ι User) :
    (b.modify i f).tabs i = f (b.tabs i) :=
  Function.update_self ..

@[simp] theorem broadcastAuthState_tabs (b : Browser ι User) (i : ι)
    (session : Option (AuthSession ι User)) : (b.broadcastAuthState i session).tabs = b.tabs := rfl

@[simp] theorem modify_tabs_of_ne {j : ι} (hne : j ≠ i) (f : Tab ι User → Tab ι User) :
    (b.modify i f).tabs j = b.tabs j :=
  Function.update_of_ne hne ..

namespace Sound

theorem modify (h : b.Sound user time) {f : Tab ι User → Tab ι User}
    (hf : (f (b.tabs i)).Sound user i time) : (b.modify i f).Sound user time where
  tabs j := by
    by_cases heq : j = i
    · subst heq
      rw [modify_tabs_self]
      exact hf
    · rw [modify_tabs_of_ne heq]
      exact h.tabs j
  inbox := h.inbox
  trace := h.trace

theorem setPhase (h : b.Sound user time) {refresh : Refresh ι User}
    (hrefresh : (b.tabs i).refreshInFlight = some refresh) {phase : RefreshPhase ι User}
    (hphase : ({ refresh with phase } : Refresh ι User).Sound user i time) :
    (b.setPhase i refresh phase).Sound user time :=
  h.modify
    { session := (h.tabs i).session
      current := by
        rintro _ ⟨⟩
        exact (h.tabs i).current refresh hrefresh
      refresh := by
        rintro _ ⟨⟩
        exact hphase
      retries := (h.tabs i).retries }

theorem release (h : b.Sound user time) (i : ι) : (b.release i).Sound user time :=
  ⟨h.tabs, h.inbox, h.trace⟩

/-- Without a refresh there is nothing to abort. -/
theorem abortActiveRefresh (h : b.Sound user time) (hidle : (b.tabs i).refreshInFlight = none) :
    (b.abortActiveRefresh i).Sound user time := by
  refine Sound.release (h.modify ?_) i
  rw [Tab.abortActiveRefresh, hidle, Option.map_none, ← hidle]
  exact h.tabs i

theorem post (h : b.Sound user time) {message : AuthStateMessage ι User}
    (hmessage : message.Sound user) : (b.post message).Sound user time where
  tabs := h.tabs
  inbox j message' hmessage' := by
    simp only [Browser.post] at hmessage'
    split at hmessage'
    · exact h.inbox j message' hmessage'
    · rcases List.mem_append.mp hmessage' with hmessage' | hmessage'
      · exact h.inbox j message' hmessage'
      · exact List.mem_singleton.mp hmessage' ▸ hmessage
  trace := by
    have hsafe : (Event.posted message).Safe := hmessage.1
    exact (h.log hsafe).trace

theorem broadcastAuthState (h : b.Sound user time) (i : ι) (session : AuthSession ι User) :
    (b.broadcastAuthState i (some session)).Sound user time := by
  refine h.post ⟨rfl, fun userId huserId => ?_⟩
  obtain ⟨current, hcurrent, rfl⟩ := Option.map_eq_some_iff.mp huserId
  exact (h.tabs i).session current hcurrent

end Sound

end Parts

end Browser

/-! ## Steps -/

namespace Browser

variable {user : User} {b : Browser ι User} {i : ι}

section Settle

omit [DecidableEq ι] [DecidableEq User] in
@[simp] theorem log_tabs (b : Browser ι User) (event : Event ι User) :
    (b.log event).tabs = b.tabs := rfl

variable {time : ℕ} {issuedAt : ℕ} {session : AuthSession ι User} {outcome : RefreshOutcome ι User}

theorem resolveCalls_cons {now : ℕ} {applied : Browser ι User}
    {session : Option (AuthSession ι User)}
    (happly : b.applyRefreshOutcome i outcome now = (applied, session)) (call : RefreshCall User)
    (calls : List (RefreshCall User)) :
    resolveCalls i outcome now (call :: calls) b =
      let rest := resolveCalls i outcome now calls
        (applied.log (.resolved i call.startedAt session))
      (rest.1, (call, session) :: rest.2) := by
  rw [resolveCalls, happly]

variable (outcome) in
/-- Once the outcome has been applied, every other call gets the current session. -/
theorem resolveCalls_eq (hcurrent : (b.tabs i).currentSession = some session)
    (hgeneration : (b.tabs i).sessionGeneration ≠ outcome.generation) (now : ℕ)
    (calls : List (RefreshCall User)) :
    resolveCalls i outcome now calls b =
      ({ b with trace := b.trace ++ calls.map fun call => .resolved i call.startedAt (some session) },
        calls.map fun call => (call, some session)) := by
  induction calls generalizing b with
  | nil => rw [resolveCalls, List.map_nil, List.append_nil, List.map_nil]
  | cons call calls ih =>
    have happly : b.applyRefreshOutcome i outcome now = (b, some session) := by
      rw [applyRefreshOutcome, if_neg (fun h => hgeneration h.2), hcurrent]
    rw [resolveCalls_cons happly]
    have hlog := ih (b := b.log (.resolved i call.startedAt (some session))) hcurrent hgeneration
    rw [hlog, log, List.map_cons, List.map_cons, List.append_assoc]
    rfl

/-- What the calls of a refresh that is still current resolve to. -/
theorem Sound.resolveCalls (h : b.Sound user time) (hidle : (b.tabs i).refreshInFlight = none)
    {generation : ℕ} (hgeneration : (b.tabs i).sessionGeneration = generation) (now : ℕ)
    {calls : List (RefreshCall User)} (hcalls : ∀ call ∈ calls, call.startedAt < issuedAt) :
    let session : AuthSession ι User := ⟨⟨i, issuedAt⟩, user⟩
    let resolved := Browser.resolveCalls i ⟨some session, false, true, generation⟩ now calls b
    resolved.1.Sound user time ∧
      (calls ≠ [] → (resolved.1.tabs i).currentSession = some session) ∧
      resolved.2 = calls.map fun call => (call, some session) := by
  intro session resolved
  cases calls with
  | nil => exact ⟨h, fun hne => absurd rfl hne, rfl⟩
  | cons call calls =>
    let outcome : RefreshOutcome ι User := ⟨some session, false, true, generation⟩
    let applied := b.modify i (·.applySession (some session) false now)
    have happly : b.applyRefreshOutcome i outcome now = (applied, some session) := by
      rw [applyRefreshOutcome, if_pos ⟨rfl, hgeneration⟩]
      rfl
    have happlied : applied.Sound user time :=
      h.modify
        { session := by
            rintro _ ⟨⟩
            rfl
          current := by
            rw [Tab.applySession, hidle]
            exact nofun
          refresh := by
            rw [Tab.applySession, hidle]
            exact nofun
          retries := (h.tabs i).retries }
    have hcurrent : (applied.tabs i).currentSession = some session := by
      rw [modify_tabs_self, Tab.applySession]
    have hmoved : (applied.tabs i).sessionGeneration ≠ generation := by
      rw [modify_tabs_self, Tab.applySession, hgeneration]
      exact Nat.succ_ne_self _
    have hsafe (call' : RefreshCall User) (hcall' : call' ∈ call :: calls) :
        (Event.resolved i call'.startedAt (some session)).Safe :=
      ⟨session, rfl, rfl, hcalls call' hcall'⟩
    have hresolved : resolved = _ := resolveCalls_cons happly call calls
    have hlogged := resolveCalls_eq (b := applied.log (.resolved i call.startedAt (some session)))
      outcome hcurrent hmoved now calls
    rw [hresolved, hlogged]
    refine ⟨⟨happlied.tabs, happlied.inbox, fun event hevent => ?_⟩, fun _ => hcurrent, rfl⟩
    rcases List.mem_append.mp hevent with hevent | hevent
    · exact (happlied.log (hsafe call List.mem_cons_self)).trace event hevent
    · obtain ⟨call', hcall', rfl⟩ := List.mem_map.mp hevent
      exact hsafe call' (List.mem_cons_of_mem _ hcall')

/-- A caller with a session sends its request again, with the token of the tab. -/
theorem Sound.afterRefresh (h : b.Sound user time)
    (hcurrent : (b.tabs i).currentSession = some session) {call : RefreshCall User}
    (hfresh : session.accessToken.Fresh i call.startedAt) (now : ℕ) :
    (b.afterRefresh i call (some session) now).Sound user time ∧
      ((b.afterRefresh i call (some session) now).tabs i).currentSession = some session := by
  rw [Browser.afterRefresh]
  split
  · exact ⟨h, hcurrent⟩
  · split
    · exact ⟨h, hcurrent⟩
    · rw [if_pos (by rfl)]
      refine ⟨h.modify { h.tabs i with retries := ?_ }, ?_⟩
      · intro retry hretry
        rcases List.mem_append.mp hretry with hretry | hretry
        · exact (h.tabs i).retries retry hretry
        · cases List.mem_singleton.mp hretry
          rw [hcurrent]
          exact ⟨session.accessToken, rfl, hfresh⟩
      · rw [modify_tabs_self]
        exact hcurrent

end Settle

theorem Sound.settle (h : b.Sound user b.time) (i : ι) (now : ℕ) :
    (b.act (.settle i now)).Sound user b.time := by
  rw [act]
  split
  · exact h
  · next refresh hrefresh =>
    obtain ⟨generation, phase, calls⟩ := refresh
    have hsound := (h.tabs i).refresh _ hrefresh
    have hgeneration : (b.tabs i).sessionGeneration = generation := (h.tabs i).current _ hrefresh
    cases phase with
    | published session =>
      obtain ⟨issuedAt, rfl, hcalls⟩ := hsound
      let cleared := b.modify i fun tab => { tab with refreshInFlight := none }
      have hidle : (cleared.tabs i).refreshInFlight = none := by rw [modify_tabs_self]
      have hcurrent : (cleared.tabs i).sessionGeneration = generation := by
        rw [modify_tabs_self]
        exact hgeneration
      have hcleared : cleared.Sound user b.time :=
        h.modify
          { session := (h.tabs i).session
            current := nofun
            refresh := nofun
            retries := (h.tabs i).retries }
      have houtcome : (⟨generation, .published (some ⟨⟨i, issuedAt⟩, user⟩), calls⟩ :
          Refresh ι User).outcome (b.tabs i).sessionGeneration =
            some ⟨some ⟨⟨i, issuedAt⟩, user⟩, false, true, generation⟩ :=
        congrArg some (if_pos hgeneration)
      rw [houtcome]
      dsimp only
      obtain ⟨hresolved, hcurrent, hresults⟩ := hcleared.resolveCalls hidle hcurrent now hcalls
      rw [hresults]
      cases calls with
      | nil => exact hresolved
      | cons call calls =>
        have hcurrent := hcurrent (List.cons_ne_nil _ _)
        refine (List.foldlRecOn (motive := fun b' : Browser ι User => b'.Sound user b.time ∧
          (b'.tabs i).currentSession = some ⟨⟨i, issuedAt⟩, user⟩) _ _ ⟨hresolved, hcurrent⟩ ?_).1
        rintro b' ⟨hb', hcurrent'⟩ _ hresult
        obtain ⟨call', hcall', rfl⟩ := List.mem_map.mp hresult
        exact hb'.afterRefresh hcurrent' ⟨rfl, hcalls call' hcall'⟩ now
    | discarded => exact hsound.elim
    | failed => exact hsound.elim
    | _ => exact h

theorem Sound.onMessage {time : ℕ} (h : b.Sound user time) {message : AuthStateMessage ι User}
    (hmessage : message.Sound user)
    (hundisturbed : (b.tabs i).refreshInFlight.isSome →
      message.epoch ≤ (b.tabs i).sessionGeneration) :
    (b.onMessage i message).Sound user time := by
  obtain ⟨hstatus, huser⟩ := hmessage
  have hepoch : (b.modify i fun tab => { tab with sessionEpoch := max tab.sessionEpoch message.epoch }).Sound
      user time :=
    h.modify { h.tabs i with }
  have hmatch : ¬(b.tabs i).Mismatch message := by
    rintro ⟨userId, huserId, session, hsession, hne⟩
    exact hne (((h.tabs i).session session hsession).trans (huser userId huserId).symm)
  rw [Browser.onMessage, hstatus]
  dsimp only
  rw [modify_tabs_self, if_neg (by exact hmatch)]
  split
  · next hlt =>
    have hidle : (b.tabs i).refreshInFlight = none := by
      rw [← Option.not_isSome_iff_eq_none]
      exact fun hsome => Nat.not_lt.mpr (hundisturbed hsome) hlt
    refine hepoch.modify ?_
    rw [modify_tabs_self]
    exact
      { session := (h.tabs i).session
        current := by
          rw [hidle]
          exact nofun
        refresh := by
          rw [hidle]
          exact nofun
        retries := (h.tabs i).retries }
  · exact hepoch

theorem Sound.deliver (h : b.Sound user b.time) {k : ℕ} (hmessage : b.Undisturbed (.deliver i k)) :
    (b.act (.deliver i k)).Sound user b.time := by
  rw [act]
  split
  · exact h
  · next message hget =>
    have hpopped : ({ b with inbox := Function.update b.inbox i ((b.inbox i).eraseIdx k) } :
        Browser ι User).Sound user b.time := by
      refine ⟨h.tabs, fun j => ?_, h.trace⟩
      by_cases heq : j = i
      · subst heq
        dsimp only
        rw [Function.update_self]
        exact fun m hm => h.inbox j m (List.mem_of_mem_eraseIdx hm)
      · dsimp only
        rw [Function.update_of_ne heq]
        exact h.inbox j
    exact hpopped.onMessage (h.inbox i message (List.mem_of_getElem? hget)) (hmessage message hget)

theorem Sound.reply (h : b.Sound user b.time) {k : ℕ} {unauthorized : Bool} {now : ℕ}
    (hreply : b.Premise user (.reply i k unauthorized now)) :
    (b.act (.reply i k unauthorized now)).Sound user b.time := by
  rw [act]
  split
  · exact h
  · next retry hget =>
    obtain ⟨token, htoken, hfresh⟩ := (h.tabs i).retries retry (List.mem_of_getElem? hget)
    rw [if_neg fun hunauthorized => hreply hunauthorized.1 retry hget token htoken hfresh]
    exact h.modify
      { h.tabs i with
        retries := fun retry hretry => (h.tabs i).retries retry (List.mem_of_mem_eraseIdx hretry) }

theorem Sound.unauthorized (h : b.Sound user b.time) (hjoin : b.Undisturbed (.unauthorized i)) :
    (b.act (.unauthorized i)).Sound user (b.time + 1) := by
  have hnext := h.mono b.time.le_succ
  rw [act, refreshSession]
  refine hnext.modify ?_
  rw [Tab.refreshSession]
  cases hrefresh : (b.tabs i).refreshInFlight with
  | none =>
    refine { hnext.tabs i with current := ?_, refresh := ?_ }
    · rintro _ ⟨⟩
      rfl
    · rintro _ ⟨⟩ call hcall
      exact List.mem_singleton.mp hcall ▸ b.time.lt_succ_self
  | some refresh =>
    refine { hnext.tabs i with current := ?_, refresh := ?_ }
    · rintro _ ⟨⟩
      exact (h.tabs i).current refresh hrefresh
    · rintro _ ⟨⟩
      exact ((hnext.tabs i).refresh refresh hrefresh).append (hjoin refresh hrefresh)
        b.time.lt_succ_self

theorem Sound.receive (h : b.Sound user b.time) (i : ι) (now : ℕ) :
    (b.act (.receive i now)).Sound user b.time := by
  rw [act]
  split
  · next generation answer issuedAt calls hrefresh =>
    obtain ⟨rfl, hcalls⟩ := (h.tabs i).refresh _ hrefresh
    rw [if_neg nofun, if_pos ((h.tabs i).current _ hrefresh)]
    refine Sound.release (Sound.setPhase (Sound.broadcastAuthState (h.modify ?_) i _) ?_ ?_) i
    · exact { h.tabs i with }
    · rw [broadcastAuthState_tabs, modify_tabs_self]
      exact hrefresh
    · exact ⟨issuedAt, rfl, hcalls⟩
  · exact h

theorem Sound.act (h : b.Sound user b.time) {a : Action ι User} (hpremise : b.Premise user a)
    (hundisturbed : b.Undisturbed a) : (b.act a).Sound user (b.time + 1) := by
  have hle : b.time ≤ b.time + 1 := b.time.le_succ
  cases a with
  | unauthorized i => exact h.unauthorized hundisturbed
  | acquire i =>
    rw [Browser.act]
    split
    · next generation calls hrefresh =>
      split
      · have hcalls : ∀ call ∈ calls, call.startedAt < b.time := (h.tabs i).refresh _ hrefresh
        have hphase : (b.setPhase i ⟨generation, .waiting, calls⟩ .locked).Sound user b.time :=
          h.setPhase hrefresh hcalls
        have hnext := hphase.mono hle
        exact ⟨hnext.tabs, hnext.inbox, hnext.trace⟩
      · exact h.mono hle
    · exact h.mono hle
  | check i =>
    rw [Browser.act]
    split
    · next generation calls hrefresh =>
      rw [if_pos ((h.tabs i).current _ hrefresh)]
      have hcalls : ∀ call ∈ calls, call.startedAt < b.time := (h.tabs i).refresh _ hrefresh
      have hphase : (b.setPhase i ⟨generation, .locked, calls⟩ .requesting).Sound user b.time :=
        h.setPhase hrefresh hcalls
      exact hphase.mono hle
    · exact h.mono hle
  | answer i answer =>
    rw [Browser.act]
    split
    · next generation calls hrefresh =>
      have hcalls : ∀ call ∈ calls, call.startedAt < b.time := (h.tabs i).refresh _ hrefresh
      have hphase : (b.setPhase i ⟨generation, .requesting, calls⟩ (.answered answer b.time)).Sound
          user b.time :=
        h.setPhase hrefresh ⟨hpremise, hcalls⟩
      exact hphase.mono hle
    · exact h.mono hle
  | receive i now => exact (h.receive i now).mono hle
  | timeout i => exact (h.abortActiveRefresh hundisturbed).mono hle
  | settle i now => exact (h.settle i now).mono hle
  | deliver i k => exact (h.deliver hundisturbed).mono hle
  | reply i k unauthorized now => exact (h.reply hpremise).mono hle

theorem Sound.step (h : b.Sound user b.time) {a : Action ι User} (hpremise : b.Premise user a)
    (hundisturbed : b.Undisturbed a) : (b.step a).Sound user (b.step a).time := by
  have hact := h.act hpremise hundisturbed
  exact ⟨hact.tabs, hact.inbox, hact.trace⟩

/-- In a run in which no message overtakes a refresh and none runs into a deadline, every call of
`refreshSession` resolves to a session that its tab has got since, and no tab clears its session or
tells the others to. -/
theorem refresh_safe (hinitial : b.Initial user) {actions : List (Action ι User)}
    (hrun : Always step (fun b a => b.Premise user a ∧ b.Undisturbed a) b actions) :
    ∀ event ∈ (run step b actions).trace, event.Safe :=
  have hstep (b : Browser ι User) (a : Action ι User) (h : b.Sound user b.time)
      (ha : b.Premise user a ∧ b.Undisturbed a) : (b.step a).Sound user (b.step a).time :=
    h.step ha.1 ha.2
  (run_invariant hstep (.initial hinitial b.time) hrun).trace

/-! ## Deadlines -/

section Timeout

theorem trace_resolveCalls (i : ι) (outcome : RefreshOutcome ι User) (now : ℕ)
    (calls : List (RefreshCall User)) (b : Browser ι User) :
    b.trace <+: (resolveCalls i outcome now calls b).1.trace := by
  induction calls generalizing b with
  | nil => exact List.prefix_rfl
  | cons call calls ih =>
    obtain ⟨⟨applied, session⟩, happly⟩ : ∃ result, b.applyRefreshOutcome i outcome now = result :=
      ⟨_, rfl⟩
    have happlied : b.trace <+: applied.trace := by
      rw [applyRefreshOutcome] at happly
      split at happly
      · cases happly
        rw [applySession]
        split
        · exact List.prefix_append _ _
        · exact List.prefix_rfl
      · cases happly
        exact List.prefix_rfl
    have hrest := ih (applied.log (.resolved i call.startedAt session))
    rw [resolveCalls_cons happly]
    exact happlied.trans ((List.prefix_append _ _).trans hrest)

theorem trace_afterRefresh (b : Browser ι User) (i : ι) (call : RefreshCall User)
    (session : Option (AuthSession ι User)) (now : ℕ) :
    b.trace <+: (b.afterRefresh i call session now).trace := by
  rw [afterRefresh]
  split
  · exact List.prefix_rfl
  · split
    · exact List.prefix_rfl
    · split
      · exact List.prefix_rfl
      · rw [clearSession, applySession, if_pos rfl]
        exact (List.prefix_append _ _).trans (List.prefix_append _ _)

/-- A refresh that runs into a deadline while it is current resolves to no session, and its tab logs
the others out, whatever the server answers. -/
theorem timeout_unsafe {refresh : Refresh ι User} {call : RefreshCall User}
    {calls : List (RefreshCall User)} (hrefresh : (b.tabs i).refreshInFlight = some refresh)
    (hgeneration : (b.tabs i).sessionGeneration = refresh.generation)
    (hcalls : refresh.calls = call :: calls) (now : ℕ) :
    ∃ message, message.status = .unauthenticated ∧
      [.posted message, .resolved i call.startedAt none] ⊆
        ((b.step (.timeout i)).step (.settle i now)).trace := by
  let outcome : RefreshOutcome ι User := ⟨none, false, false, refresh.generation⟩
  have haborted : ((b.step (.timeout i)).tabs i).refreshInFlight =
      some { refresh with phase := .failed } := by
    change ((b.modify i Tab.abortActiveRefresh).tabs i).refreshInFlight = _
    rw [modify_tabs_self, Tab.abortActiveRefresh, hrefresh, Option.map_some]
  have hcurrent : ((b.step (.timeout i)).tabs i).sessionGeneration = refresh.generation := by
    change ((b.modify i Tab.abortActiveRefresh).tabs i).sessionGeneration = _
    rw [modify_tabs_self]
    exact hgeneration
  have houtcome : ({ refresh with phase := .failed } : Refresh ι User).outcome
      ((b.step (.timeout i)).tabs i).sessionGeneration = some outcome := by
    simp [Refresh.outcome, hcurrent, outcome]
  let cleared := (b.step (.timeout i)).modify i fun tab => { tab with refreshInFlight := none }
  let applied := cleared.applySession i none true false now
  have happly : cleared.applyRefreshOutcome i outcome now = (applied, none) := by
    rw [applyRefreshOutcome, if_pos]
    · rfl
    · rw [modify_tabs_self]
      exact ⟨rfl, hcurrent⟩
  obtain ⟨message, hstatus, hposted⟩ : ∃ message : AuthStateMessage ι User,
      message.status = .unauthenticated ∧ applied.trace = cleared.trace ++ [.posted message] := by
    refine ⟨_, ?_, rfl⟩
    rfl
  let logged := applied.log (.resolved i call.startedAt none)
  have hlogged : logged.trace <+: ((b.step (.timeout i)).step (.settle i now)).trace := by
    rw [step, act, haborted]
    dsimp only
    rw [houtcome]
    dsimp only
    rw [hcalls, resolveCalls_cons happly]
    refine (trace_resolveCalls i outcome now calls logged).trans ?_
    refine List.foldlRecOn (motive := fun b' : Browser ι User =>
      (resolveCalls i outcome now calls logged).1.trace <+: b'.trace) _ _ List.prefix_rfl ?_
    rintro b' hb' ⟨call', session⟩ -
    exact hb'.trans (trace_afterRefresh b' i call' session now)
  refine ⟨message, hstatus, fun event hevent => hlogged.subset ?_⟩
  change event ∈ applied.trace ++ [.resolved i call.startedAt none]
  rw [hposted, List.append_assoc]
  exact List.mem_append_right _ hevent

end Timeout

/-! ## Two tabs -/

/-- Two tabs of one user, both with a token that has expired. -/
def twoTabs : Browser Bool ℕ where
  tabs i :=
    { currentSession := some ⟨⟨i, 0⟩, 7⟩
      sessionGeneration := 0
      sessionEpoch := 1000
      scope := ⟨1, some 7⟩
      refreshInFlight := none
      retries := [] }
  inbox _ := []
  lock := none
  time := 1
  trace := []

theorem twoTabs_initial : twoTabs.Initial 7 where
  sessions i := by
    rintro _ ⟨⟩
    rfl
  refreshes _ := rfl
  retries _ := rfl
  inbox _ := rfl
  trace := rfl

/-- A refresh from the 401 to the answer of the retry. -/
def refreshTurn (i : Bool) (now : ℕ) : List (Action Bool ℕ) :=
  [.unauthorized i, .acquire i, .check i, .answer i (.refreshed 7), .receive i now, .settle i now,
    .reply i 0 false now]

/-- The tabs refresh in turn, each after the message of the other. -/
theorem refresh_safe_in_turn :
    let b := run step twoTabs
      (refreshTurn false 2000 ++ [.deliver true 0] ++ refreshTurn true 3000 ++ [.deliver false 0])
    .resolved true 9 (some ⟨⟨true, 12⟩, 7⟩) ∈ b.trace ∧ ∀ event ∈ b.trace, event.Safe :=
  ⟨by decide +kernel, refresh_safe twoTabs_initial (by decide +kernel)⟩

/-- Both tabs ask for a refresh, and the second one waits for the lock while the first refreshes. -/
def overtaken : List (Action Bool ℕ) :=
  [.unauthorized false, .unauthorized true, .acquire false, .check false,
    .answer false (.refreshed 7), .receive false 2000, .deliver true 0, .settle false 2000,
    .reply false 0 false 2000, .acquire true, .check true, .settle true 2100, .reply true 0 true 2200,
    .deliver false 0]

/-- The second tab gets its stale session for a refreshed one, clears it when the retry is refused,
and logs the first tab out, though the server has refused no refresh and no fresh token. -/
theorem refresh_unsafe :
    twoTabs.Initial 7 ∧ Always step (Premise 7) twoTabs overtaken ∧
      .resolved true 2 (some ⟨⟨true, 0⟩, 7⟩) ∈ (run step twoTabs overtaken).trace ∧
      .cleared true ∈ (run step twoTabs overtaken).trace ∧
      (∃ message, .posted message ∈ (run step twoTabs overtaken).trace ∧
        message.status = .unauthenticated) ∧
      (∃ event ∈ (run step twoTabs overtaken).trace, ¬event.Safe) ∧
      ((run step twoTabs overtaken).tabs false).currentSession = none := by
  have hcleared : .cleared true ∈ (run step twoTabs overtaken).trace := by decide +kernel
  refine ⟨twoTabs_initial, by decide +kernel, by decide +kernel, hcleared, ?_, ⟨_, hcleared, id⟩,
    by decide +kernel⟩
  exact ⟨⟨true, 2200, .unauthenticated, none⟩, by decide +kernel, rfl⟩

end Browser

end Frontend

end Apanel
