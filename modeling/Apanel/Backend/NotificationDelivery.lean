import Apanel.Library.Table
import Apanel.Library.Transition
import Mathlib.Algebra.Group.Int.Defs

/-!
# Notification delivery

The delivery of one outbox row (`app/services/notification_service.py`). A worker claims the row
under its lock, sends, and records the outcome in one transaction (`dispatch`, `retry`,
`_deliver_existing`); a commit that raises leaves the outcome unknown, and `_commit_delivery` locks
the row again to find out. The steps of any number of workers interleave, a commit can fail before
or after it takes effect, and a transaction can be rolled back at any point.
-/

namespace Apanel

inductive NotificationStatus
  | pending
  | sent
  | failed
  deriving DecidableEq

/-- `error_code`: `INVALID_NOTIFICATION_CONTENT`, and the codes of `_safe_delivery_error`. -/
inductive DeliveryErrorCode
  | invalidNotificationContent
  | http (status : ℤ)
  | feishu (code : ℤ)
  | feishuError
  | providerError
  deriving DecidableEq

/-- An outbox row. The content is its body and the `error` entry; times are microseconds. -/
structure Notification (Body : Type) where
  body : Body
  contentError : Option (DeliveryErrorCode × String)
  status : NotificationStatus
  attemptCount : ℕ
  errorCode : Option DeliveryErrorCode
  errorMessage : Option String
  nextRetryAt : Option ℤ
  sentAt : Option ℤ
  createdAt : ℤ
  deriving DecidableEq

/-- What `_deliver_existing` reads of an exception. -/
structure DeliveryFailure where
  statusCode : Option ℤ
  businessCode : Option ℤ
  isFeishuWebhookError : Bool
  isTimeout : Bool
  retryable : Bool

/-- `_safe_delivery_error`. -/
def DeliveryFailure.errorCode (failure : DeliveryFailure) : DeliveryErrorCode :=
  match failure.statusCode, failure.businessCode with
  | some status, _ => .http status
  | none, some code => .feishu code
  | none, none => if failure.isFeishuWebhookError then .feishuError else .providerError

def DeliveryFailure.transient (failure : DeliveryFailure) : Bool :=
  failure.isTimeout || failure.retryable ||
    failure.statusCode.any fun status => status = 429 || (500 ≤ status && status ≤ 599)

def notificationMaxAutoAttempts : ℕ := 5

def notificationRetryBase : ℤ := 60000000

def notificationCommitRecoveryAttempts : ℕ := 2

/-- What a worker does with the row it has locked. -/
inductive DeliveryClaim (Body : Type)
  | finished
  | store (row : Notification Body)
  | outcome (row : Notification Body)
  | deliver (row : Notification Body)

/-- What a worker remembers of the row it claimed (`_delivery_baselines`). -/
def Notification.baseline {Body : Type} (row : Notification Body) :
    NotificationStatus × ℕ × Option DeliveryErrorCode × Option ℤ :=
  (row.status, row.attemptCount, row.errorCode, row.nextRetryAt)

section Service

/- `deliverable` is whether `_message_from_content` builds a message from the body, `window` the
pending recovery window. -/
variable {Body : Type} (deliverable : Body → Bool) (window : ℤ)

/-- `is_notification_retryable`. -/
def isNotificationRetryable (row : Notification Body) (now : ℤ) : Bool :=
  match row.status with
  | .failed => row.errorCode != some .invalidNotificationContent
  | .pending => row.createdAt + window ≤ now
  | .sent => false

/-- The part of `_deliver_existing` before the provider call. -/
def deliverExisting (row : Notification Body) : DeliveryClaim Body :=
  .deliver { row with attemptCount := row.attemptCount + 1, nextRetryAt := none }

def invalidContent (row : Notification Body) (message : String) : Notification Body :=
  { row with
    status := .failed
    errorCode := some .invalidNotificationContent
    errorMessage := some message
    nextRetryAt := none }

/-- `dispatch` of the locked row. -/
def dispatch (recover : Bool) (now : ℤ) (row : Notification Body) : DeliveryClaim Body :=
  let dueFailure := row.status = .failed ∧ row.nextRetryAt.any (· ≤ now) ∧
    row.attemptCount < notificationMaxAutoAttempts
  let oldPending := row.status = .pending ∧ isNotificationRetryable window row now
  if recover ∧ ¬ (dueFailure ∨ oldPending) then .finished
  else
    let row := if recover then { row with status := .pending } else row
    if row.status ≠ .pending then .finished
    else if !deliverable row.body then
      .outcome (invalidContent row "Notification content cannot be delivered.")
    else deliverExisting row

/-- `retry` of the locked row. -/
def retry (now : ℤ) (row : Notification Body) : DeliveryClaim Body :=
  if row.status = .sent then .finished
  else if row.status = .pending ∧ !isNotificationRetryable window row now then .finished
  else if !deliverable row.body then
    .store (invalidContent row "Notification content cannot be retried.")
  else
    deliverExisting { row with
      status := .pending
      errorCode := none
      errorMessage := none
      contentError := none }

/-- The outcome after the provider has accepted the message. -/
def sentOutcome (now : ℤ) (row : Notification Body) : Notification Body :=
  { row with
    status := .sent
    errorCode := none
    errorMessage := none
    sentAt := some now
    contentError := none }

/-- The outcome after an exception. -/
def failedOutcome (failure : DeliveryFailure) (now : ℤ) (row : Notification Body) :
    Notification Body :=
  { row with
    status := .failed
    errorCode := some failure.errorCode
    errorMessage := some "Notification provider failed."
    nextRetryAt :=
      if failure.transient ∧ row.attemptCount < notificationMaxAutoAttempts then
        some (now + notificationRetryBase * 2 ^ (row.attemptCount - 1))
      else row.nextRetryAt
    contentError := some (failure.errorCode, "Notification provider failed.") }

/-! ## Workers -/

/-- Where the terminal outcome of a worker comes from: a provider call, the content check of
`dispatch`, or the content check of `retry`, which commits without recovery. -/
inductive OutcomeSource
  | send
  | contentCheck
  | retryCheck
  deriving DecidableEq

/-- How far a worker has come. The row lock is held from `sending` to the commit, and while
`rewriting`; `attempts` is what is left of `NOTIFICATION_COMMIT_RECOVERY_ATTEMPTS`. -/
inductive DeliveryPhase (Body : Type)
  | sending (row : Notification Body)
  | committing (source : OutcomeSource) (outcome : Notification Body)
  | recovering (attempts : ℕ) (outcome : Notification Body)
  | rewriting (attempts : ℕ) (persisted outcome : Notification Body)
  | finished

/-- The phase after a claim. -/
def DeliveryClaim.phase : DeliveryClaim Body → DeliveryPhase Body
  | .finished => .finished
  | .store row => .committing .retryCheck row
  | .outcome row => .committing .contentCheck row
  | .deliver row => .sending row

def DeliveryPhase.locked : DeliveryPhase Body → Bool
  | sending _ => true
  | committing _ _ => true
  | rewriting _ _ _ => true
  | _ => false

/-- A worker, with the row as it claimed it. -/
structure DeliveryWorker (Body : Type) where
  claimed : Notification Body
  phase : DeliveryPhase Body

/-- The durable row, and every worker that has claimed it. -/
structure DeliveryState (Body : Type) where
  row : Notification Body
  workers : Table ℕ (DeliveryWorker Body)

inductive DeliveryEntry
  | dispatch (recover : Bool)
  | retry

/-- What becomes of a commit. -/
inductive CommitResult
  | ok
  | failedBefore
  | failedAfter
  deriving DecidableEq

def CommitResult.effective : CommitResult → Bool
  | failedBefore => false
  | _ => true

inductive DeliveryAction
  | claim (worker : ℕ) (entry : DeliveryEntry) (now : ℤ)
  | sendOk (worker : ℕ) (now : ℤ)
  | sendFailed (worker : ℕ) (failure : DeliveryFailure) (now : ℤ)
  | commit (worker : ℕ) (result : CommitResult)
  | relock (worker : ℕ)
  | relockFailed (worker : ℕ)
  | rollback (worker : ℕ)

namespace DeliveryState

def LockFree (s : DeliveryState Body) : Prop := ∀ row ∈ s.workers.rows, row.2.phase.locked = false

instance (s : DeliveryState Body) : Decidable s.LockFree :=
  inferInstanceAs (Decidable (∀ row ∈ s.workers.rows, row.2.phase.locked = false))

def initial (row : Notification Body) : DeliveryState Body := ⟨row, ∅⟩

/-- The worker, if it is in a phase in which the step is enabled, moves to the next one. -/
def advance (s : DeliveryState Body) (w : ℕ)
    (f : DeliveryWorker Body → Option (DeliveryPhase Body)) : DeliveryState Body :=
  { s with workers := s.workers.update w fun worker => (f worker).map ({ worker with phase := · }) }

/-- The conditional UPDATE of the recovery writes every column of the outcome. -/
def rewrite (row persisted outcome : Notification Body) : Option (Notification Body) :=
  if row.status = persisted.status ∧ row.attemptCount = persisted.attemptCount then
    some { outcome with createdAt := row.createdAt }
  else none

/-- The row that a commit of the worker makes durable, if its transaction changes it. -/
def write (s : DeliveryState Body) (w : ℕ) : Option (Notification Body) :=
  match s.workers.get? w with
  | some worker =>
    match worker.phase with
    | .committing _ outcome => some outcome
    | .rewriting _ persisted outcome => rewrite s.row persisted outcome
    | _ => none
  | none => none

/-- The phase after a commit: `_commit_delivery` recovers from a failure, `retry` of an invalid
content does not. -/
def afterCommit (s : DeliveryState Body) (w : ℕ) (result : CommitResult)
    (worker : DeliveryWorker Body) : Option (DeliveryPhase Body) :=
  match worker.phase with
  | .committing source outcome =>
    if result = .ok ∨ source = .retryCheck then some .finished
    else some (.recovering notificationCommitRecoveryAttempts outcome)
  | .rewriting attempts _ outcome =>
    if result = .ok ∧ (s.write w).isSome then some .finished
    else some (.recovering attempts outcome)
  | _ => none

/-- A recovery reads the row again: another worker's terminal outcome wins. -/
def afterRelock (s : DeliveryState Body) (worker : DeliveryWorker Body) :
    Option (DeliveryPhase Body) :=
  match worker.phase with
  | .recovering 0 _ => some .finished
  | .recovering (attempts + 1) outcome =>
    if s.LockFree then
      if s.row.status ≠ .pending ∧ s.row.baseline ≠ worker.claimed.baseline then some .finished
      else some (.rewriting attempts s.row outcome)
    else none
  | _ => none

/-- A step that is not enabled changes nothing. -/
def step (s : DeliveryState Body) : DeliveryAction → DeliveryState Body
  | .claim w entry now =>
    if w ∈ s.workers.keys ∨ ¬ s.LockFree then s
    else
      let claim := match entry with
        | .dispatch recover => dispatch deliverable window recover now s.row
        | .retry => retry deliverable window now s.row
      { s with workers := s.workers.insert w { claimed := s.row, phase := claim.phase } }
  | .sendOk w now => s.advance w fun worker =>
    match worker.phase with
    | .sending row => some (.committing .send (sentOutcome now row))
    | _ => none
  | .sendFailed w failure now => s.advance w fun worker =>
    match worker.phase with
    | .sending row => some (.committing .send (failedOutcome failure now row))
    | _ => none
  | .commit w result =>
    let s' := s.advance w (s.afterCommit w result)
    if result.effective then { s' with row := (s.write w).getD s.row } else s'
  | .relock w => s.advance w s.afterRelock
  | .relockFailed w => s.advance w fun worker =>
    match worker.phase with
    | .recovering (attempts + 1) outcome => some (.recovering attempts outcome)
    | _ => none
  | .rollback w => s.advance w fun _ => some .finished

end DeliveryState

/-! ## Outcomes -/

/-- An outcome is terminal; an attempt at delivery counts, the rejection of the content does not. -/
structure OutcomeOf (claimed outcome : Notification Body) : Prop where
  body : outcome.body = claimed.body
  terminal : outcome.status ≠ .pending
  attempt : deliverable claimed.body = true → outcome.attemptCount = claimed.attemptCount + 1
  rejected : deliverable claimed.body = false → outcome.attemptCount = claimed.attemptCount ∧
    outcome.status = .failed ∧ outcome.nextRetryAt = none

variable {deliverable window}

theorem OutcomeOf.attempts_le {claimed outcome : Notification Body}
    (h : OutcomeOf deliverable claimed outcome) : claimed.attemptCount ≤ outcome.attemptCount := by
  cases hd : deliverable claimed.body with
  | true => exact (h.attempt hd).symm ▸ Nat.le_succ _
  | false => exact (h.rejected hd).1.ge

/-- The outcome of a claim is the outcome of every row with the same baseline and body. -/
theorem OutcomeOf.of_baseline {claimed row outcome : Notification Body}
    (h : OutcomeOf deliverable claimed outcome) (hbody : claimed.body = row.body)
    (hbaseline : row.baseline = claimed.baseline) : OutcomeOf deliverable row outcome := by
  simp only [Notification.baseline, Prod.mk.injEq] at hbaseline
  refine ⟨h.body.trans hbody, h.terminal, fun hd => ?_, fun hd => ?_⟩
  · rw [hbaseline.2.1]
    exact h.attempt (hbody ▸ hd)
  · rw [hbaseline.2.1]
    exact h.rejected (hbody ▸ hd)

/-- A row that a rejection of its content changes. -/
def Rejectable (deliverable : Body → Bool) (claimed : Notification Body) : Prop :=
  deliverable claimed.body = false → claimed.status = .pending ∨ claimed.nextRetryAt ≠ none

/-- What holds of a worker in a phase, with the durable row as it is. -/
def DeliveryPhase.Sound (deliverable : Body → Bool) (row claimed : Notification Body) :
    DeliveryPhase Body → Prop
  | sending prepared => row = claimed ∧ claimed.status ≠ .sent ∧ deliverable claimed.body = true ∧
      prepared.body = claimed.body ∧ prepared.attemptCount = claimed.attemptCount + 1
  | committing source outcome => row = claimed ∧ claimed.status ≠ .sent ∧
      OutcomeOf deliverable claimed outcome ∧
      (source ≠ .retryCheck → Rejectable deliverable claimed)
  | recovering _ outcome => claimed.status ≠ .sent ∧ OutcomeOf deliverable claimed outcome ∧
      Rejectable deliverable claimed
  | rewriting _ persisted outcome => row = persisted ∧ persisted.baseline = claimed.baseline ∧
      claimed.status ≠ .sent ∧ OutcomeOf deliverable claimed outcome ∧
      Rejectable deliverable claimed
  | finished => True

theorem outcomeOf_invalidContent {row row' : Notification Body} (message : String)
    (hd : deliverable row.body = false) (hbody : row'.body = row.body)
    (hattempts : row'.attemptCount = row.attemptCount) :
    OutcomeOf deliverable row (invalidContent row' message) :=
  ⟨hbody, nofun, fun h => absurd (hd.symm.trans h) nofun, fun _ => ⟨hattempts, rfl, rfl⟩⟩

/-- Both ends of `dispatch`: the content check and the start of an attempt. -/
theorem deliver_sound {row : Notification Body} (prepared : Notification Body) (message : String)
    (hsent : row.status ≠ .sent) (hrejectable : Rejectable deliverable row)
    (hbody : prepared.body = row.body) (hattempts : prepared.attemptCount = row.attemptCount) :
    (if (!deliverable prepared.body) = true then
        DeliveryClaim.outcome (invalidContent prepared message)
      else deliverExisting prepared).phase.Sound deliverable row row := by
  split
  · next hd =>
    have hd : deliverable row.body = false := by simpa [hbody] using hd
    exact ⟨rfl, hsent, outcomeOf_invalidContent message hd hbody hattempts, fun _ => hrejectable⟩
  · next hd =>
    have hd : deliverable row.body = true := by simpa [hbody] using hd
    exact ⟨rfl, hsent, hd, hbody, congrArg (· + 1) hattempts⟩

theorem dispatch_sound (recover : Bool) (now : ℤ) (row : Notification Body) :
    (dispatch deliverable window recover now row).phase.Sound deliverable row row := by
  unfold dispatch
  dsimp only
  split
  · trivial
  · next heligible =>
    cases recover with
    | false =>
      simp only [Bool.false_eq_true, if_false]
      split
      · trivial
      · next hpending =>
        have hpending : row.status = .pending := not_not.mp hpending
        exact deliver_sound row _ (by rw [hpending]; nofun) (fun _ => .inl hpending) rfl rfl
    | true =>
      simp only [if_true, ne_eq, not_true, if_false]
      -- the row is due for a retry or an old pending one
      obtain ⟨hfailed, hdue, -⟩ | ⟨hpending, -⟩ := not_not.mp fun h => heligible ⟨rfl, h⟩
      · refine deliver_sound { row with status := .pending } _ (by rw [hfailed]; nofun)
          (fun _ => .inr fun hnone => ?_) rfl rfl
        rw [hnone] at hdue
        cases hdue
      · exact deliver_sound { row with status := .pending } _ (by rw [hpending]; nofun)
          (fun _ => .inl hpending) rfl rfl

theorem retry_sound (now : ℤ) (row : Notification Body) :
    (retry deliverable window now row).phase.Sound deliverable row row := by
  unfold retry
  split
  · trivial
  · next hsent =>
    split
    · trivial
    · split
      · next hd =>
        exact ⟨rfl, hsent, outcomeOf_invalidContent _ (by simpa using hd) rfl rfl,
          fun h => absurd rfl h⟩
      · next hd => exact ⟨rfl, hsent, by simpa using hd, rfl, rfl⟩

/-- A claim survives a write of another worker. -/
structure DeliveryWorker.Sound (deliverable : Body → Bool) (row : Notification Body)
    (worker : DeliveryWorker Body) : Prop where
  body : worker.claimed.body = row.body
  attempts : worker.claimed.attemptCount ≤ row.attemptCount
  unchanged : row.status = .pending → worker.claimed = row
  phase : worker.phase.Sound deliverable row worker.claimed

theorem DeliveryWorker.Sound.of_write {row row' : Notification Body} {worker : DeliveryWorker Body}
    (h : worker.Sound deliverable row) (hwrite : OutcomeOf deliverable row row')
    (hlock : worker.phase.locked = false) : worker.Sound deliverable row' := by
  refine ⟨h.body.trans hwrite.body.symm, h.attempts.trans hwrite.attempts_le,
    fun hpending => absurd hpending hwrite.terminal, ?_⟩
  have hphase := h.phase
  cases hp : worker.phase with
  | recovering attempts outcome => rw [hp] at hphase; exact hphase
  | finished => trivial
  | _ => rw [hp] at hlock; cases hlock

namespace DeliveryState

variable {s : DeliveryState Body}

/-- A worker after a step of `w`. -/
theorem of_advance {w v : ℕ} {f : DeliveryWorker Body → Option (DeliveryPhase Body)}
    {worker' : DeliveryWorker Body} (h : (s.advance w f).workers.get? v = some worker') :
    ∃ worker, s.workers.get? v = some worker ∧
      (worker' = worker ∨ v = w ∧ ∃ phase, f worker = some phase ∧
        worker' = { worker with phase }) := by
  obtain ⟨worker, hworker, heq | ⟨hv, hf⟩⟩ := Table.of_get?_update h
  · exact ⟨worker, hworker, .inl heq⟩
  · obtain ⟨phase, hphase, rfl⟩ := Option.map_eq_some_iff.mp hf
    exact ⟨worker, hworker, .inr ⟨hv, phase, hphase, rfl⟩⟩

structure Sound (deliverable : Body → Bool) (s : DeliveryState Body) : Prop where
  workers : ∀ w worker, s.workers.get? w = some worker → worker.Sound deliverable s.row
  locks : ∀ v w a b, s.workers.get? v = some a → s.workers.get? w = some b →
    a.phase.locked = true → b.phase.locked = true → v = w

/-- What a commit makes durable is an outcome of the row as it was. -/
theorem Sound.write (hs : s.Sound deliverable) {w : ℕ} {row' : Notification Body}
    (h : s.write w = some row') :
    s.row.status ≠ .sent ∧ OutcomeOf deliverable s.row row' ∧
      ∃ worker, s.workers.get? w = some worker ∧ worker.phase.locked = true := by
  unfold DeliveryState.write at h
  split at h
  · next worker hworker =>
    have hsound := (hs.workers w worker hworker).phase
    cases hp : worker.phase with
    | committing source outcome =>
      rw [hp] at h hsound
      obtain ⟨hrow, hsent, houtcome, -⟩ := hsound
      cases h
      rw [hrow]
      exact ⟨hsent, houtcome, worker, hworker, by rw [hp]; rfl⟩
    | rewriting attempts persisted outcome =>
      rw [hp] at h hsound
      obtain ⟨hrow, hbaseline, hsent, houtcome, -⟩ := hsound
      dsimp only [rewrite] at h
      split at h
      · cases h
        have hbody := (hs.workers w worker hworker).body
        rw [← hrow] at hbaseline
        have hresult := houtcome.of_baseline hbody hbaseline
        refine ⟨fun hr => hsent ?_, ⟨hresult.1, hresult.2, hresult.3, hresult.4⟩, worker, hworker,
          by rw [hp]; rfl⟩
        exact (congrArg Prod.fst hbaseline).symm.trans hr
      · cases h
    | _ => rw [hp] at h; cases h
  · cases h

/-- A worker moves to a phase that is sound, and takes the row lock only when it is free. -/
theorem Sound.advance (hs : s.Sound deliverable) {w : ℕ}
    {f : DeliveryWorker Body → Option (DeliveryPhase Body)}
    (hf : ∀ worker phase, s.workers.get? w = some worker → f worker = some phase →
      phase.Sound deliverable s.row worker.claimed ∧
        (phase.locked = true → worker.phase.locked = true ∨ s.LockFree)) :
    (s.advance w f).Sound deliverable := by
  constructor
  · intro v worker' hv
    obtain ⟨worker, hworker, rfl | ⟨rfl, phase, hphase, rfl⟩⟩ := of_advance hv
    · exact hs.workers v worker' hworker
    · have hsound := hs.workers v worker hworker
      exact ⟨hsound.body, hsound.attempts, hsound.unchanged, (hf worker phase hworker hphase).1⟩
  · -- the holder of the lock held it before, or nobody did
    have hheld : ∀ v a, (s.advance w f).workers.get? v = some a → a.phase.locked = true →
        (∃ worker, s.workers.get? v = some worker ∧ worker.phase.locked = true) ∨
          v = w ∧ s.LockFree := by
      intro v a hv ha
      obtain ⟨worker, hworker, rfl | ⟨rfl, phase, hphase, rfl⟩⟩ := of_advance hv
      · exact .inl ⟨a, hworker, ha⟩
      · obtain hlock | hfree := (hf worker phase hworker hphase).2 ha
        · exact .inl ⟨worker, hworker, hlock⟩
        · exact .inr ⟨rfl, hfree⟩
    intro v v' a b hv hv' ha hb
    obtain ⟨x, hx, hxlock⟩ | ⟨rfl, hfree⟩ := hheld v a hv ha <;>
      obtain ⟨y, hy, hylock⟩ | ⟨rfl, hfree'⟩ := hheld v' b hv' hb
    · exact hs.locks v v' x y hx hy hxlock hylock
    · exact absurd (hfree' _ (Table.get?_eq_some.mp hx)) (by rw [hxlock]; nofun)
    · exact absurd (hfree _ (Table.get?_eq_some.mp hy)) (by rw [hylock]; nofun)
    · rfl

theorem Sound.claim (hs : s.Sound deliverable) {w : ℕ} {phase : DeliveryPhase Body}
    (hfree : s.LockFree) (hphase : phase.Sound deliverable s.row s.row) :
    { s with workers := s.workers.insert w { claimed := s.row, phase } }.Sound deliverable := by
  have hunlocked : ∀ v a, s.workers.get? v = some a → a.phase.locked = false :=
    fun v a h => hfree _ (Table.get?_eq_some.mp h)
  constructor
  · intro v worker hv
    rw [Table.get?_insert] at hv
    split at hv
    · cases hv
      exact ⟨rfl, le_rfl, fun _ => rfl, hphase⟩
    · exact hs.workers v worker hv
  · intro v v' a b hv hv' ha hb
    rw [Table.get?_insert] at hv hv'
    split at hv <;> split at hv'
    · next h h' => exact h.trans h'.symm
    · exact absurd ((hunlocked v' b hv').symm.trans hb) nofun
    · exact absurd ((hunlocked v a hv).symm.trans ha) nofun
    · exact absurd ((hunlocked v a hv).symm.trans ha) nofun

variable (deliverable) in
/-- After a commit the worker has no lock, and may recover. -/
theorem afterCommit_sound {w : ℕ} {result : CommitResult} {worker : DeliveryWorker Body}
    {phase : DeliveryPhase Body} (h : s.afterCommit w result worker = some phase) :
    phase.locked = false ∧ ∀ row, worker.phase.Sound deliverable row worker.claimed →
      ∀ row', phase.Sound deliverable row' worker.claimed := by
  unfold afterCommit at h
  split at h
  · next source outcome hp =>
    rw [hp]
    split at h <;> cases h
    · exact ⟨rfl, fun _ _ _ => trivial⟩
    · next hrecover =>
      refine ⟨rfl, fun row hsound _ => ?_⟩
      obtain ⟨-, hsent, houtcome, hrejectable⟩ := hsound
      exact ⟨hsent, houtcome, hrejectable fun hsource => hrecover (.inr hsource)⟩
  · next attempts persisted outcome hp =>
    rw [hp]
    split at h <;> cases h
    · exact ⟨rfl, fun _ _ _ => trivial⟩
    · refine ⟨rfl, fun row hsound _ => ?_⟩
      obtain ⟨-, -, hsent, houtcome, hrejectable⟩ := hsound
      exact ⟨hsent, houtcome, hrejectable⟩
  · cases h

/-- A worker with something to write is at a commit. -/
theorem afterCommit_isSome {w : ℕ} {row' : Notification Body} (result : CommitResult)
    (h : s.write w = some row') :
    ∃ worker phase, s.workers.get? w = some worker ∧ worker.phase.locked = true ∧
      s.afterCommit w result worker = some phase := by
  unfold DeliveryState.write at h
  split at h
  · next worker hworker =>
    cases hp : worker.phase with
    | committing source outcome =>
      refine ⟨worker, if result = .ok ∨ source = .retryCheck then .finished else
        .recovering notificationCommitRecoveryAttempts outcome, hworker, by rw [hp]; rfl, ?_⟩
      simp only [afterCommit, hp]
      split <;> rfl
    | rewriting attempts persisted outcome =>
      refine ⟨worker, if result = .ok ∧ (s.write w).isSome then .finished else
        .recovering attempts outcome, hworker, by rw [hp]; rfl, ?_⟩
      simp only [afterCommit, hp]
      split <;> rfl
    | _ => rw [hp] at h; cases h
  · cases h

theorem Sound.commit (hs : s.Sound deliverable) (w : ℕ) (result : CommitResult) :
    (s.advance w (s.afterCommit w result)).Sound deliverable := by
  refine hs.advance fun worker phase hworker hphase => ?_
  obtain ⟨hlock, hsound⟩ := afterCommit_sound deliverable hphase
  exact ⟨hsound _ (hs.workers w worker hworker).phase _,
    fun h => absurd (hlock.symm.trans h) nofun⟩

/-- Nobody holds the lock after the commit of an outcome. -/
theorem Sound.unlocked (hs : s.Sound deliverable) {w : ℕ} {row' : Notification Body}
    (hwrite : s.write w = some row') (result : CommitResult) {v : ℕ}
    {worker : DeliveryWorker Body}
    (hv : (s.advance w (s.afterCommit w result)).workers.get? v = some worker) :
    worker.phase.locked = false := by
  obtain ⟨holder, next, hholder, hlock, hnext⟩ := afterCommit_isSome result hwrite
  obtain ⟨old, hold, rfl | ⟨rfl, phase, hphase, rfl⟩⟩ := of_advance hv
  · by_contra hworker
    have heq := hs.locks v w worker holder hold hholder (by simpa using hworker) hlock
    subst heq
    -- the holder itself has moved on
    rw [DeliveryState.advance, Table.get?_update, hold] at hv
    cases hold.symm.trans hholder
    simp only [Option.map_some, if_true, hnext, Option.getD_some, Option.some.injEq] at hv
    have hfree := (afterCommit_sound deliverable hnext).1
    exact hworker (hv ▸ hfree)
  · exact (afterCommit_sound deliverable hphase).1

/-- The phase after a relock, and what it says of the row. -/
theorem Sound.relock (hs : s.Sound deliverable) (w : ℕ) :
    (s.advance w s.afterRelock).Sound deliverable := by
  refine hs.advance fun worker phase hworker hphase => ?_
  have hsound := hs.workers w worker hworker
  have hrecovering := hsound.phase
  unfold afterRelock at hphase
  split at hphase
  · cases hphase
    exact ⟨trivial, fun h => absurd h nofun⟩
  · next attempts outcome hp =>
    rw [hp] at hrecovering
    obtain ⟨hsent, houtcome, hrejectable⟩ := hrecovering
    split at hphase
    · next hfree =>
      split at hphase
      · cases hphase
        exact ⟨trivial, fun h => absurd h nofun⟩
      · next hkept =>
        cases hphase
        refine ⟨⟨rfl, ?_, hsent, houtcome, hrejectable⟩, fun _ => .inr hfree⟩
        by_cases hpending : s.row.status = .pending
        · rw [hsound.unchanged hpending]
        · exact not_not.mp fun hne => hkept ⟨hpending, hne⟩
    · cases hphase
  · cases hphase

variable (window) in
theorem Sound.step (hs : s.Sound deliverable) (a : DeliveryAction) :
    (s.step deliverable window a).Sound deliverable := by
  cases a with
  | claim w entry now =>
    unfold DeliveryState.step
    dsimp only
    split
    · exact hs
    · next hnew =>
      have hfree : s.LockFree := not_not.mp fun h => hnew (.inr h)
      cases entry with
      | dispatch recover => exact hs.claim hfree (dispatch_sound recover now s.row)
      | retry => exact hs.claim hfree (retry_sound now s.row)
  | sendOk w now =>
    refine hs.advance fun worker phase hworker hphase => ?_
    have hsound := (hs.workers w worker hworker).phase
    split at hphase
    · next row hp =>
      cases hphase
      rw [hp] at hsound ⊢
      obtain ⟨hrow, hsent, hd, hbody, hattempts⟩ := hsound
      exact ⟨⟨hrow, hsent, ⟨hbody, nofun, fun _ => hattempts,
        fun h => absurd (hd.symm.trans h) nofun⟩, fun _ h => absurd (hd.symm.trans h) nofun⟩,
        fun _ => .inl rfl⟩
    · cases hphase
  | sendFailed w failure now =>
    refine hs.advance fun worker phase hworker hphase => ?_
    have hsound := (hs.workers w worker hworker).phase
    split at hphase
    · next row hp =>
      cases hphase
      rw [hp] at hsound ⊢
      obtain ⟨hrow, hsent, hd, hbody, hattempts⟩ := hsound
      exact ⟨⟨hrow, hsent, ⟨hbody, nofun, fun _ => hattempts,
        fun h => absurd (hd.symm.trans h) nofun⟩, fun _ h => absurd (hd.symm.trans h) nofun⟩,
        fun _ => .inl rfl⟩
    · cases hphase
  | commit w result =>
    have hcommit := hs.commit w result
    rw [DeliveryState.step]
    split
    · cases hwrite : s.write w with
      | none => exact hcommit
      | some row' =>
        have houtcome := (hs.write hwrite).2.1
        refine ⟨fun v worker hv => ?_, hcommit.locks⟩
        exact (hcommit.workers v worker hv).of_write houtcome (hs.unlocked hwrite result hv)
    · exact hcommit
  | relock w => exact hs.relock w
  | relockFailed w =>
    refine hs.advance fun worker phase hworker hphase => ?_
    have hsound := (hs.workers w worker hworker).phase
    split at hphase
    · next attempts outcome hp =>
      cases hphase
      rw [hp] at hsound
      exact ⟨hsound, fun h => absurd h nofun⟩
    · cases hphase
  | rollback w =>
    refine hs.advance fun worker phase _ hphase => ?_
    cases hphase
    exact ⟨trivial, fun h => absurd h nofun⟩

theorem Sound.initial (row : Notification Body) : (initial row).Sound deliverable :=
  ⟨fun _ _ h => absurd h nofun, fun _ _ _ _ h => absurd h nofun⟩

variable (window) in
theorem Sound.step_run (hs : s.Sound deliverable) (actions : List DeliveryAction) :
    (run (DeliveryState.step deliverable window) s actions).Sound deliverable :=
  run_preserves (Sound deliverable) (fun _ a h => h.step window a) hs actions

/-! ## What a run does to the row -/

/-- The worker whose outcome the step makes durable. -/
def committer (s : DeliveryState Body) : DeliveryAction → Option ℕ
  | .commit w result => if result.effective ∧ (s.write w).isSome then some w else none
  | _ => none

variable (deliverable window) in
/-- A step changes the row only when it commits an outcome. -/
theorem step_row (s : DeliveryState Body) (a : DeliveryAction) :
    (s.step deliverable window a).row = s.row ∨
      ∃ w row', s.committer a = some w ∧ s.write w = some row' ∧
        (s.step deliverable window a).row = row' := by
  cases a with
  | claim w entry now =>
    unfold DeliveryState.step
    dsimp only
    split <;> exact .inl rfl
  | commit w result =>
    rw [DeliveryState.step]
    split
    · next heffective =>
      cases hwrite : s.write w with
      | none => exact .inl rfl
      | some row' =>
        exact .inr ⟨w, row', if_pos ⟨heffective, by rw [hwrite]; rfl⟩, hwrite, rfl⟩
    · exact .inl rfl
  | _ => exact .inl rfl

theorem of_committer {a : DeliveryAction} {w : ℕ} (h : s.committer a = some w) :
    ∃ result row', a = .commit w result ∧ result.effective = true ∧ s.write w = some row' := by
  unfold committer at h
  split at h
  · next v result =>
    split at h
    · next hwrite =>
      cases h
      obtain ⟨row', hrow'⟩ := Option.isSome_iff_exists.mp hwrite.2
      exact ⟨result, row', rfl, hwrite.1, hrow'⟩
    · cases h
  · cases h

theorem Sound.sent_step (hs : s.Sound deliverable) (hsent : s.row.status = .sent)
    (a : DeliveryAction) : (s.step deliverable window a).row = s.row := by
  obtain hrow | ⟨w, row', -, hwrite, -⟩ := step_row deliverable window s a
  · exact hrow
  · exact absurd hsent (hs.write hwrite).1

/-- Once the row is SENT, it is never written again. -/
theorem Sound.sent_run (hs : s.Sound deliverable) (hsent : s.row.status = .sent)
    (actions : List DeliveryAction) :
    (run (DeliveryState.step deliverable window) s actions).row = s.row := by
  have hinv := @run_preserves _ _ (DeliveryState.step deliverable window)
    (fun s' => s'.Sound deliverable ∧ s'.row = s.row)
    (fun s' a h => ⟨h.1.step window a, (h.1.sent_step (by rw [h.2, hsent]) a).trans h.2⟩)
    s ⟨hs, rfl⟩ actions
  exact hinv.2

theorem Sound.attemptCount_step (hs : s.Sound deliverable) (a : DeliveryAction) :
    s.row.attemptCount ≤ (s.step deliverable window a).row.attemptCount := by
  obtain hrow | ⟨w, row', -, hwrite, hrow⟩ := step_row deliverable window s a
  · exact (congrArg Notification.attemptCount hrow).ge
  · rw [hrow]
    exact (hs.write hwrite).2.1.attempts_le

theorem Sound.attemptCount_run (hs : s.Sound deliverable) (actions : List DeliveryAction) :
    s.row.attemptCount ≤
      (run (DeliveryState.step deliverable window) s actions).row.attemptCount := by
  have hinv := @run_preserves _ _ (DeliveryState.step deliverable window)
    (fun s' => s'.Sound deliverable ∧ s.row.attemptCount ≤ s'.row.attemptCount)
    (fun s' a h => ⟨h.1.step window a, h.2.trans (h.1.attemptCount_step a)⟩) s ⟨hs, le_rfl⟩
    actions
  exact hinv.2

/-! ## Overtaken workers -/

/-- Another worker has committed its outcome since the worker claimed the row. -/
def Overtaken (deliverable : Body → Bool) (w : ℕ) (s : DeliveryState Body) : Prop :=
  ∃ worker, s.workers.get? w = some worker ∧ worker.phase.locked = false ∧
    s.row.status ≠ .pending ∧
    (deliverable worker.claimed.body = true →
      worker.claimed.attemptCount < s.row.attemptCount) ∧
    (deliverable worker.claimed.body = false →
      s.row.status = .failed ∧ s.row.nextRetryAt = none)

/-- The recovery of an overtaken worker leaves the row alone: its claim is not the row it reads. -/
theorem Overtaken.baseline_ne {row claimed : Notification Body}
    (hattempts : deliverable claimed.body = true → claimed.attemptCount < row.attemptCount)
    (hrejected : deliverable claimed.body = false →
      row.status = .failed ∧ row.nextRetryAt = none)
    (hrejectable : Rejectable deliverable claimed) : row.baseline ≠ claimed.baseline := by
  intro heq
  simp only [Notification.baseline, Prod.mk.injEq] at heq
  obtain ⟨hstatus, hcount, -, hretry⟩ := heq
  cases hd : deliverable claimed.body with
  | true => exact absurd hcount (hattempts hd).ne'
  | false =>
    obtain ⟨hfailed, hnone⟩ := hrejected hd
    obtain hpending | hdue := hrejectable hd
    · exact absurd (hstatus.symm.trans hfailed) (by rw [hpending]; nofun)
    · exact hdue (hretry.symm.trans hnone)

theorem get?_advance {w v : ℕ} (f : DeliveryWorker Body → Option (DeliveryPhase Body))
    {worker : DeliveryWorker Body} (h : s.workers.get? v = some worker) :
    (s.advance w f).workers.get? v = some worker ∨ v = w ∧ ∃ phase, f worker = some phase ∧
      (s.advance w f).workers.get? v = some { worker with phase } := by
  rw [advance, Table.get?_update, h, Option.map_some]
  split
  · next hv =>
    cases hf : f worker with
    | none => exact .inl rfl
    | some phase => exact .inr ⟨hv, phase, rfl, rfl⟩
  · exact .inl rfl

theorem get?_claim {w v : ℕ} {entry : DeliveryEntry} {now : ℤ} {worker : DeliveryWorker Body}
    (h : s.workers.get? v = some worker) :
    (s.step deliverable window (.claim w entry now)).workers.get? v = some worker := by
  unfold DeliveryState.step
  dsimp only
  split
  · exact h
  · next hnew =>
    have hne : v ≠ w := by
      rintro rfl
      exact hnew (.inl (Table.mem_keys.mpr ⟨worker, h⟩))
    rw [Table.get?_insert_of_ne hne, h]

/-- A worker without the lock stays without it, unless its step takes it. -/
theorem unlocked_advance {w v : ℕ} {f : DeliveryWorker Body → Option (DeliveryPhase Body)}
    {worker : DeliveryWorker Body} (h : s.workers.get? v = some worker)
    (hlock : worker.phase.locked = false)
    (hf : v = w → ∀ phase, f worker = some phase → phase.locked = false) :
    ∃ phase, (s.advance w f).workers.get? v = some { worker with phase } ∧
      phase.locked = false := by
  obtain hsame | ⟨hv, phase, hphase, hnext⟩ := get?_advance f h
  · exact ⟨worker.phase, hsame, hlock⟩
  · exact ⟨phase, hnext, hf hv phase hphase⟩

variable (window) in
/-- An overtaken worker does not take the lock again: its recovery gives up. -/
theorem Overtaken.unlocked_step (hs : s.Sound deliverable) {w : ℕ} {worker : DeliveryWorker Body}
    (h : s.workers.get? w = some worker) (hlock : worker.phase.locked = false)
    (hterminal : s.row.status ≠ .pending)
    (hattempts : deliverable worker.claimed.body = true →
      worker.claimed.attemptCount < s.row.attemptCount)
    (hrejected : deliverable worker.claimed.body = false →
      s.row.status = .failed ∧ s.row.nextRetryAt = none) (a : DeliveryAction) :
    ∃ phase, (s.step deliverable window a).workers.get? w = some { worker with phase } ∧
      phase.locked = false := by
  have hsound := (hs.workers w worker h).phase
  cases a with
  | claim v entry now => exact ⟨worker.phase, get?_claim h, hlock⟩
  | sendOk v now =>
    refine unlocked_advance h hlock fun _ phase hphase => ?_
    split at hphase
    · next row hp => exact absurd hlock (by rw [hp]; nofun)
    · cases hphase
  | sendFailed v failure now =>
    refine unlocked_advance h hlock fun _ phase hphase => ?_
    split at hphase
    · next row hp => exact absurd hlock (by rw [hp]; nofun)
    · cases hphase
  | commit v result =>
    have hcommit := unlocked_advance (w := v) (f := s.afterCommit v result) h hlock
      fun _ phase hphase => (afterCommit_sound deliverable hphase).1
    unfold DeliveryState.step
    dsimp only
    split <;> exact hcommit
  | relock v =>
    refine unlocked_advance h hlock fun _ phase hphase => ?_
    unfold afterRelock at hphase
    split at hphase
    · cases hphase
      rfl
    · next attempts outcome hp =>
      rw [hp] at hsound
      have hne := Overtaken.baseline_ne hattempts hrejected hsound.2.2
      rw [if_pos (And.intro hterminal hne)] at hphase
      split at hphase
      · cases hphase
        rfl
      · cases hphase
    · cases hphase
  | relockFailed v =>
    refine unlocked_advance h hlock fun _ phase hphase => ?_
    split at hphase
    · cases hphase
      rfl
    · cases hphase
  | rollback v =>
    refine unlocked_advance h hlock fun _ phase hphase => ?_
    cases hphase
    rfl

theorem Overtaken.step (hs : s.Sound deliverable) {w : ℕ} (h : s.Overtaken deliverable w)
    (a : DeliveryAction) : (s.step deliverable window a).Overtaken deliverable w := by
  obtain ⟨worker, hworker, hlock, hterminal, hattempts, hrejected⟩ := h
  obtain ⟨phase, hnext, hunlocked⟩ :=
    Overtaken.unlocked_step window hs hworker hlock hterminal hattempts hrejected a
  refine ⟨{ worker with phase }, hnext, hunlocked, ?_⟩
  obtain hrow | ⟨v, row', -, hwrite, hrow⟩ := step_row deliverable window s a
  · rw [hrow]
    exact ⟨hterminal, hattempts, hrejected⟩
  · have houtcome := (hs.write hwrite).2.1
    have hbody := (hs.workers w worker hworker).body
    rw [hrow]
    exact ⟨houtcome.terminal, fun hd => (hattempts hd).trans_le houtcome.attempts_le,
      fun hd => (houtcome.rejected (hbody ▸ hd)).2⟩

/-- Every worker but the one that commits is overtaken. -/
theorem Sound.overtaken (hs : s.Sound deliverable) {a : DeliveryAction} {w w' : ℕ}
    (hw : w ∈ s.workers.keys) (hne : w' ≠ w) (hcommit : s.committer a = some w') :
    (s.step deliverable window a).Overtaken deliverable w := by
  obtain ⟨worker, hworker⟩ := Table.mem_keys.mp hw
  obtain ⟨result, row', rfl, heffective, hwrite⟩ := of_committer hcommit
  obtain ⟨-, houtcome, holder, hholder, hlock⟩ := hs.write hwrite
  have hsound := hs.workers w worker hworker
  have hunlocked : worker.phase.locked = false := by
    by_contra hlock'
    exact hne (hs.locks w w' worker holder hworker hholder (by simpa using hlock') hlock).symm
  obtain ⟨phase, hnext, hphase⟩ := unlocked_advance (w := w') (f := s.afterCommit w' result)
    hworker hunlocked fun h => absurd h.symm hne
  have hstep : s.step deliverable window (.commit w' result) =
      { s.advance w' (s.afterCommit w' result) with row := row' } := by
    rw [DeliveryState.step, if_pos heffective, hwrite, Option.getD_some]
  rw [hstep]
  refine ⟨{ worker with phase }, hnext, hphase, houtcome.terminal, fun hd => ?_, fun hd => ?_⟩
  · have hattempt := houtcome.attempt (hsound.body ▸ hd)
    exact hattempt ▸ Nat.lt_succ_of_le hsound.attempts
  · exact (houtcome.rejected (hsound.body ▸ hd)).2

/-- A worker without the lock has nothing to write. -/
theorem Overtaken.committer_ne {w : ℕ} (h : s.Overtaken deliverable w) (a : DeliveryAction) :
    s.committer a ≠ some w := by
  intro hcommit
  obtain ⟨worker, hworker, hlock, -⟩ := h
  obtain ⟨result, row', -, -, hwrite⟩ := of_committer hcommit
  obtain ⟨holder, phase, hholder, hheld, -⟩ := afterCommit_isSome result hwrite
  cases hworker.symm.trans hholder
  exact absurd (hlock.symm.trans hheld) nofun

/-! ## Provider sends -/

/-- A send that the provider accepts. -/
def sends (s : DeliveryState Body) : DeliveryAction → Bool
  | .sendOk w _ =>
    match s.workers.get? w with
    | some ⟨_, .sending _⟩ => true
    | _ => false
  | _ => false

/-- The worker is at the commit after a send. -/
def committingSend (s : DeliveryState Body) (w : ℕ) : Bool :=
  match s.workers.get? w with
  | some ⟨_, .committing .send _⟩ => true
  | _ => false

/-- No transaction is rolled back, and no commit fails after a send. -/
def Undisturbed (s : DeliveryState Body) : DeliveryAction → Prop
  | .rollback _ => False
  | .commit w result => s.committingSend w = true → result = .ok
  | _ => True

instance (s : DeliveryState Body) (a : DeliveryAction) : Decidable (s.Undisturbed a) :=
  match a with
  | .rollback _ => .isFalse id
  | .commit w result => inferInstanceAs (Decidable (s.committingSend w = true → result = .ok))
  | .claim .. | .sendOk .. | .sendFailed .. | .relock _ | .relockFailed _ => .isTrue trivial

/-- The message has been sent, and the row says so or is about to. -/
def Delivered (s : DeliveryState Body) : Prop :=
  s.row.status = .sent ∨ ∃ w worker outcome, s.workers.get? w = some worker ∧
    worker.phase = .committing .send outcome ∧ outcome.status = .sent

theorem Sound.delivered_step (hs : s.Sound deliverable) (h : s.Delivered) {a : DeliveryAction}
    (ha : s.Undisturbed a) : (s.step deliverable window a).Delivered := by
  obtain hsent | ⟨w, worker, outcome, hworker, hp, hsent⟩ := h
  · exact .inl ((congrArg Notification.status (hs.sent_step hsent a)).trans hsent)
  · -- only its own commit moves the worker on
    have hkeep : ∀ {s' : DeliveryState Body}, s'.workers.get? w = some worker → s'.Delivered :=
      fun h => .inr ⟨w, worker, outcome, h, hp, hsent⟩
    have hadvance : ∀ {v : ℕ} {f : DeliveryWorker Body → Option (DeliveryPhase Body)},
        f worker = none → (s.advance v f).Delivered := by
      intro v f hf
      obtain hsame | ⟨-, phase, hphase, -⟩ := get?_advance (w := v) f hworker
      · exact hkeep hsame
      · cases hf.symm.trans hphase
    cases a with
    | claim v entry now => exact hkeep (get?_claim hworker)
    | sendOk v now => exact hadvance (by rw [hp])
    | sendFailed v failure now => exact hadvance (by rw [hp])
    | commit v result =>
      by_cases hv : v = w
      · subst hv
        have hresult : result = .ok := ha (by
          obtain ⟨claimed, phase⟩ := worker
          cases hp
          rw [committingSend, hworker])
        have hwrite : s.write v = some outcome := by
          rw [DeliveryState.write, hworker]
          dsimp only
          rw [hp]
        rw [hresult, DeliveryState.step, hwrite]
        exact .inl hsent
      · obtain hsame | ⟨heq, -⟩ := get?_advance (w := v) (s.afterCommit v result) hworker
        · rw [DeliveryState.step]
          split <;> exact hkeep hsame
        · exact absurd heq.symm hv
    | relock v => exact hadvance (by rw [afterRelock, hp])
    | relockFailed v => exact hadvance (by rw [hp])
    | rollback v => exact ha.elim

theorem of_sends {a : DeliveryAction} (h : s.sends a = true) :
    ∃ w now claimed row, a = .sendOk w now ∧ s.workers.get? w = some ⟨claimed, .sending row⟩ := by
  unfold sends at h
  split at h
  · next w now =>
    split at h
    · next claimed row hworker => exact ⟨w, now, claimed, row, rfl, hworker⟩
    · cases h
  · cases h

/-- A worker that sends has the lock, and the row is not SENT. -/
theorem Sound.not_delivered (hs : s.Sound deliverable) {a : DeliveryAction}
    (h : s.sends a = true) : ¬ s.Delivered := by
  obtain ⟨w, now, claimed, row, rfl, hworker⟩ := of_sends h
  rintro (hsent | ⟨v, holder, outcome, hholder, hp, -⟩)
  · obtain ⟨hrow, hclaimed, -⟩ := (hs.workers w _ hworker).phase
    exact hclaimed (hrow ▸ hsent)
  · have heq := hs.locks v w holder _ hholder hworker (by rw [hp]; rfl) rfl
    subst heq
    cases hworker.symm.trans hholder
    cases hp

theorem delivered_of_sends {a : DeliveryAction} (h : s.sends a = true) :
    (s.step deliverable window a).Delivered := by
  obtain ⟨w, now, claimed, row, rfl, hworker⟩ := of_sends h
  refine .inr ⟨w, ⟨claimed, .committing .send (sentOutcome now row)⟩, sentOutcome now row, ?_, rfl,
    rfl⟩
  rw [DeliveryState.step, advance, Table.get?_update, hworker]
  simp

/-- After a successful send the row is SENT or about to be, so there is no second one. -/
theorem Sound.sends_le_one (hs : s.Sound deliverable) {actions : List DeliveryAction}
    (hrun : Always (DeliveryState.step deliverable window) Undisturbed s actions) :
    countSteps (DeliveryState.step deliverable window) (fun s a => s.sends a = true) s actions ≤
      1 := by
  have hinv := countSteps_invariant (p := fun s a => s.sends a = true)
    (fun (s : DeliveryState Body) n => s.Sound deliverable ∧ n ≤ 1 ∧ (n = 1 → s.Delivered))
    (fun s a n ⟨hs, hn, hdelivered⟩ ha => ?_) (n := 0) ⟨hs, Nat.zero_le 1, nofun⟩ hrun
  · rw [Nat.zero_add] at hinv
    exact hinv.2.1
  · refine ⟨hs.step window a, ?_⟩
    by_cases hsends : s.sends a = true
    · have hzero : n = 0 := by
        have hne : n ≠ 1 := fun h => hs.not_delivered hsends (hdelivered h)
        omega
      rw [if_pos hsends, hzero]
      exact ⟨le_rfl, fun _ => delivered_of_sends hsends⟩
    · rw [if_neg hsends, Nat.add_zero]
      exact ⟨hn, fun h => hs.delivered_step (hdelivered h) ha⟩

/-- Every interleaving of the workers: a SENT row stays as it is; the attempts never decrease; a
worker writes nothing once another worker has committed an outcome after its claim; and the message
is sent at most once, unless a transaction is rolled back or a commit fails after a send. -/
theorem delivery_safe (deliverable : Body → Bool) (window : ℤ) (row : Notification Body)
    (before : List DeliveryAction) :
    let step := DeliveryState.step deliverable window
    let after := run step (initial row)
    (∀ actions, (after before).row.status = .sent →
      (after (before ++ actions)).row = (after before).row) ∧
    (∀ actions, (after before).row.attemptCount ≤ (after (before ++ actions)).row.attemptCount) ∧
    (∀ a actions w w', w ∈ (after before).workers.keys → w' ≠ w →
      (after before).committer a = some w' →
      ∀ b, (after (before ++ a :: actions)).committer b ≠ some w) ∧
    (Always step Undisturbed (initial row) before →
      countSteps step (fun s a => s.sends a = true) (initial row) before ≤ 1) := by
  intro step after
  have hs : (after before).Sound deliverable := (Sound.initial row).step_run window before
  refine ⟨fun actions hsent => ?_, fun actions => ?_, fun a actions w w' hw hne hcommit b => ?_,
    fun hrun => (Sound.initial row).sends_le_one hrun⟩
  · rw [show after (before ++ actions) = run step (after before) actions from run_append ..]
    exact hs.sent_run hsent actions
  · rw [show after (before ++ actions) = run step (after before) actions from run_append ..]
    exact hs.attemptCount_run actions
  · rw [show after (before ++ a :: actions) = run step (step (after before) a) actions from
      run_append ..]
    have hovertaken := @run_preserves _ _ step
      (fun s => s.Sound deliverable ∧ s.Overtaken deliverable w)
      (fun s a h => ⟨h.1.step window a, h.2.step h.1 a⟩)
      _ ⟨hs.step window a, hs.overtaken hw hne hcommit⟩ actions
    exact hovertaken.2.committer_ne b

/-- A first delivery whose commit is lost, and a retry that commits before it recovers. -/
theorem delivery_safe_recovered :
    let row : Notification Unit := ⟨(), none, .failed, 1, some .providerError, none, some 0, none, 0⟩
    let before : List DeliveryAction := [.claim 1 (.dispatch true) 5, .sendOk 1 6,
      .commit 1 .failedBefore, .claim 2 .retry 7, .sendOk 2 8]
    let step := DeliveryState.step (fun _ : Unit => true) 180000000
    let overtaken := run step (initial row) (before ++ .commit 2 .ok :: [.relock 1])
    overtaken.committer (.commit 1 .ok) ≠ some 1 ∧
      countSteps step (fun s a => s.sends a = true) (initial row)
        [.claim 2 .retry 7, .sendOk 2 8, .commit 2 .ok] ≤ 1 := by
  intro row before step overtaken
  obtain ⟨-, -, hcommitter, -⟩ := delivery_safe (fun _ : Unit => true) 180000000 row before
  obtain ⟨-, -, -, hcount⟩ := delivery_safe (fun _ : Unit => true) 180000000 row
    [.claim 2 .retry 7, .sendOk 2 8, .commit 2 .ok]
  exact ⟨hcommitter (.commit 2 .ok) [.relock 1] 1 2 (by decide +kernel) (by decide)
    (by decide +kernel) (.commit 1 .ok), hcount (by decide +kernel)⟩

end DeliveryState

end Service

end Apanel
