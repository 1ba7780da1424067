import Apanel.Library.Transition
import Mathlib.Data.Fintype.Basic
import Mathlib.Logic.Function.Basic

/-!
# The refresh lease in localStorage

Where the browser has no lock manager, `runWithStorageLease` (`auth-coordinator.mjs`) serialises the
refreshes of its contexts through one record in localStorage. The accesses to the storage are atomic,
and any other context may move between two of them. There is no compare-and-swap: a candidate may
be written over a lease that was taken after the storage was read, and then two tasks are in flight
(`not_refresh_exclusive`). `refresh_exclusive` says what holds of runs in which no such lease is lost.
-/

namespace Apanel

namespace Frontend

namespace StorageLease

/-- The record under `leaseKey`; a text `readLease` does not accept counts as none. -/
structure Lease (ι : Type) where
  owner : ι
  expiresAt : ℕ
  deriving DecidableEq

inductive Outcome
  | returned
  | rejected
  | leaseLost
  | aborted
  deriving DecidableEq

/-- How far the heartbeat has come; `idle` between two of them. -/
inductive Heartbeat (ι : Type)
  | idle
  | checking (latest : Option (Lease ι))
  | writing
  | verifying

/-- How far an attempt has come: each phase but the last ends with one access to the storage, or
with one look at the clock. `running` and `unwinding` have the task in flight, under a lease that
expires at the given time; `unwinding` has been aborted and keeps its record. `direct` runs its task
without a lease. -/
inductive Phase (ι : Type)
  | idle
  | reading
  | checking (current : Option (Lease ι))
  | writing (current : Option (Lease ι)) (expiresAt : ℕ)
  | confirming
  | waiting
  | running (expiresAt : ℕ) (heartbeat : Heartbeat ι)
  | unwinding (expiresAt : ℕ)
  | settled (rejected : Bool)
  | verifying (latest : Option (Lease ι))
  | releasing (outcome : Outcome)
  | removing (outcome : Outcome)
  | direct
  | done (outcome : Outcome)

/-- The storage, the clock, and the attempts of all contexts. The owner of an attempt is unique, so
it names the attempt; a context makes any number of them. -/
structure Browser (ι : Type) where
  storage : Option (Lease ι)
  now : ℕ
  attempts : ι → Phase ι

/-- `proceed` takes the next access or check of an attempt, `fail` is an access that throws, `beat`
the timer of the heartbeat, `finish` the end of the task and `abort` that of the signal. -/
inductive Action (ι : Type)
  | start (attempt : ι)
  | proceed (attempt : ι)
  | beat (attempt : ι)
  | finish (attempt : ι) (rejected : Bool)
  | abort (attempt : ι)
  | fail (attempt : ι)
  | tick (elapsed : ℕ)
  deriving DecidableEq

/-- The expiry of the lease under which the task is in flight. -/
def Phase.inFlight {ι : Type} : Phase ι → Option ℕ
  | .running expiresAt _ => some expiresAt
  | .unwinding expiresAt => some expiresAt
  | _ => none

variable {ι : Type} [DecidableEq ι] (leaseMs : ℕ)

/-! ## An attempt -/

/-- `lease?.owner === owner`. -/
def OwnedBy (attempt : ι) (lease : Option (Lease ι)) : Prop := ∃ l ∈ lease, l.owner = attempt

instance (attempt : ι) (lease : Option (Lease ι)) : Decidable (OwnedBy attempt lease) :=
  match lease with
  | none => .isFalse (by simp [OwnedBy])
  | some l => decidable_of_iff (l.owner = attempt) (by simp [OwnedBy])

/-- `!lease || lease.expiresAt <= currentTime`. -/
def Available (now : ℕ) (lease : Option (Lease ι)) : Prop := ∀ l ∈ lease, l.expiresAt ≤ now

instance (now : ℕ) (lease : Option (Lease ι)) : Decidable (Available now lease) :=
  match lease with
  | none => .isTrue (by simp [Available])
  | some l => decidable_of_iff (l.expiresAt ≤ now) (by simp [Available])

/-- The next phase of an attempt, and the storage after its access. -/
def Phase.proceed (attempt : ι) (now : ℕ) (storage : Option (Lease ι)) :
    Phase ι → Phase ι × Option (Lease ι)
  | .reading => (.checking storage, storage)
  | .checking current =>
    (if Available now current then .writing current (now + leaseMs) else .waiting, storage)
  | .writing _ expiresAt => (.confirming, some ⟨attempt, expiresAt⟩)
  | .confirming =>
    match storage with
    | some lease =>
      (if lease.owner = attempt then .running lease.expiresAt .idle else .waiting, storage)
    | none => (.waiting, storage)
  | .waiting => (.reading, storage)
  | .running expiresAt (.checking latest) =>
    (if OwnedBy attempt latest ∧ ¬Available now latest then .running expiresAt .writing
      else .unwinding expiresAt, storage)
  | .running _ .writing =>
    (.running (now + leaseMs) .verifying, some ⟨attempt, now + leaseMs⟩)
  | .running expiresAt .verifying =>
    (if OwnedBy attempt storage then .running expiresAt .idle else .unwinding expiresAt, storage)
  | .settled true => (.releasing .rejected, storage)
  | .settled false => (.verifying storage, storage)
  | .verifying latest =>
    (.releasing (if OwnedBy attempt latest ∧ ¬Available now latest then .returned else .leaseLost),
      storage)
  | .releasing outcome =>
    (if OwnedBy attempt storage then .removing outcome else .done outcome, storage)
  | .removing outcome => (.done outcome, none)
  | phase => (phase, storage)

/-- `heartbeat`, as far as its first read. -/
def Phase.beat (storage : Option (Lease ι)) : Phase ι → Phase ι
  | .running expiresAt .idle => .running expiresAt (.checking storage)
  | phase => phase

def Phase.finish (rejected : Bool) : Phase ι → Phase ι
  | .running _ .idle => .settled rejected
  | .unwinding _ => .done .aborted
  | .direct => .done (if rejected then .rejected else .returned)
  | phase => phase

/-- The signal is only seen where the attempt awaits, and before the loop. -/
def Phase.abort : Phase ι → Phase ι
  | .idle => .done .aborted
  | .waiting => .done .aborted
  | .running expiresAt .idle => .unwinding expiresAt
  | .settled _ => .done .aborted
  | .direct => .done .aborted
  | phase => phase

/-- Without storage the task runs directly; a heartbeat aborts the attempt; a release is given up. -/
def Phase.fail : Phase ι → Phase ι
  | .reading => .direct
  | .writing _ _ => .direct
  | .confirming => .direct
  | .running expiresAt .idle => .unwinding expiresAt
  | .running expiresAt .writing => .unwinding expiresAt
  | .running expiresAt .verifying => .unwinding expiresAt
  | .settled false => .releasing .leaseLost
  | .releasing outcome => .done outcome
  | .removing outcome => .done outcome
  | phase => phase

/-! ## The browser -/

def Browser.update (s : Browser ι) (attempt : ι) (phase : Phase ι) (storage : Option (Lease ι)) :
    Browser ι :=
  { s with storage := storage, attempts := Function.update s.attempts attempt phase }

def step (s : Browser ι) : Action ι → Browser ι
  | .start attempt =>
    match s.attempts attempt with
    | .idle => s.update attempt .reading s.storage
    | _ => s
  | .proceed attempt =>
    let (phase, storage) := (s.attempts attempt).proceed leaseMs attempt s.now s.storage
    s.update attempt phase storage
  | .beat attempt => s.update attempt ((s.attempts attempt).beat s.storage) s.storage
  | .finish attempt rejected =>
    s.update attempt ((s.attempts attempt).finish rejected) s.storage
  | .abort attempt => s.update attempt (s.attempts attempt).abort s.storage
  | .fail attempt => s.update attempt (s.attempts attempt).fail s.storage
  | .tick elapsed => { s with now := s.now + elapsed }

/-- Pages that have been closed may have left a lease behind. -/
def initial (storage : Option (Lease ι)) (now : ℕ) : Browser ι := ⟨storage, now, fun _ => .idle⟩

/-- No two attempts hold the lease and have their task in flight. -/
def MutuallyExclusive (s : Browser ι) : Prop :=
  ∀ c d, (s.attempts c).inFlight.isSome → (s.attempts d).inFlight.isSome → c = d

/-- The lease of each task in flight has not expired. -/
def Timely (s : Browser ι) : Prop := ∀ c, ∀ expiresAt ∈ (s.attempts c).inFlight, s.now < expiresAt

instance Timely.decidable [Fintype ι] (s : Browser ι) : Decidable (Timely s) :=
  inferInstanceAs (Decidable (∀ c, ∀ expiresAt ∈ (s.attempts c).inFlight, s.now < expiresAt))

/-- No task is in flight under the stored lease. -/
def Unused (s : Browser ι) : Prop :=
  ∀ lease ∈ s.storage, (s.attempts lease.owner).inFlight = none

instance Unused.decidable (s : Browser ι) : Decidable (Unused s) :=
  inferInstanceAs (Decidable (∀ lease ∈ s.storage, (s.attempts lease.owner).inFlight = none))

/-- What the next access overwrites or removes is the lease the attempt has read, or an unused one. -/
def Phase.Undisturbed (s : Browser ι) : Phase ι → Prop
  | .writing current _ => s.storage = current ∨ Unused s
  | .removing _ => Unused s
  | _ => True

instance Phase.Undisturbed.decidable (s : Browser ι) (phase : Phase ι) :
    Decidable (phase.Undisturbed s) :=
  match phase with
  | .writing current _ => inferInstanceAs (Decidable (s.storage = current ∨ Unused s))
  | .removing _ => inferInstanceAs (Decidable (Unused s))
  | .idle | .reading | .checking _ | .confirming | .waiting | .running _ _ | .unwinding _
  | .settled _ | .verifying _ | .releasing _ | .direct | .done _ => .isTrue trivial

def Undisturbed (s : Browser ι) : Action ι → Prop
  | .proceed attempt => (s.attempts attempt).Undisturbed s
  | _ => True

instance Undisturbed.decidable (s : Browser ι) (a : Action ι) : Decidable (Undisturbed s a) :=
  match a with
  | .proceed attempt => inferInstanceAs (Decidable ((s.attempts attempt).Undisturbed s))
  | .start _ | .beat _ | .finish _ _ | .abort _ | .fail _ | .tick _ => .isTrue trivial

/-! ## What a step does -/

/-- What the invariant below keeps of a phase: a candidate is only written where the lease that was
read had expired. -/
def Phase.Checked (now : ℕ) : Phase ι → Prop
  | .writing current _ => Available now current
  | _ => True

/-- What an attempt may do to the storage: nothing, renew the lease its task is in flight under,
write its candidate, or remove the record. -/
inductive Access (attempt : ι) (storage : Option (Lease ι)) : Phase ι → Phase ι → Option (Lease ι) → Prop
  | keep {phase phase' : Phase ι}
      (h : ∀ expiresAt ∈ phase'.inFlight,
        expiresAt ∈ phase.inFlight ∨ storage = some ⟨attempt, expiresAt⟩) :
      Access attempt storage phase phase' storage
  | renew {phase phase' : Phase ι} {expiresAt : ℕ} (h : phase.inFlight.isSome)
      (h' : phase'.inFlight = some expiresAt) :
      Access attempt storage phase phase' (some ⟨attempt, expiresAt⟩)
  | write {current : Option (Lease ι)} {expiresAt : ℕ} :
      Access attempt storage (.writing current expiresAt) .confirming (some ⟨attempt, expiresAt⟩)
  | remove {outcome : Outcome} :
      Access attempt storage (.removing outcome) (.done outcome) none

variable {leaseMs} {attempt : ι} {now : ℕ} {storage : Option (Lease ι)}

variable (leaseMs attempt now storage) in
theorem proceed_access (phase : Phase ι) :
    Access attempt storage phase (phase.proceed leaseMs attempt now storage).1
      (phase.proceed leaseMs attempt now storage).2 := by
  cases phase with
  | writing current expiresAt => exact .write
  | removing outcome => exact .remove
  | confirming =>
    cases storage with
    | none => exact .keep (by simp [Phase.proceed, Phase.inFlight])
    | some lease =>
      refine .keep fun expiresAt he => .inr ?_
      simp only [Phase.proceed] at he
      split at he
      · rename_i howner
        obtain rfl : lease.expiresAt = expiresAt := by simpa [Phase.inFlight] using he
        rw [← howner]
      · simp [Phase.inFlight] at he
  | running expiresAt heartbeat =>
    cases heartbeat with
    | writing => exact .renew rfl rfl
    | idle => exact .keep fun _ he => .inl he
    | checking latest =>
      refine .keep fun e he => .inl ?_
      simp only [Phase.proceed] at he
      split at he <;> exact he
    | verifying =>
      refine .keep fun e he => .inl ?_
      simp only [Phase.proceed] at he
      split at he <;> exact he
  | checking current =>
    refine .keep fun e he => .inl ?_
    simp only [Phase.proceed] at he
    split at he <;> simp [Phase.inFlight] at he
  | settled rejected => cases rejected <;> exact .keep fun e he => .inl he
  | releasing outcome =>
    refine .keep fun e he => .inl ?_
    simp only [Phase.proceed] at he
    split at he <;> simp [Phase.inFlight] at he
  | idle => exact .keep fun _ he => .inl he
  | reading => exact .keep fun _ he => .inl he
  | waiting => exact .keep fun _ he => .inl he
  | unwinding expiresAt => exact .keep fun _ he => .inl he
  | verifying latest => exact .keep fun _ he => .inl he
  | direct => exact .keep fun _ he => .inl he
  | done outcome => exact .keep fun _ he => .inl he

variable (leaseMs attempt now storage) in
theorem proceed_checked (phase : Phase ι) :
    (phase.proceed leaseMs attempt now storage).1.Checked now := by
  cases phase with
  | checking current =>
    simp only [Phase.proceed]
    split
    · assumption
    · trivial
  | running expiresAt heartbeat =>
    cases heartbeat with
    | checking latest => simp only [Phase.proceed]; split <;> trivial
    | verifying => simp only [Phase.proceed]; split <;> trivial
    | _ => trivial
  | confirming =>
    cases storage with
    | none => trivial
    | some lease => simp only [Phase.proceed]; split <;> trivial
  | settled rejected => cases rejected <;> trivial
  | releasing outcome => simp only [Phase.proceed]; split <;> trivial
  | _ => trivial

/-- The next phase has no task in flight that was not, and no candidate to write that was not
checked. -/
def Phase.Continues (phase phase' : Phase ι) : Prop :=
  (∀ expiresAt ∈ phase'.inFlight, expiresAt ∈ phase.inFlight) ∧
    ∀ now, phase.Checked now → phase'.Checked now

omit [DecidableEq ι] in
theorem Phase.Continues.refl (phase : Phase ι) : phase.Continues phase :=
  ⟨fun _ he => he, fun _ h => h⟩

omit [DecidableEq ι] in
theorem continues_beat (phase : Phase ι) : phase.Continues (phase.beat storage) := by
  cases phase with
  | running expiresAt heartbeat =>
    cases heartbeat with
    | idle => exact ⟨fun _ he => he, fun _ _ => trivial⟩
    | _ => exact .refl _
  | _ => exact .refl _

omit [DecidableEq ι] in
theorem continues_finish (phase : Phase ι) (rejected : Bool) :
    phase.Continues (phase.finish rejected) := by
  cases phase with
  | running expiresAt heartbeat =>
    cases heartbeat with
    | idle => exact ⟨fun _ he => (nomatch he), fun _ _ => trivial⟩
    | _ => exact .refl _
  | unwinding expiresAt => exact ⟨fun _ he => (nomatch he), fun _ _ => trivial⟩
  | direct => exact ⟨fun _ he => (nomatch he), fun _ _ => trivial⟩
  | _ => exact .refl _

omit [DecidableEq ι] in
theorem continues_abort (phase : Phase ι) : phase.Continues phase.abort := by
  cases phase with
  | running expiresAt heartbeat =>
    cases heartbeat with
    | idle => exact ⟨fun _ he => he, fun _ _ => trivial⟩
    | _ => exact .refl _
  | idle => exact ⟨fun _ he => (nomatch he), fun _ _ => trivial⟩
  | waiting => exact ⟨fun _ he => (nomatch he), fun _ _ => trivial⟩
  | settled rejected => exact ⟨fun _ he => (nomatch he), fun _ _ => trivial⟩
  | direct => exact ⟨fun _ he => (nomatch he), fun _ _ => trivial⟩
  | _ => exact .refl _

omit [DecidableEq ι] in
theorem continues_fail (phase : Phase ι) : phase.Continues phase.fail := by
  cases phase with
  | running expiresAt heartbeat =>
    cases heartbeat with
    | checking latest => exact .refl _
    | _ => exact ⟨fun _ he => he, fun _ _ => trivial⟩
  | settled rejected =>
    cases rejected with
    | true => exact .refl _
    | false => exact ⟨fun _ he => (nomatch he), fun _ _ => trivial⟩
  | reading => exact ⟨fun _ he => (nomatch he), fun _ _ => trivial⟩
  | writing current expiresAt => exact ⟨fun _ he => (nomatch he), fun _ _ => trivial⟩
  | confirming => exact ⟨fun _ he => (nomatch he), fun _ _ => trivial⟩
  | releasing outcome => exact ⟨fun _ he => (nomatch he), fun _ _ => trivial⟩
  | removing outcome => exact ⟨fun _ he => (nomatch he), fun _ _ => trivial⟩
  | _ => exact .refl _

omit [DecidableEq ι] in
theorem Phase.Checked.later {phase : Phase ι} {now' : ℕ} (h : phase.Checked now) (hnow : now ≤ now') :
    phase.Checked now' := by
  cases phase with
  | writing current expiresAt => exact fun lease hlease => (h lease hlease).trans hnow
  | _ => trivial

/-! ## The invariant -/

/-- A task in flight is in flight under the stored lease. -/
structure Held (s : Browser ι) : Prop where
  stored : ∀ c, ∀ expiresAt ∈ (s.attempts c).inFlight, s.storage = some ⟨c, expiresAt⟩
  checked : ∀ c, (s.attempts c).Checked s.now

variable {s : Browser ι} {c d : ι}

omit [DecidableEq ι] in
theorem Held.mutuallyExclusive (h : Held s) : MutuallyExclusive s := by
  intro c d hc hd
  obtain ⟨e, he⟩ := Option.isSome_iff_exists.mp hc
  obtain ⟨e', he'⟩ := Option.isSome_iff_exists.mp hd
  have heq := (h.stored c e he).symm.trans (h.stored d e' he')
  injection heq with heq
  injection heq

omit [DecidableEq ι] in
theorem held_initial (storage : Option (Lease ι)) (now : ℕ) : Held (initial storage now) :=
  ⟨fun _ _ he => (nomatch he), fun _ => trivial⟩

omit [DecidableEq ι] in
/-- An unused lease leaves no task in flight. -/
theorem Held.none_inFlight (h : Held s) (hunused : Unused s) : (s.attempts c).inFlight = none := by
  cases hc : (s.attempts c).inFlight with
  | none => rfl
  | some e => exact absurd (hunused _ (h.stored c e hc)) (by simp [hc])

omit [DecidableEq ι] in
/-- A lease that had expired when it was read is unused, if the tasks are in time. -/
theorem unused_of_available (h : Held s) (htimely : Timely s) (havailable : Available s.now s.storage) :
    Unused s := by
  intro lease hlease
  cases hc : (s.attempts lease.owner).inFlight with
  | none => rfl
  | some e =>
    have hstored := h.stored _ e hc
    have hexpired := havailable ⟨lease.owner, e⟩ hstored
    exact absurd (htimely _ e hc) (Nat.not_lt.mpr hexpired)

/-- An attempt's step keeps the invariant where it leaves the tasks of the others under the stored
lease. -/
theorem Held.update (h : Held s) {phase : Phase ι} {storage : Option (Lease ι)}
    (hown : ∀ e ∈ phase.inFlight, storage = some ⟨c, e⟩)
    (hothers : storage = s.storage ∨ ∀ d, d ≠ c → (s.attempts d).inFlight = none)
    (hchecked : phase.Checked s.now) : Held (s.update c phase storage) := by
  constructor
  · intro d e he
    by_cases hd : d = c
    · subst hd
      exact hown e (by simpa [Browser.update] using he)
    · have he' : e ∈ (s.attempts d).inFlight := by simpa [Browser.update, hd] using he
      obtain hsame | hnone := hothers
      · exact hsame.trans (h.stored d e he')
      · rw [hnone d hd] at he'
        cases he'
  · intro d
    by_cases hd : d = c
    · subst hd
      simpa [Browser.update] using hchecked
    · simpa [Browser.update, hd] using h.checked d

/-- A step that leaves the storage alone and puts no task in flight keeps the invariant. -/
theorem Held.continues (h : Held s) {phase : Phase ι} (hphase : (s.attempts c).Continues phase) :
    Held (s.update c phase s.storage) :=
  h.update (fun e he => h.stored c e (hphase.1 e he)) (.inl rfl) (hphase.2 s.now (h.checked c))

theorem Held.proceed (h : Held s) (htimely : Timely s) (hcond : Undisturbed s (.proceed c)) :
    Held (step leaseMs s (.proceed c)) := by
  have haccess := proceed_access leaseMs c s.now s.storage (s.attempts c)
  have hchecked := proceed_checked leaseMs c s.now s.storage (s.attempts c)
  change Held (s.update c ((s.attempts c).proceed leaseMs c s.now s.storage).1
    ((s.attempts c).proceed leaseMs c s.now s.storage).2)
  have hnow := h.checked c
  simp only [Undisturbed] at hcond
  generalize hphase : s.attempts c = phase at *
  generalize phase.proceed leaseMs c s.now s.storage = next at *
  obtain ⟨phase', storage'⟩ := next
  cases haccess with
  | keep hkeep =>
    refine h.update (fun e he => ?_) (.inl rfl) hchecked
    obtain he | he := hkeep e he
    · exact h.stored c e (by rwa [hphase])
    · exact he
  | renew hin hout =>
    refine h.update (fun e he => ?_) (.inr fun d hd => ?_) hchecked
    · rw [hout] at he
      cases he
      rfl
    · cases hd' : (s.attempts d).inFlight with
      | none => rfl
      | some e =>
        exact absurd (h.mutuallyExclusive d c (by simp [hd']) (by rwa [hphase])) hd
  | write =>
    have hunused : Unused s := by
      obtain hread | hunused := hcond
      · refine unused_of_available h htimely ?_
        rw [hread]
        exact hnow
      · exact hunused
    exact h.update (fun _ he => (nomatch he)) (.inr fun d _ => h.none_inFlight hunused) hchecked
  | remove =>
    exact h.update (fun _ he => (nomatch he)) (.inr fun d _ => h.none_inFlight hcond) hchecked

theorem Held.step (h : Held s) (htimely : Timely s) {a : Action ι} (hcond : Undisturbed s a) :
    Held (step leaseMs s a) := by
  cases a with
  | start c =>
    simp only [StorageLease.step]
    split
    · exact h.continues ⟨fun _ he => (nomatch he), fun _ _ => trivial⟩
    · exact h
  | proceed c => exact h.proceed htimely hcond
  | beat c => exact h.continues (continues_beat _)
  | finish c rejected => exact h.continues (continues_finish _ rejected)
  | abort c => exact h.continues (continues_abort _)
  | fail c => exact h.continues (continues_fail _)
  | tick elapsed =>
    exact ⟨h.stored, fun c => (h.checked c).later (Nat.le_add_right s.now elapsed)⟩

/-! ## Runs -/

/-- In runs in which each task ends before its lease does, and no step overwrites or removes a lease
under which another task has come to be in flight since the storage was read. -/
theorem refresh_exclusive (leaseMs : ℕ) (storage : Option (Lease ι)) (now : ℕ)
    (actions : List (Action ι))
    (hrun : Always (step leaseMs)
      (fun s a => Timely (step leaseMs s a) ∧ Undisturbed s a) (initial storage now) actions) :
    MutuallyExclusive (run (step leaseMs) (initial storage now) actions) := by
  have hstep (s : Browser ι) (a : Action ι) (hs : Held s ∧ Timely s)
      (ha : Timely (step leaseMs s a) ∧ Undisturbed s a) :
      Held (step leaseMs s a) ∧ Timely (step leaseMs s a) :=
    ⟨hs.1.step hs.2 ha.2, ha.1⟩
  have hinitial : Held (initial storage now) ∧ Timely (initial storage now) :=
    ⟨held_initial storage now, fun _ _ he => (nomatch he)⟩
  exact (run_invariant hstep hinitial hrun).1.mutuallyExclusive

/-- One context refreshes while another waits for the lease and then refreshes in its turn. -/
theorem refresh_exclusive_in_turn :
    MutuallyExclusive (run (step 10000) (initial none 0)
      ([.start false, .proceed false, .proceed false, .proceed false, .proceed false, .start true,
        .proceed true, .proceed true, .tick 2000, .beat false, .proceed false, .proceed false,
        .proceed false, .finish false false, .proceed false, .proceed false, .proceed false,
        .proceed false, .proceed true, .proceed true, .proceed true, .proceed true,
        .proceed true] : List (Action Bool))) :=
  refresh_exclusive 10000 none 0 _ (by decide +kernel)

/-- Two contexts read the empty storage; the first writes, confirms its lease and starts its task,
then the second does. -/
theorem not_refresh_exclusive :
    ¬∀ (storage : Option (Lease Bool)) (now : ℕ) (actions : List (Action Bool)),
      Always (step 10000) (fun s a => Timely (step 10000 s a)) (initial storage now) actions →
        MutuallyExclusive (run (step 10000) (initial storage now) actions) := by
  intro h
  have hrun := h none 0
    [.start false, .start true, .proceed false, .proceed true, .proceed false, .proceed true,
      .proceed false, .proceed false, .proceed true, .proceed true] (by decide +kernel)
  exact absurd (hrun false true rfl rfl) (by decide)

/-- The condition is exact for the candidates: over a lease that is in use, a candidate is confirmed
beside the task of its owner. -/
theorem not_exclusive_of_write {current : Option (Lease ι)} {expiresAt : ℕ}
    (hphase : s.attempts c = .writing current expiresAt) (hcond : ¬Undisturbed s (.proceed c)) :
    ¬MutuallyExclusive (run (step leaseMs) s [.proceed c, .proceed c]) := by
  have hused : ¬Unused s := fun h => hcond (by simp [Undisturbed, Phase.Undisturbed, hphase, h])
  simp only [Unused, not_forall] at hused
  obtain ⟨lease, -, hlease⟩ := hused
  have hne : lease.owner ≠ c := by
    intro heq
    rw [heq, hphase] at hlease
    exact hlease rfl
  intro hexclusive
  refine hne (hexclusive lease.owner c ?_ ?_)
  · simpa [StorageLease.step, Browser.update, hne, Option.isSome_iff_ne_none] using hlease
  · simp [StorageLease.step, Browser.update, hphase, Phase.proceed, Phase.inFlight]

/-- And for the removals: once the record in use is gone, the next attempt takes the lease. -/
theorem not_exclusive_of_remove {outcome : Outcome} (hphase : s.attempts c = .removing outcome)
    (hidle : s.attempts d = .idle) (hcond : ¬Undisturbed s (.proceed c)) :
    ¬MutuallyExclusive (run (step leaseMs) s
      [.proceed c, .start d, .proceed d, .proceed d, .proceed d, .proceed d]) := by
  have hused : ¬Unused s := fun h => hcond (by simp [Undisturbed, Phase.Undisturbed, hphase, h])
  simp only [Unused, not_forall] at hused
  obtain ⟨lease, -, hlease⟩ := hused
  have hne : lease.owner ≠ c := by
    intro heq
    rw [heq, hphase] at hlease
    exact hlease rfl
  have hne' : lease.owner ≠ d := by
    intro heq
    rw [heq, hidle] at hlease
    exact hlease rfl
  have hdc : d ≠ c := by
    intro heq
    rw [heq, hphase] at hidle
    cases hidle
  intro hexclusive
  refine hne' (hexclusive lease.owner d ?_ ?_)
  · simpa [StorageLease.step, Browser.update, hne, hne', hdc, hphase, hidle, Phase.proceed,
      Option.isSome_iff_ne_none] using hlease
  · simp [StorageLease.step, Browser.update, hdc, hphase, hidle, Phase.proceed, Phase.inFlight,
      Available]

end StorageLease

end Frontend

end Apanel
