import Apanel.Backend.Timeline

/-!
# The windows of a pass

A full pass reads the whole history. A partial one reads from the predecessor of its first snapshot
date, or from its start when that date has none; `Resumable` says when this is enough.
-/

namespace Apanel

variable {F : Type} [Arith F] [LinearOrder (IndicatorRequest F)] [LinearOrder (Target F)]

/-! ## Histories that agree up to a day -/

namespace History

/-- Two histories agree up to a day; the provenance of the snapshots may differ. -/
structure AgreeUpTo (h h' : History F) (day : Date) : Prop where
  snapshots : ∀ d ≤ day,
    (h.snapshots.get? d).map (·.variants) = (h'.snapshots.get? d).map (·.variants)
  bars : ∀ d ≤ day, h.bars.get? d = h'.bars.get? d
  calendar : ∀ d ≤ day, h.calendar.get? d = h'.calendar.get? d

variable {h h' : History F} {day : Date}

omit [Arith F] [LinearOrder (Target F)] in
theorem AgreeUpTo.mono {day' : Date} (hagree : h.AgreeUpTo h' day) (hle : day' ≤ day) :
    h.AgreeUpTo h' day' where
  snapshots d hd := hagree.snapshots d (hd.trans hle)
  bars d hd := hagree.bars d (hd.trans hle)
  calendar d hd := hagree.calendar d (hd.trans hle)

omit [Arith F] [LinearOrder (Target F)] in
theorem AgreeUpTo.previousDate_eq (hagree : h.AgreeUpTo h' day) :
    h.previousDate day = h'.previousDate day := Calendar.previousOpenDate_congr hagree.calendar

omit [LinearOrder (Target F)] in
theorem AgreeUpTo.close_eq (hagree : h.AgreeUpTo h' day) : h.close day = h'.close day := by
  rw [close, close, hagree.bars day le_rfl]

theorem AgreeUpTo.items_eq (hagree : h.AgreeUpTo h' day) : h.items day = h'.items day := by
  have hprevious : ((h.previousDate day).bind h.snapshots.get?).map (·.variants) =
      ((h'.previousDate day).bind h'.snapshots.get?).map (·.variants) := by
    rw [hagree.previousDate_eq]
    cases hp : h'.previousDate day with
    | none => rfl
    | some previousDate =>
      exact hagree.snapshots previousDate (Calendar.previousOpenDate_lt hp).le
  have hday := hagree.snapshots day le_rfl
  rw [items, items]
  cases hrow : h.snapshots.get? day <;> cases hrow' : h'.snapshots.get? day <;>
    rw [hrow, hrow'] at hday
  case some.some => exact workItems_congr (Option.some.inj hday) hprevious
  all_goals cases hday

omit [Arith F] [LinearOrder (Target F)] in
theorem AgreeUpTo.mem_keys (hagree : h.AgreeUpTo h' day) {d : Date} (hd : d ≤ day) :
    d ∈ h.snapshots.keys ↔ d ∈ h'.snapshots.keys := by
  have hsome := congrArg Option.isSome (hagree.snapshots d hd)
  rw [Option.isSome_map, Option.isSome_map] at hsome
  rw [Table.mem_keys, Table.mem_keys, ← Option.isSome_iff_exists, ← Option.isSome_iff_exists, hsome]

omit [LinearOrder (Target F)] in
theorem AgreeUpTo.statusOf_eq (hagree : h.AgreeUpTo h' day) (item : WorkItem F) :
    h.statusOf day item = h'.statusOf day item := by
  rw [statusOf, statusOf, hagree.previousDate_eq]
  refine congrArg StateRow.status (observeItem_congr fun previousDate hprevious _ => ?_)
  have hlt := Calendar.previousOpenDate_lt hprevious
  exact ⟨hagree.close_eq, (hagree.mono hlt.le).close_eq, rfl, fun _ => rfl⟩

theorem AgreeUpTo.status_eq (hagree : h.AgreeUpTo h' day) (target : Target F) :
    h.status day target = h'.status day target := by
  rw [status, status, hagree.items_eq]
  exact congrArg (Option.map · _) (funext hagree.statusOf_eq)

/-- The observations of a date depend on the history up to it. -/
theorem AgreeUpTo.rows_eq (hagree : h.AgreeUpTo h' day) : h.rows day = h'.rows day := by
  rw [rows, rows, hagree.items_eq]
  refine List.map_congr_left fun item _ => ?_
  rw [row, row, hagree.previousDate_eq]
  refine observeItem_congr fun previousDate hprevious _ => ?_
  have hlt := Calendar.previousOpenDate_lt hprevious
  refine ⟨hagree.close_eq, (hagree.mono hlt.le).close_eq, ?_, fun _ => rfl⟩
  rw [hprevious]
  exact (hagree.mono hlt.le).status_eq item.target

/-- The snapshot dates from one day to another. -/
def datesFrom (h : History F) (start last : Date) : List Date :=
  (h.snapshots.window (some start) (some last)).keys

omit [Arith F] [LinearOrder (Target F)] in
theorem mem_datesFrom {start last : Date} :
    day ∈ h.datesFrom start last ↔ day ∈ h.snapshots.keys ∧ start ≤ day ∧ day ≤ last := by
  rw [datesFrom, Table.mem_keys_window, Option.all_some, Option.all_some, decide_eq_true_eq,
    decide_eq_true_eq]

omit [Arith F] [LinearOrder (Target F)] in
theorem datesFrom_sorted (h : History F) (start last : Date) :
    (h.datesFrom start last).Pairwise (· < ·) := Table.keys_sorted _

end History

/-! ## What a pass reads -/

theorem History.AgreeUpTo.hasTarget {h h' : History F} {day : Date} (hagree : h.AgreeUpTo h' day)
    {target : Target F} (htarget : h.HasTarget day target) : h'.HasTarget day target := by
  rw [History.HasTarget, ← History.mem_items_targets] at htarget ⊢
  rwa [← hagree.items_eq]

namespace StateInput

variable (input : StateInput F)

/-- The history a pass reads from the tables. -/
def history : History F := ⟨input.snapshots, input.bars, input.calendar⟩

variable {input} {filter : StateFilter F} {persistFrom : Option Date} {last day : Date}

omit [Arith F] in
theorem pass_snapshots_get? (hread : ((input.pass filter persistFrom (some last)).seedDate.or
    persistFrom).all (· ≤ day)) (hlast : day ≤ last) :
    (input.pass filter persistFrom (some last)).snapshots.get? day =
      input.history.snapshots.get? day := by
  have hget := Table.get?_window input.snapshots
    ((input.pass filter persistFrom (some last)).seedDate.or persistFrom) (some last) day
  rw [if_pos ⟨hread, by simpa using hlast⟩] at hget
  exact hget

theorem pass_close (hread : ((input.pass filter persistFrom (some last)).seedDate.or
    persistFrom).all (· ≤ day)) (hlast : day ≤ last) :
    (input.pass filter persistFrom (some last)).close day = input.history.close day := by
  have hget := Table.get?_window input.bars
    ((input.pass filter persistFrom (some last)).seedDate.or persistFrom) (some last) day
  rw [if_pos ⟨hread, by simpa using hlast⟩] at hget
  exact congrArg (Option.map _) hget

variable (input) in
/-- The history up to a day. -/
def historyUpTo (last : Date) : History F :=
  ⟨input.snapshots.upTo last, input.bars, input.calendar⟩

/-- A full pass reads the whole history up to its last day. -/
theorem reads_full (filter : StateFilter F) (last : Date) :
    (input.pass filter none (some last)).Reads (input.historyUpTo last)
      (input.snapshots.upTo last).keys := by
  have hle (day : Date) (hday : day ∈ (input.snapshots.upTo last).keys) : day ≤ last :=
    Table.le_of_mem_upTo_keys hday
  have hseed : (input.pass filter none (some last)).seedDate = none := rfl
  refine
    { previousDate := fun _ _ => rfl
      stored := fun day hday => hday
      close := fun day hday => pass_close (by rw [hseed]; rfl) (hle day hday)
      previous := fun day hday previousDate hprevious => ?_
      prior := fun day hday previousDate hprevious hstored => ?_
      seedDate := nofun
      known := fun target htarget => ?_ }
  · have hprev := (Calendar.previousOpenDate_lt hprevious).le.trans (hle day hday)
    rw [pass_snapshots_get? (by rw [hseed]; rfl) hprev]
    exact ((Table.get?_upTo input.snapshots last previousDate).trans (if_pos hprev)).symm
  · have hprev := (Calendar.previousOpenDate_lt hprevious).le.trans (hle day hday)
    exact ⟨pass_close (by rw [hseed]; rfl) hprev, .inl hstored⟩
  · obtain ⟨_, hget⟩ := Table.mem_keys.mp htarget
    cases hget

/-- A full pass observes any history that agrees with the tables up to its last day. -/
theorem observations_full {h : History F} {maxRows : Option ℕ} {rows : List (StateRow F)}
    (hagree : input.history.AgreeUpTo h last) (hpersistent : h.snapshots.Persistent)
    (hok : input.observations filter none (some last) maxRows = .ok rows) :
    rows = h.observed filter (input.snapshots.upTo last).keys := by
  have hwindow : (input.pass filter none (some last)).snapshots.window none none =
      input.snapshots.upTo last := by
    refine Table.ext_get? fun day => ?_
    rw [Table.get?_window, Table.get?_upTo, if_pos ⟨rfl, rfl⟩]
    exact (Table.get?_window input.snapshots none (some last) day).trans (by simp)
  have hle (day : Date) (hday : day ∈ (input.snapshots.upTo last).keys) : day ≤ last :=
    Table.le_of_mem_upTo_keys hday
  have hget {day : Date} (hday : day ≤ last) :
      (input.historyUpTo last).snapshots.get? day = input.snapshots.get? day :=
    (Table.get?_upTo input.snapshots last day).trans (if_pos hday)
  have hagree' : (input.historyUpTo last).AgreeUpTo h last :=
    { snapshots := fun d hd => by rw [hget hd]; exact hagree.snapshots d hd
      bars := hagree.bars
      calendar := hagree.calendar }
  have hpersistent' : (input.historyUpTo last).snapshots.Persistent := by
    intro day day' row row' hlt hrow hrow' request hrequest
    have hday' : day' ≤ last := hle day' (Table.mem_keys.mpr ⟨row', hrow'⟩)
    have hvariants := hagree'.snapshots day (hlt.le.trans hday')
    have hvariants' := hagree'.snapshots day' hday'
    rw [hrow, Option.map_some, eq_comm, Option.map_eq_some_iff] at hvariants
    rw [hrow', Option.map_some, eq_comm, Option.map_eq_some_iff] at hvariants'
    obtain ⟨r, hr, hvariants⟩ := hvariants
    obtain ⟨r', hr', hvariants'⟩ := hvariants'
    rw [← hvariants']
    exact hpersistent day day' r r' hlt hr hr' request (hvariants ▸ hrequest)
  have hobserved := observations_eq hok (reads_full filter last) hpersistent' (by rw [hwindow])
    fun day hday => by rw [hget (hle day hday)]; exact pass_snapshots_get? rfl (hle day hday)
  rw [hobserved]
  exact List.flatMap_congr fun day hday => by rw [(hagree'.mono (hle day hday)).rows_eq]

/-- When a pass from `start` reads and is seeded enough: no later date has its predecessor before
`start`, and the seeds are the targets and statuses of the history. -/
structure Resumable (input : StateInput F) (start last : Date) : Prop where
  seam : ∀ first ∈ input.history.datesFrom start last, ∀ day ∈ input.history.datesFrom start last, first < day →
    ∀ previousDate, input.history.previousDate day = some previousDate →
      previousDate ∈ input.snapshots.keys → start ≤ previousDate
  initialized : input.stateThrough.isSome
  known : ∀ first, (input.snapshots.window (some start) (some last)).minKey? = some first →
    ∀ seedDate, input.history.previousDate first = some seedDate →
      ∀ target ∈ (seedAt input.events seedDate).keys, input.history.HasTarget first target
  status : ∀ first, (input.snapshots.window (some start) (some last)).minKey? = some first →
    ∀ seedDate, input.history.previousDate first = some seedDate →
      seedDate ∈ input.snapshots.keys → seedDate < start → ∀ target,
        ((seedAt input.events seedDate).get? target).map (·.status) =
          input.history.status seedDate target

section Partial

variable {start first : Date}

omit [Arith F] in
theorem seedDate_eq
    (hfirst : (input.snapshots.window (some start) (some last)).minKey? = some first) :
    (input.pass filter (some start) (some last)).seedDate = input.history.previousDate first := by
  have : (input.pass filter (some start) (some last)).seedDate =
      (input.snapshots.window (some start) (some last)).minKey?.bind
        input.calendar.previousOpenDate := rfl
  rw [this, hfirst]
  rfl

omit [Arith F] in
theorem seeds_of_seedDate {seedDate : Date}
    (h : (input.pass filter (some start) (some last)).seedDate = some seedDate) :
    (input.pass filter (some start) (some last)).seeds =
      if input.stateThrough.isSome then (seedAt input.events seedDate).filter filter.accepts
      else ∅ := by
  unfold StateInput.pass at h ⊢
  dsimp only at h ⊢
  rw [h]

omit [Arith F] in
theorem seeds_of_seedDate_none
    (h : (input.pass filter (some start) (some last)).seedDate = none) :
    (input.pass filter (some start) (some last)).seeds = ∅ := by
  unfold StateInput.pass at h ⊢
  dsimp only at h ⊢
  rw [h]

omit [Arith F] in
/-- The seeds of a partial pass are the confirmed events at the predecessor of its first date. -/
theorem get?_seeds (hthrough : input.stateThrough.isSome) {seedDate : Date}
    (hfirst : (input.snapshots.window (some start) (some last)).minKey? = some first)
    (hseed : input.history.previousDate first = some seedDate) (target : Target F) :
    (input.pass filter (some start) (some last)).seeds.get? target =
      if filter.accepts target then (seedAt input.events seedDate).get? target else none := by
  rw [seeds_of_seedDate ((seedDate_eq hfirst).trans hseed), if_pos hthrough, Table.get?_filter]

omit [Arith F] in
/-- Only a pass whose first date has a predecessor is seeded. -/
theorem exists_seedDate {target : Target F}
    (h : target ∈ (input.pass filter (some start) (some last)).seeds.keys) :
    ∃ first seedDate, (input.snapshots.window (some start) (some last)).minKey? = some first ∧
      input.history.previousDate first = some seedDate := by
  cases hseed : (input.pass filter (some start) (some last)).seedDate with
  | none =>
    rw [seeds_of_seedDate_none hseed] at h
    cases h
  | some seedDate =>
    obtain ⟨first, hfirst, hprevious⟩ := Option.bind_eq_some_iff.mp hseed
    exact ⟨first, seedDate, hfirst, hprevious⟩

omit [Arith F] in
theorem exists_first (hday : day ∈ input.history.datesFrom start last) :
    ∃ first, (input.snapshots.window (some start) (some last)).minKey? = some first ∧ first ≤ day := by
  obtain ⟨first, hfirst⟩ := Table.exists_minKey? hday
  exact ⟨first, hfirst, Table.minKey?_le hfirst hday⟩

omit [Arith F] in
theorem first_mem
    (hfirst : (input.snapshots.window (some start) (some last)).minKey? = some first) :
    first ∈ input.history.datesFrom start last := Table.mem_keys_of_minKey? hfirst

omit [Arith F] in
/-- A partial pass reads its dates. -/
theorem readFrom_le_of_mem (filter : StateFilter F) (hday : day ∈ input.history.datesFrom start last) :
    ((input.pass filter (some start) (some last)).seedDate.or (some start)).all (· ≤ day) := by
  obtain ⟨first, hfirst, hle⟩ := exists_first hday
  rw [seedDate_eq hfirst]
  cases hseed : input.history.previousDate first with
  | none => simpa using (History.mem_datesFrom.mp hday).2.1
  | some seedDate => simpa using (Calendar.previousOpenDate_lt hseed).le.trans hle

/-- A partial pass reads the predecessors of its dates, if its seam does not lose one. -/
theorem Resumable.readFrom_le (hresume : input.Resumable start last) (filter : StateFilter F)
    (hday : day ∈ input.history.datesFrom start last) {previousDate : Date}
    (hprevious : input.history.previousDate day = some previousDate)
    (hstored : previousDate ∈ input.snapshots.keys) :
    ((input.pass filter (some start) (some last)).seedDate.or (some start)).all
      (· ≤ previousDate) := by
  obtain ⟨first, hfirst, hle⟩ := exists_first hday
  rw [seedDate_eq hfirst]
  rcases hle.lt_or_eq with hlt | rfl
  · cases hseed : input.history.previousDate first with
    | none =>
      simpa using hresume.seam first (first_mem hfirst) day hday hlt previousDate hprevious hstored
    | some seedDate =>
      -- the first date is open, so it is not after the predecessor of a later one
      have hopen := (Calendar.previousOpenDate_eq_some.mp hseed).1
      have hge := Calendar.le_previousOpenDate hprevious hopen hlt
      simpa using (Calendar.previousOpenDate_lt hseed).le.trans hge
  · simp [hprevious]

/-- A partial pass that resumes properly reads the whole history. -/
theorem reads_resumed (filter : StateFilter F) (hpersistent : input.snapshots.Persistent)
    (hresume : input.Resumable start last) :
    (input.pass filter (some start) (some last)).Reads input.history
      (input.history.datesFrom start last) := by
  have hle (day : Date) (hday : day ∈ input.history.datesFrom start last) : day ≤ last :=
    (History.mem_datesFrom.mp hday).2.2
  refine
    { previousDate := fun _ _ => rfl
      stored := fun day hday => (History.mem_datesFrom.mp hday).1
      close := fun day hday => pass_close (readFrom_le_of_mem filter hday) (hle day hday)
      previous := fun day hday previousDate hprevious => ?_
      prior := fun day hday previousDate hprevious hstored => ?_
      seedDate := fun day hday hseed => ?_
      known := fun target htarget => ?_ }
  · have hprev := (Calendar.previousOpenDate_lt hprevious).le.trans (hle day hday)
    by_cases hstored : previousDate ∈ input.snapshots.keys
    · exact pass_snapshots_get? (hresume.readFrom_le filter hday hprevious hstored) hprev
    · have hnone := Table.get?_eq_none.mpr hstored
      have hget := Table.get?_window input.snapshots
        ((input.pass filter (some start) (some last)).seedDate.or (some start)) (some last)
        previousDate
      rw [hnone, ite_self] at hget
      exact hget.trans hnone.symm
  · have hprev := (Calendar.previousOpenDate_lt hprevious).le.trans (hle day hday)
    refine ⟨pass_close (hresume.readFrom_le filter hday hprevious hstored) hprev, ?_⟩
    by_cases hstart : start ≤ previousDate
    · exact .inl (History.mem_datesFrom.mpr ⟨hstored, hstart, hprev⟩)
    · refine .inr ⟨fun hmem => hstart (History.mem_datesFrom.mp hmem).2.1, ?_⟩
      obtain ⟨first, hfirst, hfirstle⟩ := exists_first hday
      -- only the first date has its predecessor before the start
      obtain rfl : first = day := by
        by_contra hne
        exact hstart (hresume.seam first (first_mem hfirst) day hday
          (lt_of_le_of_ne hfirstle hne) previousDate hprevious hstored)
      have hseed : (input.pass filter (some start) (some last)).seedDate = some previousDate :=
        (seedDate_eq hfirst).trans hprevious
      refine ⟨hseed, fun target haccepts => ?_⟩
      have haccepts : filter.accepts target := haccepts
      rw [← hresume.status first hfirst previousDate hprevious hstored (not_le.mp hstart) target,
        get?_seeds hresume.initialized hfirst hprevious, if_pos haccepts]
  · obtain ⟨first, hfirst, hfirstle⟩ := exists_first hday
    rw [seedDate_eq hfirst] at hseed
    exact absurd (Calendar.previousOpenDate_lt hseed) (not_lt.mpr hfirstle)
  · obtain ⟨first, seedDate, hfirst, hseed⟩ := exists_seedDate htarget
    obtain ⟨event, hevent⟩ := Table.mem_keys.mp htarget
    rw [get?_seeds hresume.initialized hfirst hseed] at hevent
    split at hevent
    · next haccepts =>
      have hhas := hresume.known first hfirst seedDate hseed target
        (Table.mem_keys.mpr ⟨event, hevent⟩)
      exact ⟨haccepts, fun day hday => hhas.persist hpersistent (Table.minKey?_le hfirst hday)
        (History.mem_datesFrom.mp hday).1⟩
    · cases hevent

theorem observations_resumed {maxRows : Option ℕ} {rows : List (StateRow F)}
    (hpersistent : input.snapshots.Persistent) (hresume : input.Resumable start last)
    (hok : input.observations filter (some start) (some last) maxRows = .ok rows) :
    rows = input.history.observed filter (input.history.datesFrom start last) := by
  refine observations_eq hok (reads_resumed filter hpersistent hresume) hpersistent ?_ ?_
  · refine congrArg Table.keys (Table.ext_get? fun day => ?_)
    rw [Table.get?_window, Table.get?_window]
    by_cases hday : day ∈ input.history.datesFrom start last
    · obtain ⟨-, hstart, hlast⟩ := History.mem_datesFrom.mp hday
      rw [if_pos (by simpa using hstart), if_pos (by simp [hstart, hlast]),
        pass_snapshots_get? (readFrom_le_of_mem filter hday) hlast]
    · have hnone (hstart : start ≤ day) (hlast : day ≤ last) : input.snapshots.get? day = none :=
        Table.get?_eq_none.mpr fun hstored => hday (History.mem_datesFrom.mpr ⟨hstored, hstart, hlast⟩)
      have hpass : (input.pass filter (some start) (some last)).snapshots.get? day = _ :=
        Table.get?_window input.snapshots
          ((input.pass filter (some start) (some last)).seedDate.or (some start)) (some last) day
      rw [hpass]
      by_cases hstart : start ≤ day
      · by_cases hlast : day ≤ last
        · simp [history, hnone hstart hlast]
        · simp [hlast]
      · simp [hstart]
  · exact fun day hday =>
      pass_snapshots_get? (readFrom_le_of_mem filter hday) (History.mem_datesFrom.mp hday).2.2

end Partial

end StateInput

end Apanel
