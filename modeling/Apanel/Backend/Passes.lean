import Apanel.Backend.Recognition

/-!
# Passes over a history

`Pass.Reads` says what a pass has to read of a history: the dates it observes, their predecessors,
and the status of the predecessors it does not observe, as seeds. `Pass.run_eq_ok` is the run lemma:
such a pass computes the observations of the history on its dates.
-/

namespace Apanel

variable {F : Type} [Arith F] [LinearOrder (IndicatorRequest F)] [LinearOrder (Target F)]

/-- The targets of the snapshot row of a date. -/
def History.HasTarget (h : History F) (day : Date) (target : Target F) : Prop :=
  ∃ row, h.snapshots.get? day = some row ∧ row.HasTarget target

omit [Arith F] [LinearOrder (Target F)] in
theorem History.HasTarget.persist {h : History F} (hpersistent : h.snapshots.Persistent)
    {day day' : Date} {target : Target F} (htarget : h.HasTarget day target) (hday : day ≤ day')
    (hday' : day' ∈ h.snapshots.keys) : h.HasTarget day' target := by
  obtain ⟨row, hrow, htarget⟩ := htarget
  obtain ⟨row', hrow'⟩ := Table.mem_keys.mp hday'
  exact ⟨row', hrow', SnapshotRow.HasTarget.persist hpersistent hday hrow hrow' htarget⟩

/-- A pass over `dates` reads the history `h`. -/
structure Pass.Reads (pass : Pass F) (h : History F) (dates : List Date) : Prop where
  previousDate : ∀ day ∈ dates, pass.calendar.previousOpenDate day = h.previousDate day
  stored : ∀ day ∈ dates, day ∈ h.snapshots.keys
  close : ∀ day ∈ dates, pass.close day = h.close day
  previous : ∀ day ∈ dates, ∀ previousDate, h.previousDate day = some previousDate →
    pass.snapshots.get? previousDate = h.snapshots.get? previousDate
  prior : ∀ day ∈ dates, ∀ previousDate, h.previousDate day = some previousDate →
    previousDate ∈ h.snapshots.keys → pass.close previousDate = h.close previousDate ∧
      (previousDate ∈ dates ∨ previousDate ∉ dates ∧ pass.seedDate = some previousDate ∧
        ∀ target, pass.filter.accepts target →
          (pass.seeds.get? target).map (·.status) = h.status previousDate target)
  seedDate : ∀ day ∈ dates, pass.seedDate ≠ some day
  known : ∀ target ∈ pass.seeds.keys, pass.filter.accepts target ∧
    ∀ day ∈ dates, h.HasTarget day target

/-- The loop state after the dates `done`. -/
structure Pass.Observed (pass : Pass F) (h : History F) (done : List Date) (s : PassState F) :
    Prop where
  computed (day target) : s.computed.get? (toLex (day, target)) =
    if day ∈ done ∧ pass.filter.accepts target then h.status day target else none
  memory (target) : s.memory.get? target ≠ none →
    ∃ day ∈ done, h.previousDate day ≠ none ∧ h.HasTarget day target
  known : ∀ target ∈ s.known.keys, pass.filter.accepts target ∧
    (target ∈ pass.seeds.keys ∨ ∃ day ∈ done, h.HasTarget day target)
  rows : s.rows = h.observed pass.filter done

namespace Pass

variable {pass : Pass F} {h : History F} {dates done : List Date} {s : PassState F} {day : Date}
  {row : SnapshotRow F}

/-- The iterations of a date are those of the history the filters select. -/
theorem Reads.items_eq (hreads : pass.Reads h dates) (hday : day ∈ dates)
    (hrow : h.snapshots.get? day = some row) :
    pass.items day row = (h.items day).filter fun item => pass.filter.accepts item.target := by
  rw [Pass.items, workItems_filter, History.items, hrow, hreads.previousDate day hday]
  dsimp only
  congr 2
  cases hprevious : h.previousDate day with
  | none => rfl
  | some previousDate => exact hreads.previous day hday previousDate hprevious

/-- An iteration with a previous snapshot has a stored predecessor. -/
theorem stored_of_previous {item : WorkItem F} (hitem : item ∈ h.items day)
    {previousDate : Date} (hprevious : h.previousDate day = some previousDate)
    (hsome : item.previous.isSome) : previousDate ∈ h.snapshots.keys := by
  unfold History.items at hitem
  split at hitem
  · cases hitem
  rw [hprevious, Option.bind_some] at hitem
  rw [Table.mem_keys]
  cases hstored : h.snapshots.get? previousDate with
  | some row => exact ⟨row, rfl⟩
  | none =>
    rw [hstored] at hitem
    rw [previous_eq_none_of_mem_workItems hitem] at hsome
    cases hsome

/-- The status an iteration continues is that of the history. -/
theorem Observed.priorStatus_eq (hs : pass.Observed h done s) (hreads : pass.Reads h dates)
    (hday : day ∈ dates) (hdone : ∀ d, d ∈ done ↔ d ∈ dates ∧ d < day) {previousDate : Date}
    (hprevious : h.previousDate day = some previousDate)
    (hstored : previousDate ∈ h.snapshots.keys) {target : Target F}
    (haccepts : pass.filter.accepts target) :
    pass.priorStatus s (some previousDate) target = h.status previousDate target := by
  have hlt : previousDate < day := Calendar.previousOpenDate_lt hprevious
  rw [Pass.priorStatus, hs.computed]
  rcases (hreads.prior day hday previousDate hprevious hstored).2 with hmem | ⟨hmem, hseed, hseeds⟩
  · rw [if_pos ⟨(hdone _).mpr ⟨hmem, hlt⟩, haccepts⟩, if_neg (hreads.seedDate _ hmem), Option.or_none]
  · rw [if_neg fun hd => hmem ((hdone _).mp hd.1).1, if_pos hseed, Option.none_or]
    exact hseeds target haccepts

/-- The row of an iteration is that of the history. -/
theorem Observed.observeItem_eq (hs : pass.Observed h done s) (hreads : pass.Reads h dates)
    (hpersistent : h.snapshots.Persistent) (hday : day ∈ dates)
    (hdone : ∀ d, d ∈ done ↔ d ∈ dates ∧ d < day) {item : WorkItem F} (hitem : item ∈ h.items day)
    (haccepts : pass.filter.accepts item.target) :
    (observeItem day (h.previousDate day) pass.close
      (pass.priorStatus s (h.previousDate day) item.target) (s.memory.get? item.target) item).1 =
      h.row day item := by
  refine observeItem_congr fun previousDate hprevious hsome => ?_
  have hstored := stored_of_previous hitem hprevious hsome
  obtain ⟨hclose, -⟩ := hreads.prior day hday previousDate hprevious hstored
  refine ⟨hreads.close day hday, hclose, ?_, fun hnone => ?_⟩
  · rw [hprevious]
    exact hs.priorStatus_eq hreads hday hdone hprevious hstored haccepts
  · -- a target evaluated on an earlier day has a status at the predecessor
    rw [hprevious, Option.bind_some] at hnone
    by_contra hmemory
    obtain ⟨day', hday', hprevious', htarget⟩ := hs.memory item.target hmemory
    obtain ⟨p', hp'⟩ := Option.ne_none_iff_exists'.mp hprevious'
    have hopen := (Calendar.previousOpenDate_eq_some.mp hp').1
    have hle := Calendar.le_previousOpenDate hprevious hopen ((hdone day').mp hday').2
    have := History.status_isSome.mpr (htarget.persist hpersistent hle hstored)
    rw [hnone] at this
    cases this

/-- No known target is missing on a later date. -/
theorem Observed.missing_eq_nil (hs : pass.Observed h done s) (hreads : pass.Reads h dates)
    (hpersistent : h.snapshots.Persistent) (hday : day ∈ dates)
    (hdone : ∀ d, d ∈ done ↔ d ∈ dates ∧ d < day) :
    (s.known.keys.filter fun target => target ∉
      ((h.rows day).filter fun row => pass.filter.accepts row.target).map (·.target)) = [] := by
  rw [List.filter_eq_nil_iff]
  intro target htarget
  obtain ⟨haccepts, hknown⟩ := hs.known target htarget
  have hhas : h.HasTarget day target := by
    rcases hknown with hseed | ⟨day', hday', hhas⟩
    · exact (hreads.known target hseed).2 day hday
    · exact hhas.persist hpersistent ((hdone day').mp hday').2.le (hreads.stored day hday)
  obtain ⟨item, hitem, heq⟩ := List.mem_map.mp (History.mem_items_targets.mpr hhas)
  simp only [decide_eq_true_eq, not_not]
  refine List.mem_map.mpr ⟨h.row day item, List.mem_filter.mpr ⟨List.mem_map_of_mem hitem, ?_⟩, ?_⟩
  · rw [History.row_target, heq]
    exact haccepts
  · rw [History.row_target, heq]

/-- The statuses a date adds to `computed_status_by_key`. -/
theorem Observed.computed_insertMany (hs : pass.Observed h done s) (hnew : day ∉ done)
    (day' : Date) (target : Target F) :
    (s.computed.insertMany <| ((h.rows day).filter fun row => pass.filter.accepts row.target).map
      fun row => (toLex (day, row.target), row.status)).get? (toLex (day', target)) =
      if day' ∈ done ++ [day] ∧ pass.filter.accepts target then h.status day' target else none := by
  have hdistinct : (((h.rows day).filter fun row => pass.filter.accepts row.target).map
      fun row => (toLex (day, row.target), row.status)).Pairwise fun r s => r.1 ≠ s.1 := by
    refine List.pairwise_map.mpr ((List.pairwise_map.mp (h.rows_nodup day)).filter _ |>.imp ?_)
    intro row row' hne heq
    exact hne (Prod.mk.inj (toLex.injective heq)).2
  have hmem (status : StateStatus) : (toLex (day', target), status) ∈
      ((h.rows day).filter fun row => pass.filter.accepts row.target).map
        (fun row => (toLex (day, row.target), row.status)) ↔
      day' = day ∧ pass.filter.accepts target ∧ h.status day target = some status := by
    simp only [List.mem_map, List.mem_filter, Prod.mk.injEq, toLex_inj,
      History.status_eq_some_iff_row]
    constructor
    · rintro ⟨row, ⟨hrow, haccepts⟩, ⟨rfl, rfl⟩, rfl⟩
      exact ⟨rfl, haccepts, row, hrow, rfl, rfl⟩
    · rintro ⟨rfl, haccepts, row, hrow, rfl, rfl⟩
      exact ⟨row, ⟨hrow, haccepts⟩, ⟨rfl, rfl⟩, rfl⟩
  refine Option.ext fun status => ?_
  rw [Table.get?_insertMany hdistinct, hs.computed]
  simp only [hmem, List.mem_append, List.mem_singleton]
  by_cases hday : day' = day
  · subst hday
    simp [hnew]
  · simp [hday]

/-- The rows a date adds are those of the history. -/
theorem Observed.step (hs : pass.Observed h done s) (hreads : pass.Reads h dates)
    (hpersistent : h.snapshots.Persistent) (hday : day ∈ dates)
    (hdone : ∀ d, d ∈ done ↔ d ∈ dates ∧ d < day) (hrow : h.snapshots.get? day = some row) :
    pass.Observed h (done ++ [day]) (pass.step s day row) := by
  have hitems := hreads.items_eq hday hrow
  have hnew : day ∉ done := fun hd => lt_irrefl _ ((hdone day).mp hd).2
  generalize hobserved : (pass.items day row).map (fun item =>
      observeItem day (pass.calendar.previousOpenDate day) pass.close
        (pass.priorStatus s (pass.calendar.previousOpenDate day) item.target)
        (s.memory.get? item.target) item) = observed
  have hpresent : observed.map (·.1) =
      (h.rows day).filter fun row => pass.filter.accepts row.target := by
    rw [← hobserved, List.map_map, History.rows, List.filter_map, hitems]
    simp only [Function.comp_def, History.row_target]
    refine List.map_congr_left fun item hitem => ?_
    obtain ⟨hitem, haccepts⟩ := List.mem_filter.mp hitem
    rw [hreads.previousDate day hday]
    exact hs.observeItem_eq hreads hpersistent hday hdone hitem haccepts
  have hmemory : ∀ o ∈ observed, o.2 ≠ none →
      h.previousDate day ≠ none ∧ h.HasTarget day o.1.target := by
    intro o ho hne
    rw [← hobserved, hitems] at ho
    obtain ⟨item, hitem, rfl⟩ := List.mem_map.mp ho
    rw [hreads.previousDate day hday] at hne ⊢
    refine ⟨fun hnone => ?_, ?_⟩
    · rw [hnone] at hne
      exact hne observeItem_memory
    · rw [(observeItem_target ..).1]
      exact History.mem_items_targets.mp (List.mem_map_of_mem (List.mem_of_mem_filter hitem))
  have hstep : pass.step s day row =
      { computed := s.computed.insertMany <|
          ((h.rows day).filter fun row => pass.filter.accepts row.target).map
            fun row => (toLex (day, row.target), row.status)
        memory := s.memory.insertMany <|
          observed.filterMap fun o => o.2.map (o.1.target, ·)
        known := s.known.insertMany <|
          ((h.rows day).filter fun row => pass.filter.accepts row.target).map
            fun row => (row.target, ())
        rows := s.rows ++ (h.rows day).filter fun row => pass.filter.accepts row.target } := by
    simp only [Pass.step, hobserved, hpresent,
      hs.missing_eq_nil hreads hpersistent hday hdone, List.map_nil, List.append_nil]
  rw [hstep]
  refine { computed := hs.computed_insertMany hnew, memory := ?_, known := ?_, rows := ?_ }
  · intro target hne
    obtain ⟨active, hactive⟩ := Option.ne_none_iff_exists'.mp hne
    rcases Table.of_get?_insertMany hactive with hnew | hold
    · obtain ⟨o, ho, heq⟩ := List.mem_filterMap.mp hnew
      obtain ⟨_, hsome, heq⟩ := Option.map_eq_some_iff.mp heq
      obtain ⟨rfl, -⟩ := Prod.mk.inj heq
      exact ⟨day, by simp, hmemory o ho (by rw [hsome]; exact Option.some_ne_none _)⟩
    · obtain ⟨day', hday', h'⟩ := hs.memory target (by rw [hold]; exact Option.some_ne_none _)
      exact ⟨day', List.mem_append_left _ hday', h'⟩
  · intro target htarget
    obtain ⟨_, hknown⟩ := Table.mem_keys.mp htarget
    rcases Table.of_get?_insertMany hknown with hnew | hold
    · obtain ⟨row, hrow, heq⟩ := List.mem_map.mp hnew
      obtain ⟨rfl, -⟩ := Prod.mk.inj heq
      obtain ⟨hrow, haccepts⟩ := List.mem_filter.mp hrow
      refine ⟨haccepts, .inr ⟨day, by simp, History.mem_items_targets.mp ?_⟩⟩
      rw [← History.rows_targets]
      exact List.mem_map_of_mem hrow
    · obtain ⟨haccepts, hknown⟩ := hs.known target (Table.mem_keys.mpr ⟨_, hold⟩)
      refine ⟨haccepts, hknown.imp_right fun hseen => ?_⟩
      obtain ⟨day', hday', h'⟩ := hseen
      exact ⟨day', List.mem_append_left _ hday', h'⟩
  · rw [hs.rows, History.observed, History.observed, List.flatMap_append, List.flatMap_singleton]

/-- The run lemma: a pass that reads the history computes its observations. -/
theorem Observed.run {remaining : List (Date × SnapshotRow F)} {maxRows : Option ℕ}
    {s' : PassState F} (hs : pass.Observed h done s)
    (hreads : pass.Reads h (done ++ remaining.map (·.1)))
    (hpersistent : h.snapshots.Persistent)
    (hsorted : (done ++ remaining.map (·.1)).Pairwise (· < ·))
    (hrows : ∀ r ∈ remaining, h.snapshots.get? r.1 = some r.2)
    (hrun : pass.run maxRows s remaining = .ok s') :
    pass.Observed h (done ++ remaining.map (·.1)) s' := by
  induction remaining generalizing done s with
  | nil =>
    cases hrun
    simpa using hs
  | cons r remaining ih =>
    obtain ⟨day, row⟩ := r
    obtain ⟨hrow, hrows⟩ := List.forall_mem_cons.mp hrows
    simp only [Pass.run] at hrun
    split at hrun
    · cases hrun
    have hassoc : done ++ ((day, row) :: remaining).map (·.1) =
        (done ++ [day]) ++ remaining.map (·.1) := by simp
    rw [hassoc] at hreads hsorted ⊢
    have hday : day ∈ done ++ [day] ++ remaining.map (·.1) := by simp
    have hdone (d : Date) :
        d ∈ done ↔ d ∈ done ++ [day] ++ remaining.map (·.1) ∧ d < day := by
      obtain ⟨hbelow, -, hlater⟩ := List.pairwise_append.mp hsorted
      obtain ⟨-, -, hearlier⟩ := List.pairwise_append.mp hbelow
      constructor
      · exact fun hd => ⟨by simp [hd], hearlier d hd day (by simp)⟩
      · rintro ⟨hd, hlt⟩
        rcases List.mem_append.mp hd with hd | hd
        · rcases List.mem_append.mp hd with hd | hd
          · exact hd
          · rw [List.mem_singleton.mp hd] at hlt
            exact absurd hlt (lt_irrefl _)
        · exact absurd hlt (hlater day (by simp) d hd).asymm
    exact ih (hs.step hreads hpersistent hday hdone hrow) hreads hsorted hrows hrun

/-- A pass without a row limit does not fail. -/
theorem run_isOk (s : PassState F) (remaining : List (Date × SnapshotRow F)) :
    ∃ s', pass.run none s remaining = .ok s' := by
  induction remaining generalizing s with
  | nil => exact ⟨s, rfl⟩
  | cons r remaining ih => exact ih _

/-- The initial loop state of `calculate`. -/
theorem Observed.initial (hreads : pass.Reads h dates) :
    pass.Observed h []
      { computed := ∅, memory := ∅, known := pass.seeds.filterMap fun _ _ => some (), rows := [] }
    where
  computed day target := by simp
  memory target hne := absurd (Table.get?_empty target) hne
  known target htarget := by
    obtain ⟨_, hknown⟩ := Table.mem_keys.mp htarget
    rw [Table.get?_filterMap, Option.bind_eq_some_iff] at hknown
    obtain ⟨seed, hseed, -⟩ := hknown
    have hmem := Table.mem_keys.mpr ⟨seed, hseed⟩
    exact ⟨(hreads.known target hmem).1, .inl hmem⟩
  rows := rfl

end Pass

/-- The rows of `calculate` are the observations of the history the pass reads. -/
theorem StateInput.observations_eq {input : StateInput F} {filter : StateFilter F}
    {persistFrom last : Option Date} {maxRows : Option ℕ} {rows : List (StateRow F)}
    {h : History F} {dates : List Date}
    (hok : input.observations filter persistFrom last maxRows = .ok rows)
    (hreads : (input.pass filter persistFrom last).Reads h dates)
    (hpersistent : h.snapshots.Persistent)
    (hdates : ((input.pass filter persistFrom last).snapshots.window persistFrom none).keys = dates)
    (hrows : ∀ day ∈ dates,
      (input.pass filter persistFrom last).snapshots.get? day = h.snapshots.get? day) :
    rows = h.observed filter dates := by
  have hfilter : (input.pass filter persistFrom last).filter = filter := rfl
  rw [StateInput.observations] at hok
  split at hok
  · cases hok
  obtain ⟨s, hs, rfl⟩ := Except.map_eq_ok.mp hok
  have hkeys : ([] : List Date) ++
      ((input.pass filter persistFrom last).snapshots.window persistFrom none).rows.map (·.1) =
        dates := hdates
  have hstored : ∀ r ∈ ((input.pass filter persistFrom last).snapshots.window persistFrom none).rows,
      h.snapshots.get? r.1 = some r.2 := by
    intro r hr
    have hget := Table.get?_eq_some.mpr hr
    rw [← hrows r.1 (hdates ▸ List.mem_map_of_mem hr)]
    rw [Table.get?_window] at hget
    split at hget
    · exact hget
    · cases hget
  have hobserved := (Pass.Observed.initial hreads).run (by rwa [hkeys]) hpersistent
    (by rw [hkeys, ← hdates]; exact Table.keys_sorted _) hstored hs
  rw [hobserved.rows, hkeys, hfilter]

end Apanel
