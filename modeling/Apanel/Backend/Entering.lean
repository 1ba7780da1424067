import Apanel.Backend.Preservation

/-!
# Entering a state

The engine decides a transition from the status of a target on the previous trading day, the
publisher an ENTER event from the last observation of the target. They agree as long as an active
state is compared with a snapshot of its own variant. Where the previous day has none, the engine is
given the default variant of the indicator, and a first observation can be a transition.
-/

namespace Apanel

variable {F : Type} [Arith F] [LinearOrder (IndicatorRequest F)] [LinearOrder (Target F)]

/-! ## The recorder -/

/-- The state of the recorder after an observation. -/
def recordStep (prior : Option StateEntry) (o : Observation) : Option StateEntry :=
  some (timelineRecorder.step prior o).1

theorem run_recordStep (prior : Option StateEntry) (os : List Observation) :
    run recordStep prior os = timelineRecorder.final prior os := by
  induction os generalizing prior with
  | nil => rfl
  | cons o os ih => exact ih _

/-- The recorder enters a state on an observation if and only if it is a transition. -/
def EntersOnTransition (prior : Option StateEntry) (o : Observation) : Prop :=
  observationKind prior o = some .enter ↔ o.transition

theorem observationKind_eq_enter {prior : Option StateEntry} {o : Observation} :
    observationKind prior o = some .enter ↔
      ∃ entry, prior = some entry ∧ entry.status ≠ .active ∧ o.status = .active ∧
        (entry.status = .unknown → o.transition) := by
  cases prior with
  | none => simp [observationKind]
  | some entry =>
    simp only [observationKind, Option.some.injEq, exists_eq_left']
    cases hentry : entry.status <;> cases ho : o.status <;> simp

/-- An observation that is not active enters nothing. -/
theorem entersOnTransition_of_ne {prior : Option StateEntry} {o : Observation}
    (hstatus : o.status ≠ .active) (htransition : o.transition = false) :
    EntersOnTransition prior o := by
  rw [EntersOnTransition, observationKind_eq_enter, htransition]
  exact iff_of_false (fun ⟨_, _, _, hactive, _⟩ => hstatus hactive) Bool.false_ne_true

/-! ## The rows of a history -/

/-- Every state that is active on a date is compared with the snapshot its own target has on the
previous date. -/
def History.OwnPrevious (h : History F) (day : Date) : Prop :=
  ∀ item ∈ h.items day, ∀ previousDate ∈ h.previousDate day, ∀ previous ∈ item.previous,
    ∀ signal ∈ (evaluateSignal item.definition item.current previous (h.close day)
      (h.close previousDate)).toOption, signal.active →
    ∃ own ∈ h.items previousDate, own.target = item.target ∧ previous.values = own.current.values

instance [DecidableEq F] (h : History F) (day : Date) : Decidable (h.OwnPrevious day) :=
  inferInstanceAs (Decidable (∀ item ∈ h.items day, ∀ previousDate ∈ h.previousDate day,
    ∀ previous ∈ item.previous, ∀ signal ∈ (evaluateSignal item.definition item.current previous
      (h.close day) (h.close previousDate)).toOption, signal.active →
    ∃ own ∈ h.items previousDate, own.target = item.target ∧ previous.values = own.current.values))

/-- The rows computed for the given dates of a history, however their windows were read. -/
structure Computed (h : History F) (dates : List Date) (rows : List (StateRow F)) : Prop where
  order : InDateOrder rows
  dated : ∀ row ∈ rows, row.tradeDate ∈ dates
  complete : ∀ day ∈ dates, ∀ item ∈ h.items day,
    ∃ row ∈ rows, row.tradeDate = day ∧ row.target = item.target
  closed : ∀ row ∈ rows, h.previousDate row.tradeDate = none → row.status = .unknown
  inactive : ∀ row ∈ rows, row.status = .inactive →
    ∃ item ∈ h.items row.tradeDate, item.target = row.target ∧
      ∃ previous price signal, evaluateSignal item.definition item.current previous
        (h.close row.tradeDate) price = .ok signal ∧ signal.active = false
  aligned : ∀ target, Always recordStep EntersOnTransition none (observationsOf rows target)

/-- What `calculate` makes of a target on a date, after the given rows. -/
inductive RowOf (h : History F) (day : Date) (rows : List (StateRow F)) (row : StateRow F) : Prop
  | unknown : row.status = .unknown → row.metadata.transition = false → RowOf h day rows row
  | evaluated {item : WorkItem F} {previousDate : Date} {previous : IndicatorSnapshot F}
      {signal : StateSignal} :
    item ∈ h.items day → item.target = row.target → h.previousDate day = some previousDate →
    item.previous = some previous →
    evaluateSignal item.definition item.current previous (h.close day) (h.close previousDate) =
      .ok signal →
    row.status = (if signal.active then .active else .inactive) →
    (row.metadata.transition → signal.active) →
    (∀ prior ∈ rows, prior.tradeDate = previousDate → prior.target = row.target →
      row.metadata.transition = (signal.active && signal.edge && decide (prior.status ≠ .active) &&
        (item.definition.mode = .edge || prior.status = .inactive))) →
    RowOf h day rows row

theorem Computed.empty (h : History F) : Computed h [] [] where
  order _ := .nil
  dated := List.forall_mem_nil _
  complete := List.forall_mem_nil _
  closed := List.forall_mem_nil _
  inactive := List.forall_mem_nil _
  aligned _ := trivial

theorem Computed.congr {h h' : History F} {dates : List Date} {rows : List (StateRow F)}
    (hc : Computed h dates rows) (hagree : ∀ day ∈ dates, h.AgreeUpTo h' day) :
    Computed h' dates rows where
  order := hc.order
  dated := hc.dated
  complete day hday := (hagree day hday).items_eq ▸ hc.complete day hday
  closed row hrow := (hagree _ (hc.dated row hrow)).previousDate_eq ▸ hc.closed row hrow
  inactive row hrow := by
    have hday := hagree _ (hc.dated row hrow)
    rw [← hday.items_eq, ← hday.close_eq]
    exact hc.inactive row hrow
  aligned := hc.aligned

/-- The rows before a start are those of the dates before it. -/
theorem Computed.before {h : History F} {dates : List Date} {rows : List (StateRow F)}
    (hc : Computed h dates rows) (start : Option Date) :
    Computed h (datesBefore dates start) (rowsBefore rows start) where
  order target := by
    rw [rowsBefore, List.filter_comm]
    exact (hc.order target).filter _
  dated row hrow := by
    obtain ⟨hrow, hbefore⟩ := List.mem_filter.mp hrow
    exact List.mem_filter.mpr ⟨hc.dated row hrow, hbefore⟩
  complete day hday item hitem := by
    obtain ⟨hday, hbefore⟩ := List.mem_filter.mp hday
    obtain ⟨row, hrow, rfl, htarget⟩ := hc.complete day hday item hitem
    exact ⟨row, List.mem_filter.mpr ⟨hrow, hbefore⟩, rfl, htarget⟩
  closed row hrow := hc.closed row (List.mem_of_mem_filter hrow)
  inactive row hrow := hc.inactive row (List.mem_of_mem_filter hrow)
  aligned target := by
    have hsplit := filter_append_filter_not (before_downward start)
      (hc.order.observationsOf_sorted target)
    have haligned := hc.aligned target
    rw [← hsplit] at haligned
    rw [rowsBefore, observationsOf_filter rows fun day => !start.all (· ≤ day)]
    exact (always_append.mp haligned).1

/-- The definitions of two targets with one code are the same. -/
theorem History.definition_eq {h : History F} {day day' : Date} {item item' : WorkItem F}
    (hitem : item ∈ h.items day) (hitem' : item' ∈ h.items day')
    (htarget : item.target = item'.target) : item.definition = item'.definition :=
  List.inj_on_of_nodup_map stateDefinitions_codes_nodup (History.definition_of_mem_items hitem)
    (History.definition_of_mem_items hitem') (congrArg Target.code htarget)

/-- A recorded target shows the status it was last observed with, or nothing since. -/
theorem Computed.final_status {h : History F} {dates : List Date} {rows : List (StateRow F)}
    (hc : Computed h dates rows) {day previousDate : Date} (hlast : ∀ d ∈ dates, d < day)
    (hprevious : h.previousDate day = some previousDate) {prior : StateRow F} (hprior : prior ∈ rows)
    (hdate : prior.tradeDate = previousDate) :
    ∃ entry, timelineRecorder.final none (observationsOf rows prior.target) = some entry ∧
      (entry.status = prior.status ∨ entry.status = .unknown) := by
  have hmem : prior.observation ∈ observationsOf rows prior.target :=
    mem_observationsOf.mpr ⟨prior, hprior, rfl, rfl⟩
  obtain ⟨entry, hentry⟩ :=
    timelineRecorder.exists_final_of_ne_nil none (List.ne_nil_of_mem hmem)
  have hview := timelineRecorder.final_view StateEntry.status Observation.status
    observationEntry_status none (observationsOf rows prior.target)
  obtain ⟨last, hlastObs⟩ := Option.ne_none_iff_exists'.mp
    (mt List.getLast?_eq_none_iff.mp (List.ne_nil_of_mem hmem))
  rw [hentry, hlastObs] at hview
  have hstatus : entry.status = last.status := Option.some.inj hview
  refine ⟨entry, hentry, ?_⟩
  have hsorted := hc.order.observationsOf_sorted prior.target
  have hge : previousDate ≤ last.date := hdate ▸ le_of_getLast? hsorted hlastObs hmem
  obtain ⟨row, hrow, htarget, rfl⟩ := mem_observationsOf.mp (List.mem_of_getLast? hlastObs)
  rcases hge.eq_or_lt with heq | hgt
  · -- the last observation is that of the previous date
    left
    have hsame : row.observation = prior.observation :=
      eq_of_key_eq hsorted (List.mem_of_getLast? hlastObs) hmem (heq.symm.trans hdate.symm)
    rw [hstatus, hsame]
    rfl
  · -- the days since the previous date are closed
    right
    rw [hstatus]
    refine hc.closed row hrow ?_
    have hclosed := (Calendar.previousOpenDate_eq_some.mp hprevious).2.2.2 row.tradeDate hgt
      (hlast _ (hc.dated row hrow))
    cases hp : h.previousDate row.tradeDate with
    | none => rfl
    | some p =>
      have hopen := (Calendar.previousOpenDate_eq_some.mp hp).1
      rw [hclosed] at hopen
      cases hopen

/-- A row is entered if and only if it is a transition. -/
theorem Computed.enters {h : History F} {dates : List Date} {rows : List (StateRow F)}
    (hc : Computed h dates rows) {day : Date} (hlast : ∀ d ∈ dates, d < day)
    (hread : ∀ previousDate, h.previousDate day = some previousDate →
      previousDate ∈ h.snapshots.keys → previousDate ∈ dates)
    (hown : h.OwnPrevious day) {row : StateRow F} (hrow : RowOf h day rows row) :
    EntersOnTransition (timelineRecorder.final none (observationsOf rows row.target))
      row.observation := by
  cases hrow with
  | unknown hstatus htransition =>
    exact entersOnTransition_of_ne (by rw [StateRow.observation, hstatus]; nofun) htransition
  | @evaluated item previousDate previous signal hitem htarget hprevious hsnapshot hsignal hstatus
      hactive htransition =>
    cases hsig : signal.active with
    | false =>
      rw [hsig] at hstatus hactive
      refine entersOnTransition_of_ne (by rw [StateRow.observation, hstatus]; nofun) ?_
      exact Bool.eq_false_iff.mpr fun h => Bool.false_ne_true (hactive h)
    | true =>
      obtain ⟨own, hownItem, hownTarget, hvalues⟩ :=
        hown item hitem previousDate hprevious previous hsnapshot signal (by rw [hsignal]; rfl) hsig
      have hstored := Pass.stored_of_previous hitem hprevious (by rw [hsnapshot]; rfl)
      obtain ⟨prior, hprior, hdate, hpriorTarget⟩ :=
        hc.complete previousDate (hread _ hprevious hstored) own hownItem
      have hsame : prior.target = row.target := hpriorTarget.trans (hownTarget.trans htarget)
      obtain ⟨entry, hentry, hentryStatus⟩ := hc.final_status hlast hprevious hprior hdate
      rw [hsame] at hentry
      have htransition := htransition prior hprior hdate hsame
      rw [hsig] at hstatus htransition
      rw [EntersOnTransition, observationKind_eq_enter, hentry]
      simp only [Option.some.injEq, exists_eq_left', StateRow.observation, hstatus, ↓reduceIte,
        true_and]
      rcases hentryStatus with heq | hunknown
      · cases hpriorStatus : prior.status with
        | active => simp [htransition, heq, hpriorStatus]
        | unknown => simp [heq, hpriorStatus]
        | inactive =>
          -- the crossing of a state that was evaluated as inactive
          obtain ⟨item', hitem', htarget', before, price, inactive, hinactive, hfalse⟩ :=
            hc.inactive prior hprior hpriorStatus
          rw [hdate] at hitem' hinactive
          obtain rfl : item' = own := List.inj_on_of_nodup_map (h.items_nodup previousDate) hitem'
            hownItem (htarget'.trans hpriorTarget)
          rw [History.definition_eq hitem' hitem hownTarget] at hinactive
          have hedge := edge_of_inactive (History.definition_of_mem_items hitem) hinactive hsignal
            hvalues hfalse hsig
          simp [htransition, heq, hpriorStatus, hedge]
      · simp [hunknown]

/-- The rows of the next date of a pass. -/
theorem Computed.append {h : History F} {dates : List Date} {rows : List (StateRow F)}
    (hc : Computed h dates rows) {day : Date} (hlast : ∀ d ∈ dates, d < day)
    (hread : ∀ previousDate, h.previousDate day = some previousDate →
      previousDate ∈ h.snapshots.keys → previousDate ∈ dates)
    (hown : h.OwnPrevious day) {new : List (StateRow F)} (hdate : ∀ row ∈ new, row.tradeDate = day)
    (hnew : ∀ row ∈ new, RowOf h day rows row) (hnodup : (new.map (·.target)).Nodup)
    (hcomplete : ∀ item ∈ h.items day, item.target ∈ new.map (·.target)) :
    Computed h (dates ++ [day]) (rows ++ new) where
  order target := by
    rw [List.filter_append]
    refine List.pairwise_append.mpr ⟨hc.order target, ?_, fun row hrow row' hrow' => ?_⟩
    · refine ((List.pairwise_map.mp hnodup).filter _).imp_of_mem fun ha hb hne => ?_
      have ha := of_decide_eq_true (List.mem_filter.mp ha).2
      have hb := of_decide_eq_true (List.mem_filter.mp hb).2
      exact absurd (ha.trans hb.symm) hne
    · rw [hdate row' (List.mem_of_mem_filter hrow')]
      exact hlast _ (hc.dated row (List.mem_of_mem_filter hrow))
  dated row hrow := by
    rcases List.mem_append.mp hrow with hrow | hrow
    · exact List.mem_append_left _ (hc.dated row hrow)
    · exact List.mem_append_right _ (List.mem_singleton.mpr (hdate row hrow))
  complete d hd item hitem := by
    rcases List.mem_append.mp hd with hd | hd
    · obtain ⟨row, hrow, hspec⟩ := hc.complete d hd item hitem
      exact ⟨row, List.mem_append_left _ hrow, hspec⟩
    · obtain rfl := List.mem_singleton.mp hd
      obtain ⟨row, hrow, htarget⟩ := List.mem_map.mp (hcomplete item hitem)
      exact ⟨row, List.mem_append_right _ hrow, hdate row hrow, htarget⟩
  closed row hrow hnone := by
    rcases List.mem_append.mp hrow with hrow | hrow
    · exact hc.closed row hrow hnone
    rw [hdate row hrow] at hnone
    cases hnew row hrow with
    | unknown hstatus _ => exact hstatus
    | evaluated _ _ hprevious =>
      rw [hnone] at hprevious
      cases hprevious
  inactive row hrow hstatus := by
    rcases List.mem_append.mp hrow with hrow | hrow
    · exact hc.inactive row hrow hstatus
    rw [hdate row hrow]
    cases hnew row hrow with
    | unknown hunknown _ =>
      rw [hunknown] at hstatus
      cases hstatus
    | @evaluated item previousDate previous signal hitem htarget _ _ hsignal hrowStatus =>
      refine ⟨item, hitem, htarget, previous, h.close previousDate, signal, hsignal, ?_⟩
      rw [hrowStatus] at hstatus
      cases hsig : signal.active with
      | false => rfl
      | true =>
        rw [hsig] at hstatus
        cases hstatus
  aligned target := by
    rw [observationsOf_append, always_append, run_recordStep]
    refine ⟨hc.aligned target, ?_⟩
    by_cases hmem : target ∈ new.map (·.target)
    · obtain ⟨row, hrow, rfl⟩ := List.mem_map.mp hmem
      have hone : observationsOf new row.target = [row.observation] := by
        rw [observationsOf, filter_eq_singleton hnodup hrow]
        rfl
      rw [hone]
      exact ⟨hc.enters hlast hread hown (hnew row hrow), trivial⟩
    · have hnone : observationsOf new target = [] := by
        refine List.map_eq_nil_iff.mpr (List.filter_eq_nil_iff.mpr fun row hrow htarget => ?_)
        exact hmem (List.mem_map.mpr ⟨row, hrow, of_decide_eq_true htarget⟩)
      rw [hnone]
      trivial

/-! ## Passes -/

omit [LinearOrder (IndicatorRequest F)] [LinearOrder (Target F)] in
/-- What the row of an iteration says: nothing, or the result of its evaluation. -/
theorem observeItem_spec (day : Date) (previousDate : Option Date) (close : Date → Option F)
    (prior : Option StateStatus) (memory : Option Bool) (item : WorkItem F) :
    let row := (observeItem day previousDate close prior memory item).1
    row.status = .unknown ∧ row.metadata.transition = false ∨
      ∃ date previous signal, previousDate = some date ∧ item.previous = some previous ∧
        evaluateSignal item.definition item.current previous (close day) (close date) = .ok signal ∧
        row.status = (if signal.active then .active else .inactive) ∧
        (row.metadata.transition → signal.active) ∧
        ∀ status, prior = some status →
          row.metadata.transition = (signal.active && signal.edge && decide (status ≠ .active) &&
            (item.definition.mode = .edge || status = .inactive)) := by
  cases previousDate with
  | none => exact .inl ⟨rfl, rfl⟩
  | some date =>
    cases hprevious : item.previous with
    | none => exact .inl (by simp only [observeItem, hprevious]; exact ⟨rfl, rfl⟩)
    | some previous =>
      cases hsignal : evaluateSignal item.definition item.current previous (close day) (close date) with
      | error reason =>
        exact .inl (by simp only [observeItem, hprevious, evaluateState, hsignal]; exact ⟨rfl, rfl⟩)
      | ok signal =>
        refine .inr ⟨date, previous, signal, rfl, rfl, hsignal, ?_⟩
        simp only [observeItem, hprevious, evaluateState, hsignal]
        refine ⟨rfl, fun htransition => ?_, ?_⟩
        · simp only [Bool.and_eq_true] at htransition
          exact htransition.1.1.1
        · rintro status rfl
          cases status <;> simp

/-- A pass over `dates` continues rows computed for the earlier dates of a history. -/
structure Pass.Continues (pass : Pass F) (h : History F) (dates : List Date)
    (old : List (StateRow F)) : Prop where
  filter : pass.filter = {}
  previousDate (day) : pass.calendar.previousOpenDate day = h.previousDate day
  snapshots : ∀ day row, pass.snapshots.get? day = some row →
    h.snapshots.get? day = some row ∧ pass.close day = h.close day
  seeds : ∀ day ∈ dates, ∀ previousDate, h.previousDate day = some previousDate →
    previousDate ∈ pass.snapshots.keys → previousDate ∉ dates →
      pass.seedDate = some previousDate ∧ ∀ row ∈ old, row.tradeDate = previousDate →
        (pass.seeds.get? row.target).map (·.status) = some row.status

/-- The loop state of a pass that has continued rows through the dates `done`. -/
structure Pass.Tracked (pass : Pass F) (h : History F) (earlier : List Date)
    (old : List (StateRow F)) (done : List Date) (s : PassState F) : Prop where
  computed (day target status) : s.computed.get? (toLex (day, target)) = some status ↔
    ∃ row ∈ s.rows, row.tradeDate = day ∧ row.target = target ∧ row.status = status
  dated : ∀ row ∈ s.rows, row.tradeDate ∈ done
  rows : Computed h (earlier ++ done) (old ++ s.rows)

namespace Pass

variable {pass : Pass F} {h : History F} {dates earlier done : List Date} {old : List (StateRow F)}
  {s : PassState F} {day : Date} {row : SnapshotRow F}

/-- An iteration with a previous snapshot is an iteration of the history. -/
theorem Continues.mem_items (hcont : pass.Continues h dates old)
    (hrow : pass.snapshots.get? day = some row) {item : WorkItem F} (hitem : item ∈ pass.items day row)
    (hsome : item.previous.isSome) :
    item ∈ h.items day ∧ ∃ previousDate, h.previousDate day = some previousDate ∧
      previousDate ∈ pass.snapshots.keys := by
  rw [Pass.items, hcont.filter, hcont.previousDate] at hitem
  cases hread : (h.previousDate day).bind pass.snapshots.get? with
  | none =>
    rw [hread] at hitem
    rw [previous_eq_none_of_mem_workItems hitem] at hsome
    cases hsome
  | some previous =>
    obtain ⟨previousDate, hprevious, hstored⟩ := Option.bind_eq_some_iff.mp hread
    rw [hread] at hitem
    refine ⟨?_, previousDate, hprevious, Table.mem_keys.mpr ⟨previous, hstored⟩⟩
    rw [History.items, (hcont.snapshots day row hrow).1, hprevious, Option.bind_some,
      (hcont.snapshots _ _ hstored).1]
    exact hitem

theorem Continues.mem_items_targets (hcont : pass.Continues h dates old)
    (hrow : pass.snapshots.get? day = some row) {target : Target F} :
    target ∈ (pass.items day row).map (·.target) ↔ target ∈ (h.items day).map (·.target) := by
  rw [Pass.items, hcont.filter, mem_workItems_targets, History.mem_items_targets,
    (hcont.snapshots day row hrow).1]
  simp

theorem Continues.items_nodup (hcont : pass.Continues h dates old) (day : Date)
    (row : SnapshotRow F) : ((pass.items day row).map (·.target)).Nodup := by
  rw [Pass.items, hcont.filter]
  exact workItems_nodup row _

/-- The prior status of an iteration is that of the row at its previous date. -/
theorem Tracked.priorStatus_eq (hs : pass.Tracked h earlier old done s)
    (hcont : pass.Continues h dates old) (hday : day ∈ dates)
    (hdone : ∀ d ∈ done, d ∈ dates) (hearlier : ∀ d ∈ earlier, d ∉ dates)
    (hold : ∀ row ∈ old, row.tradeDate ∈ earlier) {previousDate : Date}
    (hprevious : h.previousDate day = some previousDate)
    (hstored : previousDate ∈ pass.snapshots.keys) {prior : StateRow F}
    (hprior : prior ∈ old ++ s.rows) (hdate : prior.tradeDate = previousDate) :
    pass.priorStatus s (some previousDate) prior.target = some prior.status := by
  rw [Pass.priorStatus]
  rcases List.mem_append.mp hprior with hprior | hprior
  · have hmem := hold prior hprior
    have hnot := hearlier _ hmem
    have hnone : s.computed.get? (toLex (previousDate, prior.target)) = none := by
      refine Option.eq_none_iff_forall_ne_some.mpr fun status hstatus => ?_
      obtain ⟨row, hrow, hrowDate, -, -⟩ := (hs.computed _ _ _).mp hstatus
      have hmem := hdone _ (hs.dated row hrow)
      rw [hrowDate, ← hdate] at hmem
      exact hnot hmem
    obtain ⟨hseed, hseeds⟩ := hcont.seeds day hday previousDate hprevious hstored (hdate ▸ hnot)
    rw [hnone, Option.none_or, if_pos hseed]
    exact hseeds prior hprior hdate
  · rw [(hs.computed _ _ _).mpr ⟨prior, hprior, hdate, rfl, rfl⟩]
    rfl

/-- The loop over one date continues the rows with those of the date. -/
theorem Tracked.step (hs : pass.Tracked h earlier old done s) (hcont : pass.Continues h dates old)
    (hrow : pass.snapshots.get? day = some row) (hday : day ∈ dates)
    (hdone : ∀ d ∈ done, d ∈ dates) (hearlier : ∀ d ∈ earlier, d ∉ dates)
    (hold : ∀ row ∈ old, row.tradeDate ∈ earlier) (hlast : ∀ d ∈ earlier ++ done, d < day)
    (hread : ∀ previousDate, h.previousDate day = some previousDate →
      previousDate ∈ h.snapshots.keys → previousDate ∈ earlier ++ done)
    (hown : h.OwnPrevious day) :
    pass.Tracked h earlier old (done ++ [day]) (pass.step s day row) := by
  set present := (pass.items day row).map fun item =>
    (observeItem day (pass.calendar.previousOpenDate day) pass.close
      (pass.priorStatus s (pass.calendar.previousOpenDate day) item.target)
      (s.memory.get? item.target) item).1 with hpresent
  set missing := (s.known.keys.filter fun target => target ∉ present.map (·.target)).map
    (missingRow day) with hmissing
  have htargets : present.map (·.target) = (pass.items day row).map (·.target) := by
    rw [hpresent, List.map_map]
    exact List.map_congr_left fun item _ => (observeItem_target ..).1
  have hmissingTargets : missing.map (·.target) =
      s.known.keys.filter fun target => target ∉ present.map (·.target) := by
    rw [hmissing, List.map_map]
    exact List.map_id _
  have hstep : pass.step s day row =
      { computed := s.computed.insertMany <|
          (present ++ missing).map fun row => (toLex (day, row.target), row.status)
        memory := (pass.step s day row).memory
        known := (pass.step s day row).known
        rows := s.rows ++ (present ++ missing) } := by
    simp only [Pass.step, List.map_map, Function.comp_def, hmissing, hpresent, List.append_assoc]
  have hdate : ∀ r ∈ present ++ missing, r.tradeDate = day := by
    intro r hr
    rcases List.mem_append.mp hr with hr | hr
    · obtain ⟨item, -, rfl⟩ := List.mem_map.mp hr
      exact (observeItem_target ..).2
    · obtain ⟨target, -, rfl⟩ := List.mem_map.mp hr
      rfl
  have hnodup : ((present ++ missing).map (·.target)).Nodup := by
    rw [List.map_append, hmissingTargets]
    refine List.Nodup.append (htargets ▸ hcont.items_nodup day row)
      (((Table.keys_sorted _).imp ne_of_lt).filter _) fun target hmem hmem' => ?_
    exact of_decide_eq_true (List.mem_filter.mp hmem').2 hmem
  have hnew : ∀ r ∈ present ++ missing, RowOf h day (old ++ s.rows) r := by
    intro r hr
    rcases List.mem_append.mp hr with hr | hr
    swap
    · obtain ⟨target, -, rfl⟩ := List.mem_map.mp hr
      exact .unknown rfl rfl
    obtain ⟨item, hitem, rfl⟩ := List.mem_map.mp hr
    rcases observeItem_spec day (pass.calendar.previousOpenDate day) pass.close
        (pass.priorStatus s (pass.calendar.previousOpenDate day) item.target)
        (s.memory.get? item.target) item with
      ⟨hunknown, htransition⟩ | ⟨previousDate, previous, signal, hprevious, hsnapshot, hsignal,
        hstatus, hactive, htransition⟩
    · exact .unknown hunknown htransition
    obtain ⟨hmem, previousDate', hprevious', hstored⟩ :=
      hcont.mem_items hrow hitem (by rw [hsnapshot]; rfl)
    rw [hcont.previousDate] at hprevious
    obtain rfl : previousDate' = previousDate := Option.some.inj (hprevious'.symm.trans hprevious)
    obtain ⟨previousRow, hpreviousRow⟩ := Table.mem_keys.mp hstored
    rw [(hcont.snapshots day row hrow).2, (hcont.snapshots _ _ hpreviousRow).2] at hsignal
    refine .evaluated hmem (observeItem_target ..).1.symm hprevious hsnapshot hsignal hstatus hactive
      fun prior hprior hpriorDate hpriorTarget => htransition prior.status ?_
    rw [(observeItem_target ..).1] at hpriorTarget
    rw [hcont.previousDate, hprevious, ← hpriorTarget]
    exact hs.priorStatus_eq hcont hday hdone hearlier hold hprevious hstored hprior hpriorDate
  have hcomplete : ∀ item ∈ h.items day, item.target ∈ (present ++ missing).map (·.target) := by
    intro item hitem
    rw [List.map_append, htargets]
    exact List.mem_append_left _
      ((hcont.mem_items_targets hrow).mpr (List.mem_map_of_mem hitem))
  rw [hstep]
  refine { computed := fun d target status => ?_, dated := ?_, rows := ?_ }
  · have hdistinct : ((present ++ missing).map fun row =>
        (toLex (day, row.target), row.status)).Pairwise fun r s => r.1 ≠ s.1 := by
      refine List.pairwise_map.mpr ((List.pairwise_map.mp hnodup).imp fun hne heq => ?_)
      exact hne (Prod.mk.inj (toLex.injective heq)).2
    rw [Table.get?_insertMany hdistinct, hs.computed]
    have hkey (status : StateStatus) : (toLex (d, target), status) ∈
        ((present ++ missing).map fun row => (toLex (day, row.target), row.status)) ↔
        ∃ row ∈ present ++ missing, row.tradeDate = d ∧ row.target = target ∧
          row.status = status := by
      rw [List.mem_map]
      refine exists_congr fun r => and_congr_right fun hr => ?_
      rw [hdate r hr, Prod.mk.injEq, toLex_inj, Prod.mk.injEq, and_assoc]
    constructor
    · rintro (hmem | ⟨-, r, hr, hspec⟩)
      · obtain ⟨r, hr, hspec⟩ := (hkey status).mp hmem
        exact ⟨r, List.mem_append_right _ hr, hspec⟩
      · exact ⟨r, List.mem_append_left _ hr, hspec⟩
    · rintro ⟨r, hr, hspec⟩
      rcases List.mem_append.mp hr with hr | hr
      · refine .inr ⟨fun y hy => ?_, r, hr, hspec⟩
        obtain ⟨r', hr', hd', -⟩ := (hkey y).mp hy
        have hlt := hlast d (List.mem_append_right _ (hspec.1 ▸ hs.dated r hr))
        rw [← hd', hdate r' hr'] at hlt
        exact lt_irrefl _ hlt
      · exact .inl ((hkey status).mpr ⟨r, hr, hspec⟩)
  · intro r hr
    rcases List.mem_append.mp hr with hr | hr
    · exact List.mem_append_left _ (hs.dated r hr)
    · exact List.mem_append_right _ (List.mem_singleton.mpr (hdate r hr))
  · have happend := hs.rows.append hlast hread hown hdate hnew hnodup hcomplete
    rwa [List.append_assoc, List.append_assoc] at happend

/-- The run lemma: a pass continues the rows of the dates before it with those of its dates. -/
theorem Tracked.run {remaining : List (Date × SnapshotRow F)} {maxRows : Option ℕ} {s' : PassState F}
    (hs : pass.Tracked h earlier old done s)
    (hcont : pass.Continues h (done ++ remaining.map (·.1)) old)
    (hrows : ∀ r ∈ remaining, pass.snapshots.get? r.1 = some r.2)
    (hold : ∀ row ∈ old, row.tradeDate ∈ earlier)
    (hsorted : (earlier ++ (done ++ remaining.map (·.1))).Pairwise (· < ·))
    (hstored : ∀ day ∈ h.snapshots.keys, ∀ r ∈ remaining, day < r.1 →
      day ∈ earlier ++ (done ++ remaining.map (·.1)))
    (hown : ∀ r ∈ remaining, h.OwnPrevious r.1) (hrun : pass.run maxRows s remaining = .ok s') :
    pass.Tracked h earlier old (done ++ remaining.map (·.1)) s' := by
  induction remaining generalizing done s with
  | nil =>
    cases hrun
    simpa using hs
  | cons r remaining ih =>
    obtain ⟨day, row⟩ := r
    obtain ⟨hrow, hrows⟩ := List.forall_mem_cons.mp hrows
    obtain ⟨hownDay, hown⟩ := List.forall_mem_cons.mp hown
    simp only [Pass.run] at hrun
    split at hrun
    · cases hrun
    have hassoc : done ++ ((day, row) :: remaining).map (·.1) =
        (done ++ [day]) ++ remaining.map (·.1) := by simp
    rw [hassoc] at hcont hsorted hstored ⊢
    have hsplit := hsorted
    rw [← List.append_assoc, ← List.append_assoc] at hsplit
    obtain ⟨hbelow, -, hlater⟩ := List.pairwise_append.mp hsplit
    have hlast : ∀ d ∈ earlier ++ done, d < day := fun d hd =>
      (List.pairwise_append.mp hbelow).2.2 d hd day (List.mem_singleton_self _)
    have hread (previousDate : Date) (hprevious : h.previousDate day = some previousDate)
        (hmem : previousDate ∈ h.snapshots.keys) : previousDate ∈ earlier ++ done := by
      have hlt := Calendar.previousOpenDate_lt hprevious
      have hcovered := hstored previousDate hmem (day, row) List.mem_cons_self hlt
      rw [← List.append_assoc, ← List.append_assoc] at hcovered
      rcases List.mem_append.mp hcovered with hcovered | hcovered
      · rcases List.mem_append.mp hcovered with hcovered | hcovered
        · exact hcovered
        · rw [List.mem_singleton.mp hcovered] at hlt
          exact absurd hlt (lt_irrefl _)
      · exact absurd hlt (hlater day (by simp) previousDate hcovered).asymm
    have hdisjoint : ∀ d ∈ earlier, d ∉ done ++ [day] ++ remaining.map (·.1) := fun d hd hd' =>
      lt_irrefl _ ((List.pairwise_append.mp hsorted).2.2 d hd d hd')
    exact ih (hs.step hcont hrow (by simp) (fun d hd => by simp [hd]) hdisjoint hold hlast hread
      hownDay) hcont hrows hsorted (fun d hd r hr => hstored d hd r (List.mem_cons_of_mem _ hr))
      hown hrun

end Pass

namespace StateInput

variable {input : StateInput F} {persistFrom : Option Date} {last : Date} {rows : List (StateRow F)}

omit [Arith F] in
/-- The first date of a pass that reads a date before its start. -/
theorem exists_seedDate_le {start day : Date}
    (hread : day ∈ (input.pass {} (some start) (some last)).snapshots.keys) (hlt : day < start) :
    ∃ first seedDate, (input.snapshots.window (some start) (some last)).minKey? = some first ∧
      input.history.previousDate first = some seedDate ∧ seedDate ≤ day := by
  have hwindow : (input.pass {} (some start) (some last)).snapshots = input.snapshots.window
      (((input.snapshots.window (some start) (some last)).minKey?.bind
        input.calendar.previousOpenDate).or (some start)) (some last) := rfl
  rw [hwindow, Table.mem_keys_window] at hread
  cases hfirst : (input.snapshots.window (some start) (some last)).minKey? with
  | none =>
    rw [hfirst] at hread
    exact absurd (by simpa using hread.2.1) (not_le.mpr hlt)
  | some first =>
    rw [hfirst, Option.bind_some] at hread
    cases hseed : input.calendar.previousOpenDate first with
    | none =>
      rw [hseed] at hread
      exact absurd (by simpa using hread.2.1) (not_le.mpr hlt)
    | some seedDate =>
      rw [hseed] at hread
      exact ⟨first, seedDate, rfl, hseed, by simpa using hread.2.1⟩

omit [Arith F] in
/-- The dates of a pass are those of its history from the start. -/
theorem pass_keys (input : StateInput F) (persistFrom : Option Date) (last : Date) :
    ((input.pass {} persistFrom (some last)).snapshots.window persistFrom none).keys =
      (input.historyUpTo last).snapshots.keys.filter fun day => persistFrom.all (· ≤ day) := by
  refine eq_of_mem_iff (Table.keys_sorted _) ((Table.keys_sorted _).filter _) fun day => ?_
  have hwindow : (input.pass {} persistFrom (some last)).snapshots = input.snapshots.window
      ((input.pass {} persistFrom (some last)).seedDate.or persistFrom) (some last) := rfl
  rw [hwindow, Table.mem_keys_window, Table.mem_keys_window, List.mem_filter,
    show (input.historyUpTo last).snapshots = input.snapshots.upTo last from rfl,
    Table.mem_keys_upTo]
  simp only [Option.all_some, decide_eq_true_eq, Option.all_none, and_true]
  constructor
  · rintro ⟨⟨hday, -, hlast⟩, hstart⟩
    exact ⟨⟨hday, hlast⟩, hstart⟩
  · rintro ⟨⟨hday, hlast⟩, hstart⟩
    refine ⟨⟨hday, ?_, hlast⟩, hstart⟩
    cases persistFrom with
    | none => rfl
    | some start =>
      exact readFrom_le_of_mem {} (History.mem_datesFrom.mpr ⟨hday, by simpa using hstart, hlast⟩)

omit [Arith F] in
/-- The seed of a target that has a row on the seed date is the status of the row. -/
theorem seedAt_status (hlogged : Logged rows input.events) (horder : InDateOrder rows)
    {row : StateRow F} (hrow : row ∈ rows) :
    ((seedAt input.events row.tradeDate).get? row.target).map (·.status) = some row.status := by
  rw [hlogged.seed_status horder]
  have hmem : row.observation ∈ (observationsOf rows row.target).filter (·.date ≤ row.tradeDate) :=
    List.mem_filter.mpr ⟨mem_observationsOf.mpr ⟨row, hrow, rfl, rfl⟩, decide_eq_true le_rfl⟩
  have hsorted := (horder.observationsOf_sorted row.target).filter fun o => o.date ≤ row.tradeDate
  obtain ⟨o, ho⟩ := Option.ne_none_iff_exists'.mp
    (mt List.getLast?_eq_none_iff.mp (List.ne_nil_of_mem hmem))
  have hge := le_of_getLast? hsorted ho hmem
  have hle : o.date ≤ row.tradeDate := by
    simpa using (List.mem_filter.mp (List.mem_of_getLast? ho)).2
  have heq := eq_of_key_eq hsorted (List.mem_of_getLast? ho) hmem (le_antisymm hle hge)
  rw [ho, heq]
  rfl

theorem pass_continues (hlogged : Logged rows input.events) (horder : InDateOrder rows)
    (hthrough : persistFrom.isSome → input.stateThrough.isSome) :
    (input.pass {} persistFrom (some last)).Continues (input.historyUpTo last)
      ((input.pass {} persistFrom (some last)).snapshots.window persistFrom none).keys
      (rowsBefore rows persistFrom) where
  filter := rfl
  previousDate _ := rfl
  snapshots day row hrow := by
    have hget : (input.pass {} persistFrom (some last)).snapshots.get? day = _ :=
      Table.get?_window input.snapshots
        ((input.pass {} persistFrom (some last)).seedDate.or persistFrom) (some last) day
    rw [hrow] at hget
    split at hget
    · next hread =>
      have hlast : day ≤ last := by simpa using hread.2
      exact ⟨((Table.get?_upTo ..).trans (if_pos hlast)).trans hget.symm, pass_close hread.1 hlast⟩
    · cases hget
  seeds day hday previousDate hprevious hstored hnot := by
    rw [pass_keys, List.mem_filter] at hday hnot
    obtain ⟨hday, hstart⟩ := hday
    have hmem : previousDate ∈ (input.historyUpTo last).snapshots.keys := by
      have hread := (Table.mem_keys_window.mp hstored)
      exact Table.mem_keys_upTo.mpr ⟨hread.1, by simpa using hread.2.2⟩
    cases persistFrom with
    | none => exact absurd ⟨hmem, rfl⟩ hnot
    | some start =>
      have hlt : previousDate < start := by simpa [hmem] using hnot
      obtain ⟨first, seedDate, hfirst, hseed, hle⟩ := exists_seedDate_le hstored hlt
      have hfrom : day ∈ input.history.datesFrom start last := by
        obtain ⟨hday, hlast⟩ := Table.mem_keys_upTo.mp hday
        exact History.mem_datesFrom.mpr ⟨hday, by simpa using hstart, hlast⟩
      -- only the first date has its predecessor before the start
      obtain rfl : first = day := by
        by_contra hne
        have hopen := (Calendar.previousOpenDate_eq_some.mp hseed).1
        have hge := Calendar.le_previousOpenDate hprevious hopen
          (lt_of_le_of_ne (Table.minKey?_le hfirst hfrom) hne)
        have hfirstStart := (History.mem_datesFrom.mp (first_mem hfirst)).2.1
        order
      obtain rfl : seedDate = previousDate := Option.some.inj (hseed.symm.trans hprevious)
      refine ⟨(seedDate_eq hfirst).trans hprevious, fun row hrow hdate => ?_⟩
      rw [get?_seeds (hthrough rfl) hfirst hprevious, if_pos (by rfl), ← hdate]
      exact seedAt_status hlogged horder (List.mem_of_mem_filter hrow)

end StateInput

/-- The dates from a start, as `datesBefore` are those before it. -/
theorem datesBefore_append {dates : List Date} (hdates : dates.Pairwise (· < ·))
    (start : Option Date) :
    datesBefore dates start ++ dates.filter (fun day => start.all (· ≤ day)) = dates := by
  have hsplit : datesBefore dates start ++ dates.filter (fun day => !!start.all (· ≤ day)) = dates :=
    filter_append_filter_not (before_downward start) hdates
  simpa only [Bool.not_not] using hsplit

/-- A pass computes the rows of its dates. -/
theorem Computed.observations {input : StateInput F} {persistFrom : Option Date} {last : Date}
    {rows rows' : List (StateRow F)} (hlogged : Logged rows input.events) (horder : InDateOrder rows)
    (hthrough : persistFrom.isSome → input.stateThrough.isSome)
    (hc : Computed (input.historyUpTo last)
      (datesBefore (input.historyUpTo last).snapshots.keys persistFrom) (rowsBefore rows persistFrom))
    (hown : ∀ day ∈ (input.historyUpTo last).snapshots.keys, persistFrom.all (· ≤ day) →
      (input.historyUpTo last).OwnPrevious day)
    (hok : input.observations {} persistFrom (some last) none = .ok rows') :
    Computed (input.historyUpTo last) (input.historyUpTo last).snapshots.keys
        (rowsBefore rows persistFrom ++ rows') ∧
      ∀ row ∈ rows', persistFrom.all (· ≤ row.tradeDate) := by
  set h := input.historyUpTo last with hh
  set pass := input.pass {} persistFrom (some last) with hpass
  set remaining := (pass.snapshots.window persistFrom none).rows with hremaining
  have hkeys : remaining.map (·.1) = h.snapshots.keys.filter fun day => persistFrom.all (· ≤ day) :=
    input.pass_keys persistFrom last
  have hsorted : h.snapshots.keys.Pairwise (· < ·) := Table.keys_sorted _
  have hall := datesBefore_append hsorted persistFrom
  rw [StateInput.observations] at hok
  split at hok
  · cases hok
  obtain ⟨s, hrun, rfl⟩ := Except.map_eq_ok.mp hok
  have hcont : pass.Continues h (remaining.map (·.1)) (rowsBefore rows persistFrom) :=
    StateInput.pass_continues hlogged horder hthrough
  have hinitial : pass.Tracked h (datesBefore h.snapshots.keys persistFrom)
      (rowsBefore rows persistFrom) []
      { computed := ∅, memory := ∅, known := pass.seeds.filterMap fun _ _ => some (), rows := [] } :=
    { computed := fun _ _ _ => by simp
      dated := List.forall_mem_nil _
      rows := by simpa using hc }
  have htracked : pass.Tracked h (datesBefore h.snapshots.keys persistFrom)
      (rowsBefore rows persistFrom) ([] ++ remaining.map (·.1)) s :=
    hinitial.run hcont (fun r hr => ?_) hc.dated ?_ (fun day hday r hr _ => ?_) (fun r hr => ?_) hrun
  · have hrows := htracked.rows
    rw [List.nil_append, hkeys, hall] at hrows
    refine ⟨hrows, fun row hrow => ?_⟩
    have hdate := htracked.dated row hrow
    rw [List.nil_append, hkeys] at hdate
    exact (List.mem_filter.mp hdate).2
  · have hget := Table.get?_eq_some.mpr hr
    rw [Table.get?_window] at hget
    split at hget
    · exact hget
    · cases hget
  · rw [List.nil_append, hkeys, hall]
    exact hsorted
  · rw [List.nil_append, hkeys, hall]
    exact hday
  · have hmem : r.1 ∈ remaining.map (·.1) := List.mem_map_of_mem hr
    rw [hkeys, List.mem_filter] at hmem
    exact hown r.1 hmem.1 hmem.2

/-! ## Runs of passes -/

variable [DecidableEq F]

/-- The runs of one full pass and any number of partial passes, each from a date before which the
data is that of the pass before. `keeps` restricts the dates a pass computes. A run leaves the
history it was computed from, the store, and for every date the rows computed for it last. -/
inductive PassesOf (keeps : History F → Date → Prop) :
    History F → AnalysisStore F → List (StateRow F) → Prop
  | full {calendar store last n store' rows} :
    store.timeline = { events := [], current := ∅ } →
    (store.stateInput calendar).observations {} none (some last) none = .ok rows →
    rebuildStates calendar store none last = .ok (n, store') →
    (∀ day ∈ ((store.stateInput calendar).historyUpTo last).snapshots.keys,
      keeps ((store.stateInput calendar).historyUpTo last) day) →
    PassesOf keeps ((store.stateInput calendar).historyUpTo last) store' rows
  | resumed {h store rows calendar snapshots bars sourceRevision start last n store' rows'} :
    PassesOf keeps h store rows →
    (∀ day < start, h.AgreeUpTo
      (((store.withData snapshots bars sourceRevision).stateInput calendar).historyUpTo last) day) →
    ((store.withData snapshots bars sourceRevision).stateInput calendar).observations {} (some start)
      (some last) none = .ok rows' →
    rebuildStates calendar (store.withData snapshots bars sourceRevision) (some start) last =
      .ok (n, store') →
    (∀ day ∈ (((store.withData snapshots bars sourceRevision).stateInput calendar).historyUpTo
        last).snapshots.keys, start ≤ day →
      keeps (((store.withData snapshots bars sourceRevision).stateInput calendar).historyUpTo last)
        day) →
    PassesOf keeps
      (((store.withData snapshots bars sourceRevision).stateInput calendar).historyUpTo last) store'
      (rowsBefore rows (some start) ++ rows')

/-- A timeline and computed rows agree on when a state is entered: there is one row of a target for a
date at most, and an ENTER event exactly where the row is a transition. -/
structure EntersAgree (events : List (StateEvent F)) (rows : List (StateRow F)) : Prop where
  nodup : (rows.map fun row => (row.tradeDate, row.target)).Nodup
  enters : ∀ target day,
    (∃ event ∈ events, event.valid ∧ event.target = target ∧ event.tradeDate = day ∧
      event.kind = .enter) ↔
    ∃ row ∈ rows, row.target = target ∧ row.tradeDate = day ∧ row.metadata.transition

/-- The invariant of a run of passes. -/
structure Passed (h : History F) (store : AnalysisStore F) (rows : List (StateRow F)) : Prop where
  computed : Computed h h.snapshots.keys rows
  logged : Logged rows store.timeline.events
  initialized : store.stream.stateThrough.isSome
  current : ∀ row ∈ rows, ∃ state, store.timeline.current.get? row.target = some state ∧
    row.tradeDate ≤ state.tradeDate

omit [Arith F] [LinearOrder (IndicatorRequest F)] [DecidableEq F] in
theorem mem_validOf {events : List (StateEvent F)} {target : Target F} {day : Date}
    {kind : EventKind} :
    (∃ event ∈ events, event.valid ∧ event.target = target ∧ event.tradeDate = day ∧
      event.kind = kind) ↔ ∃ event ∈ validOf events target, event.date = day ∧ event.kind = kind := by
  simp only [validOf, validEvents, List.mem_map, List.mem_filter, Bool.and_eq_true, decide_eq_true_eq]
  constructor
  · rintro ⟨event, hevent, hvalid, htarget, hdate, hkind⟩
    exact ⟨event.event, ⟨event, ⟨hevent, hvalid, htarget⟩, rfl⟩, hdate, hkind⟩
  · rintro ⟨_, ⟨event, ⟨hevent, hvalid, htarget⟩, rfl⟩, hdate, hkind⟩
    exact ⟨event, hevent, hvalid, htarget, hdate, hkind⟩

omit [DecidableEq F] in
/-- Rows that are entered on their transitions agree with the timeline that logs them. -/
theorem Computed.entersAgree {h : History F} {dates : List Date} {rows : List (StateRow F)}
    (hc : Computed h dates rows) {events : List (StateEvent F)} (hlogged : Logged rows events) :
    EntersAgree events rows where
  nodup := hc.order.nodup
  enters target day := by
    rw [mem_validOf, hlogged target]
    have haligned (done : List Observation) (o : Observation) (rest : List Observation)
        (hsplit : observationsOf rows target = done ++ o :: rest) :
        EntersOnTransition (timelineRecorder.final none done) o := by
      have hall := hc.aligned target
      rw [hsplit, always_append, run_recordStep] at hall
      exact hall.2.1
    constructor
    · rintro ⟨event, hevent, rfl, hkind⟩
      obtain ⟨done, o, rest, hsplit, hstep⟩ := timelineRecorder.mem_log.mp hevent
      obtain ⟨kind, hkindOf, rfl⟩ := Option.map_eq_some_iff.mp hstep
      have hmem : o ∈ observationsOf rows target := by simp [hsplit]
      obtain ⟨row, hrow, htarget, rfl⟩ := mem_observationsOf.mp hmem
      obtain rfl : kind = .enter := hkind
      exact ⟨row, hrow, htarget, rfl, (haligned done _ rest hsplit).mp hkindOf⟩
    · rintro ⟨row, hrow, rfl, rfl, htransition⟩
      obtain ⟨done, rest, hsplit⟩ := List.append_of_mem (mem_observationsOf.mpr ⟨row, hrow, rfl, rfl⟩)
      have henter := (haligned done _ rest hsplit).mpr htransition
      refine ⟨⟨row.tradeDate, .enter, observationEntry (timelineRecorder.final none done)
        row.observation⟩, timelineRecorder.mem_log.mpr ⟨done, _, rest, hsplit, ?_⟩, rfl, rfl⟩
      rw [timelineRecorder_step, henter]
      rfl

omit [Arith F] [LinearOrder (IndicatorRequest F)] in
/-- The current rows after a publication are not older than the rows computed last. -/
theorem publish_current_le {δ : Type} {stream stream' : AnalysisStream δ}
    {timeline timeline' : Timeline F} {rows rows' : List (StateRow F)} {start : Option Date}
    {through : Date} (hlogged : Logged rows timeline.events) (horder : InDateOrder rows)
    (horder' : InDateOrder rows')
    (hcurrent : start.isSome → ∀ row ∈ rows, ∃ state,
      timeline.current.get? row.target = some state ∧ row.tradeDate ≤ state.tradeDate)
    (hnew : ∀ row ∈ rows', start.all (· ≤ row.tradeDate))
    (hpublish : publish stream timeline rows' start through = .ok (stream', timeline')) :
    ∀ row ∈ rowsBefore rows start ++ rows', ∃ state,
      timeline'.current.get? row.target = some state ∧ row.tradeDate ≤ state.tradeDate := by
  intro row hrow
  rw [publish_current hpublish horder' row.target (hlogged.sorted horder row.target)]
  cases hlast : (rows'.filter (·.target = row.target)).getLast? with
  | some last =>
    obtain ⟨hlastMem, hlastTarget⟩ := List.mem_filter.mp (List.mem_of_getLast? hlast)
    have hne : observationsOf rows' row.target ≠ [] :=
      List.ne_nil_of_mem (mem_observationsOf.mpr ⟨last, hlastMem, of_decide_eq_true hlastTarget, rfl⟩)
    obtain ⟨entry, hentry⟩ := timelineRecorder.exists_final_of_ne_nil
      ((keptOf timeline.events start row.target).getLast?.map (·.entry)) hne
    rw [Option.bind_some, hentry]
    refine ⟨last.published stream.sourceRevision entry, rfl, ?_⟩
    change row.tradeDate ≤ last.tradeDate
    rcases List.mem_append.mp hrow with hrow | hrow
    · have hbefore := (List.mem_filter.mp hrow).2
      have hafter := hnew last hlastMem
      cases start with
      | none => simp at hbefore
      | some start =>
        simp only [Option.all_some, Bool.not_eq_true', decide_eq_false_iff_not,
          decide_eq_true_eq] at hbefore hafter
        order
    · exact le_of_getLast? (horder' row.target) hlast (List.mem_filter.mpr ⟨hrow, by simp⟩)
  | none =>
    have hold : row ∈ rowsBefore rows start := by
      refine (List.mem_append.mp hrow).resolve_right fun hrow => ?_
      have hmem : row ∈ rows'.filter (·.target = row.target) := List.mem_filter.mpr ⟨hrow, by simp⟩
      rw [List.getLast?_eq_none_iff.mp hlast] at hmem
      cases hmem
    obtain ⟨hmem, hbefore⟩ := List.mem_filter.mp hold
    cases start with
    | none => simp at hbefore
    | some start => exact hcurrent rfl row hmem

/-- The full pass of a run. -/
theorem Passed.full {calendar : Calendar} {store store' : AnalysisStore F} {last : Date} {n : ℕ}
    {rows : List (StateRow F)} (hempty : store.timeline = { events := [], current := ∅ })
    (hrows : (store.stateInput calendar).observations {} none (some last) none = .ok rows)
    (hrebuild : rebuildStates calendar store none last = .ok (n, store'))
    (hown : ∀ day ∈ ((store.stateInput calendar).historyUpTo last).snapshots.keys,
      ((store.stateInput calendar).historyUpTo last).OwnPrevious day) :
    Passed ((store.stateInput calendar).historyUpTo last) store' rows := by
  obtain ⟨rows', stream, hrows', hpublish, hthrough, -, -⟩ := rebuildStates_eq_ok hrebuild
  rw [ite_self] at hrows' hpublish
  obtain rfl : rows = rows' := Except.ok.inj (hrows.symm.trans hrows')
  have hlogged : Logged ([] : List (StateRow F)) store.timeline.events := by
    rw [hempty]
    exact fun _ => rfl
  have hevents : Logged ([] : List (StateRow F)) (store.stateInput calendar).events := hlogged
  have hnone : datesBefore ((store.stateInput calendar).historyUpTo last).snapshots.keys none = [] :=
    List.filter_eq_nil_iff.mpr fun _ _ => nofun
  have hthroughNone : (none : Option Date).isSome →
      (store.stateInput calendar).stateThrough.isSome := fun h => (Bool.false_ne_true h).elim
  obtain ⟨hcomputed, -⟩ := Computed.observations hevents (fun _ => .nil) hthroughNone
    (hnone ▸ Computed.empty _) (fun day hday _ => hown day hday) hrows
  exact
    { computed := hcomputed
      logged := hlogged.publish (fun _ => .nil) (List.forall_mem_nil _) hcomputed.order hpublish
      initialized := hthrough
      current := publish_current_le hlogged (fun _ => .nil) hcomputed.order
        (fun _ => List.forall_mem_nil _) (fun _ _ => rfl) hpublish }

/-- A partial pass of a run. -/
theorem Passed.resumed {h : History F} {store store' store'' : AnalysisStore F}
    {rows rows' : List (StateRow F)} (hs : Passed h store rows) {calendar : Calendar}
    (htimeline : store'.timeline = store.timeline) (hthrough : store'.stream.stateThrough.isSome)
    {start last : Date} {n : ℕ}
    (hagree : ∀ day < start, h.AgreeUpTo ((store'.stateInput calendar).historyUpTo last) day)
    (hrows : (store'.stateInput calendar).observations {} (some start) (some last) none = .ok rows')
    (hrebuild : rebuildStates calendar store' (some start) last = .ok (n, store''))
    (hown : ∀ day ∈ ((store'.stateInput calendar).historyUpTo last).snapshots.keys, start ≤ day →
      ((store'.stateInput calendar).historyUpTo last).OwnPrevious day) :
    Passed ((store'.stateInput calendar).historyUpTo last) store''
      (rowsBefore rows (some start) ++ rows') := by
  obtain ⟨newRows, stream, hrows', hpublish, hthrough', -, -⟩ := rebuildStates_eq_ok hrebuild
  rw [if_neg (by simp [Option.isSome_iff_ne_none.mp hthrough])] at hrows' hpublish
  obtain rfl : rows' = newRows := Except.ok.inj (hrows.symm.trans hrows')
  set h' := (store'.stateInput calendar).historyUpTo last with hh'
  have hlogged : Logged rows store'.timeline.events := htimeline ▸ hs.logged
  have hevents : Logged rows (store'.stateInput calendar).events := hlogged
  have hlt {day : Date} {dates : List Date} (hday : day ∈ datesBefore dates (some start)) :
      day ∈ dates ∧ day < start := by simpa [datesBefore] using hday
  have hdates : datesBefore h.snapshots.keys (some start) =
      datesBefore h'.snapshots.keys (some start) := by
    refine eq_of_mem_iff ((Table.keys_sorted _).filter _) ((Table.keys_sorted _).filter _)
      fun day => ?_
    constructor
    · intro hday
      refine List.mem_filter.mpr ⟨?_, (List.mem_filter.mp hday).2⟩
      exact ((hagree day (hlt hday).2).mem_keys le_rfl).mp (hlt hday).1
    · intro hday
      refine List.mem_filter.mpr ⟨?_, (List.mem_filter.mp hday).2⟩
      exact ((hagree day (hlt hday).2).mem_keys le_rfl).mpr (hlt hday).1
  have hbefore : Computed h' (datesBefore h'.snapshots.keys (some start))
      (rowsBefore rows (some start)) :=
    hdates ▸ (hs.computed.before (some start)).congr fun day hday => hagree day (hlt hday).2
  obtain ⟨hcomputed, hnew⟩ := Computed.observations hevents hs.computed.order (fun _ => hthrough) hbefore
    (fun day hday hstart => hown day hday (by simpa using hstart)) hrows
  have horder' : InDateOrder rows' := fun target => by
    have hall := hcomputed.order target
    rw [List.filter_append] at hall
    exact (List.pairwise_append.mp hall).2.1
  have hlast : ∀ row ∈ rows, row.tradeDate ≤ last := by
    intro row hrow
    obtain ⟨state, hstate, hle⟩ := hs.current row hrow
    exact hle.trans (Timeline.le_of_previousThrough (publish_eq_ok hpublish).1 (htimeline ▸ hstate))
  exact
    { computed := hcomputed
      logged := hlogged.publish hs.computed.order hlast horder' hpublish
      initialized := hthrough'
      current := publish_current_le hlogged hs.computed.order horder'
        (fun _ => htimeline ▸ hs.current) hnew hpublish }

theorem PassesOf.passed {h : History F} {store : AnalysisStore F} {rows : List (StateRow F)}
    (hrun : PassesOf History.OwnPrevious h store rows) : Passed h store rows := by
  induction hrun with
  | full hempty hrows hrebuild hown => exact .full hempty hrows hrebuild hown
  | @resumed _ store _ _ snapshots bars sourceRevision _ _ _ _ _ _ hagree hrows hrebuild hown ih =>
    have htimeline : (store.withData snapshots bars sourceRevision).timeline = store.timeline := rfl
    exact ih.resumed htimeline ih.initialized hagree hrows hrebuild hown

/-- In a run of passes that compare active states with snapshots of their own targets, the timeline
has an ENTER event exactly where the computed row is a transition. -/
theorem entersAgree_of_passes {h : History F} {store : AnalysisStore F} {rows : List (StateRow F)}
    (hrun : PassesOf History.OwnPrevious h store rows) :
    EntersAgree store.timeline.events rows :=
  hrun.passed.computed.entersAgree hrun.passed.logged

/-- A full pass that does not fail. -/
theorem exists_passes (keeps : History F → Date → Prop) (calendar : Calendar)
    (store : AnalysisStore F) (last : Date) (hempty : store.timeline = { events := [], current := ∅ })
    (hkeeps : ∀ day ∈ ((store.stateInput calendar).historyUpTo last).snapshots.keys,
      keeps ((store.stateInput calendar).historyUpTo last) day)
    (hok : (rebuildStates calendar store none last).toOption.isSome) :
    ∃ n store' rows, PassesOf keeps ((store.stateInput calendar).historyUpTo last) store' rows ∧
      rebuildStates calendar store none last = .ok (n, store') ∧
      (store.stateInput calendar).observations {} none (some last) none = .ok rows := by
  cases hrebuild : rebuildStates calendar store none last with
  | error error =>
    rw [hrebuild] at hok
    cases hok
  | ok result =>
    obtain ⟨n, store'⟩ := result
    obtain ⟨rows, _, hrows, -⟩ := rebuildStates_eq_ok hrebuild
    rw [ite_self] at hrows
    exact ⟨n, store', rows, .full hempty hrows hrebuild hkeeps, rfl, hrows⟩

theorem entersAgree_of_passes_closedDay : ∃ store rows,
    PassesOf History.OwnPrevious
      ((closedDayStore.stateInput closedDayCalendar).historyUpTo 4) store rows ∧
    EntersAgree store.timeline.events rows := by
  obtain ⟨_, store, rows, hrun, -⟩ := exists_passes History.OwnPrevious closedDayCalendar closedDayStore 4
    rfl (by decide +kernel) (by decide +kernel)
  exact ⟨store, rows, hrun, entersAgree_of_passes hrun⟩

/-! ## A variant that appears later than the default

The default KDJ has its first snapshot on day 9, the KDJ of period 10 on day 10. Its first observation
is compared with the default one of the day before: it is a transition, but the first event of its
target is a BASELINE. -/

def kdjRequest (period : Period) : IndicatorRequest Ranged :=
  .kdj period (Period.of 3) (Period.of 3)

def rangeBar (close : ℚ) : DailyBar := ⟨close, 20, 10, close, 0, none⟩

def laterCalendar : Calendar := Table.ofList ((List.range 11).map fun day : ℕ => ((day : ℤ), .opened))

def laterStore : AnalysisStore Ranged :=
  let bars := Table.ofList <|
    (List.range 8).map (fun day : ℕ => ((day : ℤ) + 1, rangeBar 15)) ++
      [(9, rangeBar 12), (10, rangeBar 18)]
  { bars, stream := { sourceRevision := 1, publishedRevision := 1, publishedDemandGeneration := 0 }
    timeline := { events := [], current := ∅ }
    snapshots := match rebuildIndicators ∅ bars
        [kdjRequest (Period.of 9), kdjRequest (Period.of 10)] none none none with
      | .ok (_, snapshots) => snapshots
      | .error _ => ∅ }

def laterTarget : Target Ranged := ⟨.kdjKCrossDUp, .request (kdjRequest (Period.of 10))⟩

theorem not_entersAgree_later : ∃ store rows,
    PassesOf (fun _ _ => True) ((laterStore.stateInput laterCalendar).historyUpTo 10) store rows ∧
      ¬EntersAgree store.timeline.events rows := by
  obtain ⟨n, store, rows, hrun, hrebuild, hrows⟩ := exists_passes (fun _ _ => True) laterCalendar laterStore 10
    rfl (fun _ _ => trivial) (by decide +kernel)
  have htransition : ((laterStore.stateInput laterCalendar).observations {} none (some 10)
      none).toOption.any fun rows => rows.any fun row =>
        row.target = laterTarget ∧ row.tradeDate = 10 ∧ row.metadata.transition := by decide +kernel
  have hevents : (rebuildStates laterCalendar laterStore none 10).toOption.all fun result =>
      result.2.timeline.events.all fun event => event.target ≠ laterTarget ∨ event.kind ≠ .enter := by
    decide +kernel
  rw [hrows] at htransition
  rw [hrebuild] at hevents
  refine ⟨store, rows, hrun, fun hagree => ?_⟩
  obtain ⟨row, hrow, hspec⟩ := List.any_eq_true.mp htransition
  obtain ⟨event, hevent, -, htarget, -, hkind⟩ :=
    (hagree.enters laterTarget 10).mpr ⟨row, hrow, of_decide_eq_true hspec⟩
  rcases of_decide_eq_true (List.all_eq_true.mp hevents event hevent) with hne | hne
  · exact hne htarget
  · exact hne hkind

end Apanel
