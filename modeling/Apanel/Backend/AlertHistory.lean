import Apanel.Backend.AlertRules

/-!
# The notifications of a rule

Scheduled evaluations, publications and updates of a rule in any order: within one version of the
rule there is at most one notification for an observation date, in the order of the dates, and
trigger sequences are never used again.
-/

namespace Apanel

section Sends

variable {F : Type}

/-- What an evaluation adds to the rows it holds: notifications dated in a window, in order. -/
structure Sends (first last : Date) (s s' : HeldAlert F) (new : List (AlertNotification F)) :
    Prop where
  notifications : s'.notifications = s.notifications ++ new
  rule : s'.rule = { s.rule with triggerSequence := s'.rule.triggerSequence }
  version : s'.alertInstance.ruleVersion = s.alertInstance.ruleVersion
  increasing : s.rule.triggerSequence ≤ s'.rule.triggerSequence
  sequences : new.Pairwise fun a b => a.triggerSequence < b.triggerSequence
  numbered : ∀ n ∈ new, s.rule.triggerSequence < n.triggerSequence ∧
    n.triggerSequence ≤ s'.rule.triggerSequence
  versions : ∀ n ∈ new, n.ruleVersion = s.rule.ruleVersion
  dates : new.Pairwise fun a b => a.observationDate < b.observationDate
  window : ∀ n ∈ new, first ≤ n.observationDate ∧ n.observationDate ≤ last

namespace Sends

variable {first last first' last' : Date} {s s' s'' : HeldAlert F}
  {new new' : List (AlertNotification F)}

/-- An evaluation that sends nothing. -/
theorem nil (hnotifications : s'.notifications = s.notifications) (hrule : s'.rule = s.rule)
    (hversion : s'.alertInstance.ruleVersion = s.alertInstance.ruleVersion) :
    Sends first last s s' [] where
  notifications := by rw [hnotifications, List.append_nil]
  rule := by rw [hrule]
  version := hversion
  increasing := by rw [hrule]
  sequences := .nil
  numbered _ hn := absurd hn List.not_mem_nil
  versions _ hn := absurd hn List.not_mem_nil
  dates := .nil
  window _ hn := absurd hn List.not_mem_nil

theorem enqueueTrigger (s : HeldAlert F) (context : AlertContext F) :
    ∃ n, Sends context.date context.date s (s.enqueueTrigger context) [n] := by
  refine ⟨_, ⟨rfl, rfl, rfl, ?_, List.pairwise_singleton _ _, ?_, ?_, List.pairwise_singleton _ _,
    ?_⟩⟩
  · have := le_max_left s.rule.triggerSequence s.alertInstance.triggerSequence
    exact this.trans (lt_add_one _).le
  · intro n hn
    rw [List.mem_singleton.mp hn]
    exact ⟨Int.lt_add_one_of_le (le_max_left _ _), le_rfl⟩
  · intro n hn
    rw [List.mem_singleton.mp hn]
  · intro n hn
    rw [List.mem_singleton.mp hn]
    exact ⟨le_rfl, le_rfl⟩

theorem withStatus (s : HeldAlert F) (status : AlertInstanceStatus) (date : Date) :
    Sends date date s (s.withStatus status) [] :=
  .nil rfl rfl rfl

theorem withStatus_enqueueTrigger (s : HeldAlert F) (status : AlertInstanceStatus)
    (context : AlertContext F) :
    ∃ n, Sends context.date context.date s ((s.withStatus status).enqueueTrigger context) [n] :=
  let ⟨n, hn⟩ := enqueueTrigger (s.withStatus status) context
  ⟨n, hn.notifications, hn.rule, hn.version, hn.increasing, hn.sequences, hn.numbered, hn.versions,
    hn.dates, hn.window⟩

theorem trans (h : Sends first last s s' new) (h' : Sends first' last' s' s'' new')
    (hlt : last < first') (hfirst : first ≤ first') (hlast : last ≤ last') :
    Sends first last' s s'' (new ++ new') where
  notifications := by rw [h'.notifications, h.notifications, List.append_assoc]
  rule := by rw [h'.rule, h.rule]
  version := h'.version.trans h.version
  increasing := h.increasing.trans h'.increasing
  sequences := List.pairwise_append.mpr ⟨h.sequences, h'.sequences, fun a ha b hb =>
    (h.numbered a ha).2.trans_lt (h'.numbered b hb).1⟩
  numbered n hn := by
    rcases List.mem_append.mp hn with hn | hn
    · exact ⟨(h.numbered n hn).1, (h.numbered n hn).2.trans h'.increasing⟩
    · exact ⟨h.increasing.trans_lt (h'.numbered n hn).1, (h'.numbered n hn).2⟩
  versions n hn := by
    rcases List.mem_append.mp hn with hn | hn
    · exact h.versions n hn
    · rw [h'.versions n hn, h.rule]
  dates := List.pairwise_append.mpr ⟨h.dates, h'.dates, fun a ha b hb =>
    (h.window a ha).2.trans_lt (hlt.trans_le (h'.window b hb).1)⟩
  window n hn := by
    rcases List.mem_append.mp hn with hn | hn
    · exact ⟨(h.window n hn).1, (h.window n hn).2.trans hlast⟩
    · exact ⟨hfirst.trans (h'.window n hn).1, (h'.window n hn).2⟩

theorem widen (h : Sends first last s s' new) (hfirst : first' ≤ first) (hlast : last ≤ last') :
    Sends first' last' s s' new :=
  { h with window := fun n hn => ⟨hfirst.trans (h.window n hn).1, (h.window n hn).2.trans hlast⟩ }

/-- Later writes to the instance alone. -/
theorem keep (h : Sends first last s s' new) (hnotifications : s''.notifications = s'.notifications)
    (hrule : s''.rule = s'.rule)
    (hversion : s''.alertInstance.ruleVersion = s'.alertInstance.ruleVersion) :
    Sends first last s s'' new where
  notifications := hnotifications.trans h.notifications
  rule := by rw [hrule]; exact h.rule
  version := hversion.trans h.version
  increasing := by rw [hrule]; exact h.increasing
  sequences := h.sequences
  numbered := by rw [hrule]; exact h.numbered
  versions := h.versions
  dates := h.dates
  window := h.window

/-- A loop over items of increasing dates, each of which sends at most its own date. -/
theorem foldl {α : Type} {date : α → Date} {step : HeldAlert F → α → HeldAlert F}
    (hstep : ∀ s a, ∃ new, Sends (date a) (date a) s (step s a) new) {items : List α}
    (hsorted : items.Pairwise fun a b => date a < date b)
    (hwindow : ∀ a ∈ items, first ≤ date a ∧ date a ≤ last) :
    ∃ new, Sends first last s (items.foldl step s) new := by
  induction items generalizing s first with
  | nil => exact ⟨[], .nil rfl rfl rfl⟩
  | cons a items ih =>
    obtain ⟨hbefore, hsorted⟩ := List.pairwise_cons.mp hsorted
    obtain ⟨⟨hfirst, hlast⟩, hwindow⟩ := List.forall_mem_cons.mp hwindow
    obtain ⟨new, hnew⟩ := hstep s a
    have hrest : ∀ b ∈ items, date a + 1 ≤ date b ∧ date b ≤ last := fun b hb =>
      ⟨Int.add_one_le_of_lt (hbefore b hb), (hwindow b hb).2⟩
    obtain ⟨new', hnew'⟩ := ih (s := step s a) hsorted hrest
    exact ⟨_, (hnew.trans hnew' (lt_add_one _) (lt_add_one _).le hlast).widen hfirst le_rfl⟩

end Sends

end Sends

/-! ## The invariant -/

section Notified

variable {F : Type}

namespace AlertTables

/-- The last date evaluated at the version of the rule. -/
def evaluated (t : AlertTables F) : Option Date :=
  (t.found.map (atVersion t.rule.ruleVersion)).bind (·.lastEvaluatedTradeDate)

/-- The notifications of a rule, in the order they are sent. -/
structure Notified (t : AlertTables F) : Prop where
  sequences : t.notifications.Pairwise fun a b => a.triggerSequence < b.triggerSequence
  numbered : ∀ n ∈ t.notifications, n.triggerSequence ≤ t.rule.triggerSequence
  versions : t.notifications.Pairwise fun a b => a.ruleVersion ≤ b.ruleVersion
  bounded : ∀ n ∈ t.notifications, n.ruleVersion ≤ t.rule.ruleVersion
  dates : t.notifications.Pairwise fun a b =>
    a.ruleVersion = b.ruleVersion → a.observationDate < b.observationDate
  consumed : ∀ n ∈ t.notifications, n.ruleVersion = t.rule.ruleVersion →
    ∃ evaluated, t.evaluated = some evaluated ∧ n.observationDate ≤ evaluated

variable {t : AlertTables F}

theorem evaluated_put {s : HeldAlert F} (hsecurity : s.rule.securityId = t.rule.securityId)
    (hversion : s.alertInstance.ruleVersion = s.rule.ruleVersion) :
    (t.put s).evaluated = s.alertInstance.lastEvaluatedTradeDate := by
  rw [evaluated, found, put, hsecurity, Table.get?_insert_self, Option.map_some, Option.bind_some,
    atVersion, if_neg (not_not.mpr hversion)]

/-- Writing back an evaluation that sends nothing before the last date evaluated. -/
theorem Notified.put (h : t.Notified) {alertInstance : AlertInstance} {s : HeldAlert F}
    {first last latest : Date} {new : List (AlertNotification F)}
    (hsends : Sends first last (t.hold alertInstance) s new)
    (hversion : alertInstance.ruleVersion = t.rule.ruleVersion)
    (hlatest : s.alertInstance.lastEvaluatedTradeDate = some latest) (hlast : last ≤ latest)
    (hbefore : ∀ evaluated, t.evaluated = some evaluated → evaluated < first ∨ new = [])
    (hmono : ∀ evaluated, t.evaluated = some evaluated → evaluated ≤ latest) :
    (t.put s).Notified := by
  have hrule : s.rule = { t.rule with triggerSequence := s.rule.triggerSequence } := hsends.rule
  have hruleVersion : s.rule.ruleVersion = t.rule.ruleVersion := by rw [hrule]
  have hnotifications : s.notifications = t.notifications ++ new := hsends.notifications
  have hevaluated : (t.put s).evaluated = some latest := by
    rw [evaluated_put (by rw [hrule]) (by rw [hsends.version, hruleVersion]; exact hversion),
      hlatest]
  have hnew : ∀ n ∈ new, n.ruleVersion = t.rule.ruleVersion := hsends.versions
  constructor
  · change s.notifications.Pairwise _
    rw [hnotifications]
    refine List.pairwise_append.mpr ⟨h.sequences, hsends.sequences, fun a ha b hb => ?_⟩
    exact (h.numbered a ha).trans_lt (hsends.numbered b hb).1
  · change ∀ n ∈ s.notifications, n.triggerSequence ≤ s.rule.triggerSequence
    rw [hnotifications]
    intro n hn
    rcases List.mem_append.mp hn with hn | hn
    · exact (h.numbered n hn).trans hsends.increasing
    · exact (hsends.numbered n hn).2
  · change s.notifications.Pairwise _
    rw [hnotifications]
    refine List.pairwise_append.mpr ⟨h.versions, ?_, fun a ha b hb => ?_⟩
    · exact List.Pairwise.imp_of_mem (fun ha hb _ => ((hnew _ ha).trans (hnew _ hb).symm).le)
        hsends.dates
    · exact (h.bounded a ha).trans (hnew b hb).ge
  · change ∀ n ∈ s.notifications, n.ruleVersion ≤ s.rule.ruleVersion
    rw [hnotifications, hruleVersion]
    intro n hn
    rcases List.mem_append.mp hn with hn | hn
    · exact h.bounded n hn
    · exact (hnew n hn).le
  · change s.notifications.Pairwise _
    rw [hnotifications]
    have hdates : new.Pairwise fun a b =>
        a.ruleVersion = b.ruleVersion → a.observationDate < b.observationDate := by
      refine hsends.dates.imp ?_
      intro a b hlt _
      exact hlt
    refine List.pairwise_append.mpr ⟨h.dates, hdates, ?_⟩
    intro a ha b hb heq
    obtain ⟨evaluated, hevaluated, hle⟩ := h.consumed a ha (heq.trans (hnew b hb))
    rcases hbefore evaluated hevaluated with hlt | rfl
    · exact hle.trans_lt (hlt.trans_le (hsends.window b hb).1)
    · cases hb
  · change ∀ n ∈ s.notifications, n.ruleVersion = s.rule.ruleVersion → _
    rw [hnotifications, hruleVersion]
    intro n hn heq
    refine ⟨latest, hevaluated, ?_⟩
    rcases List.mem_append.mp hn with hn | hn
    · obtain ⟨evaluated, hevaluated, hle⟩ := h.consumed n hn heq
      exact hle.trans (hmono evaluated hevaluated)
    · exact (hsends.window n hn).2.trans hlast

end AlertTables

end Notified

/-! ## Operations -/

section Operations

variable {F : Type} [Arith F] [LinearOrder (IndicatorRequest F)] [LinearOrder (Target F)]

omit [LinearOrder (IndicatorRequest F)] [LinearOrder (Target F)] in
theorem catchUpEvent_sends (target : Target F) (last : Date) (s : HeldAlert F)
    (event : StateEvent F) :
    ∃ new, Sends event.tradeDate event.tradeDate s (catchUpEvent target last s event) new := by
  rw [catchUpEvent]
  split
  · exact ⟨[], .nil rfl rfl rfl⟩
  · dsimp only
    split
    · obtain ⟨n, hn⟩ := Sends.withStatus_enqueueTrigger s _
        { date := event.tradeDate
          sourceEventId := some event.streamSeq
          sourceRevision := some event.sourceRevision
          catchUp := some (event.tradeDate < last) }
      exact ⟨[n], hn⟩
    · exact ⟨[], .withStatus s _ _⟩

omit [LinearOrder (Target F)] in
theorem catchUpSnapshot_sends (request : IndicatorRequest F) (field : Field) (last : Date)
    (s : HeldAlert F) (snapshot : Date × SnapshotRow F) :
    ∃ new, Sends snapshot.1 snapshot.1 s (catchUpSnapshot request field last s snapshot) new := by
  rw [catchUpSnapshot]
  split
  · exact ⟨[], .nil rfl rfl rfl⟩
  · next value previousValue change _ =>
    dsimp only
    split
    · obtain ⟨n, hn⟩ := Sends.withStatus_enqueueTrigger s _
        { date := snapshot.1
          currentValue := some value
          previousValue
          change
          sourceRevision := snapshot.2.source.map (·.revision)
          catchUp := some (snapshot.1 < last) }
      exact ⟨[n], hn⟩
    · exact ⟨[], .withStatus s _ _⟩

/-- The valid events of a target are dated apart. -/
def Timeline.Dated (timeline : Timeline F) : Prop :=
  ∀ target, (validOf timeline.events target).Pairwise fun a b => a.date < b.date

omit [Arith F] [LinearOrder (IndicatorRequest F)] in
theorem Timeline.Dated.validEvents {timeline : Timeline F} (h : timeline.Dated)
    (target : Target F) :
    (validEvents timeline.events target).Pairwise fun a b => a.tradeDate < b.tradeDate := by
  have hsorted := h target
  rw [validOf, List.pairwise_map] at hsorted
  exact hsorted

omit [Arith F] [LinearOrder (IndicatorRequest F)] in
/-- The events of the window stand in the order of their dates. -/
theorem catchUpEvents_eq {timeline : Timeline F} (h : timeline.Dated) (target : Target F)
    (first last : Date) (seq : ℤ) :
    catchUpEvents timeline target first last seq =
      (validEvents timeline.events target).filter fun event =>
        first ≤ event.tradeDate ∧ event.tradeDate ≤ last ∧ seq < event.streamSeq := by
  have hselect : (timeline.events.filter fun event => decide (event.target = target ∧ event.valid ∧
      first ≤ event.tradeDate ∧ event.tradeDate ≤ last ∧ seq < event.streamSeq)) =
        (Apanel.validEvents timeline.events target).filter fun event =>
          first ≤ event.tradeDate ∧ event.tradeDate ≤ last ∧ seq < event.streamSeq := by
    rw [Apanel.validEvents, List.filter_filter]
    refine List.filter_congr fun event _ => ?_
    rw [Bool.eq_iff_iff]
    simp only [decide_eq_true_eq, Bool.and_eq_true]
    tauto
  rw [catchUpEvents, hselect]
  exact List.Pairwise.insertionSort_eq (((h.validEvents target).filter _).imp fun hlt => .inl hlt)

omit [Arith F] [LinearOrder (IndicatorRequest F)] in
theorem catchUpEvents_sorted {timeline : Timeline F} (h : timeline.Dated) (target : Target F)
    (first last : Date) (seq : ℤ) :
    (catchUpEvents timeline target first last seq).Pairwise
      fun a b => a.tradeDate < b.tradeDate := by
  rw [catchUpEvents_eq h]
  exact (h.validEvents target).filter _

omit [Arith F] [LinearOrder (IndicatorRequest F)] in
theorem window_of_mem_catchUpEvents {timeline : Timeline F} {target : Target F} {first last : Date}
    {seq : ℤ} {event : StateEvent F} (h : event ∈ catchUpEvents timeline target first last seq) :
    first ≤ event.tradeDate ∧ event.tradeDate ≤ last := by
  rw [catchUpEvents, List.mem_insertionSort, List.mem_filter, decide_eq_true_eq] at h
  exact ⟨h.2.2.2.1, h.2.2.2.2.1⟩

omit [Arith F] [LinearOrder (Target F)] in
theorem catchUpSnapshots_sorted (snapshots : Snapshots F) (type : IndicatorType)
    (first last : Date) :
    (catchUpSnapshots snapshots type first last).Pairwise fun a b => a.1 < b.1 :=
  (snapshots.sorted.filter _).filter _

theorem catchUp_sends {store : AnalysisStore F} (hdated : store.timeline.Dated)
    {evaluated last : Date} {current : Option (AlertObservation F)} {s s' : HeldAlert F}
    (h : catchUp store evaluated last current s = .ok (some s')) :
    (∃ new, Sends (evaluated + 1) last s s' new) ∧
      s'.alertInstance.lastEvaluatedTradeDate = some last := by
  rw [catchUp] at h
  split at h
  · next target _ =>
    rw [catchUpState] at h
    split at h
    · cases h
    · dsimp only at h
      split at h
      · cases h
      · obtain ⟨new, hnew⟩ := Sends.foldl (catchUpEvent_sends target last)
          (catchUpEvents_sorted hdated target (evaluated + 1) last
            s.alertInstance.lastConsumedStateSeq)
          (fun event hevent => window_of_mem_catchUpEvents hevent) (s := s)
        cases h
        cases current with
        | none => exact ⟨⟨new, hnew.keep rfl rfl rfl⟩, rfl⟩
        | some observation => exact ⟨⟨new, hnew.keep rfl rfl rfl⟩, rfl⟩
  · next request field _ _ _ =>
    rw [catchUpValue] at h
    dsimp only at h
    split at h
    · cases h
    · obtain ⟨new, hnew⟩ := Sends.foldl (catchUpSnapshot_sends request field last)
        (catchUpSnapshots_sorted store.snapshots request.indicatorType (evaluated + 1) last)
        (fun snapshot hsnapshot => of_decide_eq_true (List.mem_filter.mp hsnapshot).2) (s := s)
      cases h
      exact ⟨⟨new, hnew.keep rfl rfl rfl⟩, rfl⟩
  · cases h
    exact ⟨⟨[], .nil rfl rfl rfl⟩, rfl⟩

namespace AlertTables

variable {t : AlertTables F}

theorem atVersion_ruleVersion (ruleVersion : ℤ) (found : AlertInstance) :
    (atVersion ruleVersion found).ruleVersion = ruleVersion := by
  rw [atVersion]
  split
  · rfl
  · next h => exact not_not.mp h

omit [Arith F] [LinearOrder (IndicatorRequest F)] [LinearOrder (Target F)] in
/-- Writing back an instance alone. -/
theorem Notified.put_hold (h : t.Notified) {alertInstance : AlertInstance} {latest : Date}
    (hversion : alertInstance.ruleVersion = t.rule.ruleVersion)
    (hlatest : alertInstance.lastEvaluatedTradeDate = some latest)
    (hmono : ∀ evaluated, t.evaluated = some evaluated → evaluated ≤ latest) :
    (t.put (t.hold alertInstance)).Notified :=
  have hsends : Sends latest latest (t.hold alertInstance) (t.hold alertInstance) [] :=
    .nil rfl rfl rfl
  h.put hsends hversion hlatest le_rfl (fun _ _ => .inr rfl) hmono

omit [Arith F] [LinearOrder (IndicatorRequest F)] [LinearOrder (Target F)] in
/-- A notification of a date that no evaluation has reached. -/
theorem Notified.put_enqueueTrigger (h : t.Notified) {alertInstance : AlertInstance}
    {context : AlertContext F} (hversion : alertInstance.ruleVersion = t.rule.ruleVersion)
    (hlatest : alertInstance.lastEvaluatedTradeDate = some context.date)
    (hmono : ∀ evaluated, t.evaluated = some evaluated → evaluated < context.date) :
    (t.put ((t.hold alertInstance).enqueueTrigger context)).Notified := by
  obtain ⟨n, hn⟩ := Sends.enqueueTrigger (t.hold alertInstance) context
  exact h.put hn hversion hlatest le_rfl (fun evaluated h' => .inl (hmono evaluated h'))
    fun evaluated h' => (hmono evaluated h').le

omit [Arith F] [LinearOrder (IndicatorRequest F)] [LinearOrder (Target F)] in
theorem evaluated_eq_of_found {found : AlertInstance}
    (hfound : t.found.map (atVersion t.rule.ruleVersion) = some found) :
    found.ruleVersion = t.rule.ruleVersion ∧ t.evaluated = found.lastEvaluatedTradeDate := by
  obtain ⟨stored, -, rfl⟩ := Option.map_eq_some_iff.mp hfound
  exact ⟨atVersion_ruleVersion _ _, by rw [evaluated, hfound, Option.bind_some]⟩

/-- The evaluation of one observation sends at most its own date. -/
theorem Notified.observe (h : t.Notified) (store : AnalysisStore F)
    (resolved : ResolvedObservation F)
    (hlater : ∀ evaluated, t.evaluated = some evaluated → evaluated ≤ resolved.context.date) :
    (t.observe store true resolved (t.found.map (atVersion t.rule.ruleVersion))).Notified := by
  rw [AlertTables.observe]
  cases hfound : t.found.map (atVersion t.rule.ruleVersion) with
  | none =>
    have hnone (evaluated : Date) : t.evaluated ≠ some evaluated := by
      rw [AlertTables.evaluated, hfound]
      exact nofun
    dsimp only [Option.any_none, Option.map_none, Option.getD_none]
    split
    · next hcorrection => exact absurd hcorrection Bool.false_ne_true
    · split
      · exact h.put_enqueueTrigger rfl rfl fun evaluated h' => absurd h' (hnone evaluated)
      · exact h.put_hold rfl rfl fun evaluated h' => absurd h' (hnone evaluated)
  | some found =>
    obtain ⟨hversion, hevaluated⟩ := evaluated_eq_of_found hfound
    dsimp only [Option.any_some, Option.map_some, Option.getD_some]
    split
    · next hcorrection => exact h.put_hold hversion (of_decide_eq_true hcorrection) hlater
    · next hfresh =>
      split
      · refine h.put_enqueueTrigger hversion rfl fun evaluated h' => ?_
        refine (hlater evaluated h').lt_of_ne ?_
        rintro rfl
        exact hfresh (decide_eq_true (hevaluated.symm.trans h'))
      · exact h.put_hold hversion rfl hlater

theorem Notified.observed (h : t.Notified) {store : AnalysisStore F} (hdated : store.timeline.Dated)
    {observationDate : Date} {resolved : ResolvedObservation F} {t' : AlertTables F}
    (hok : t.observed store (some observationDate) resolved = .ok t') : t'.Notified := by
  rw [AlertTables.observed] at hok
  split at hok
  · next earlier evaluated _ hfound hevaluated =>
    have hversion : earlier.ruleVersion = t.rule.ruleVersion := by
      obtain ⟨stored, -, rfl⟩ := Option.map_eq_some_iff.mp hfound
      exact atVersion_ruleVersion _ _
    have hevaluated' : t.evaluated = some evaluated := hevaluated
    split at hok
    · cases hok
      exact h
    · next hnotbefore =>
      split at hok
      · next hlt =>
        obtain ⟨replay, hreplay, rfl⟩ := Except.map_eq_ok.mp hok
        cases replay with
        | none =>
          refine h.observe store resolved fun evaluated' h' => ?_
          cases hevaluated'.symm.trans h'
          exact hlt.1.le
        | some s =>
          obtain ⟨⟨new, hnew⟩, hlast⟩ := catchUp_sends hdated hreplay
          refine h.put hnew hversion hlast le_rfl ?_ ?_
          · intro evaluated' h'
            cases hevaluated'.symm.trans h'
            exact .inl (lt_add_one _)
          · intro evaluated' h'
            cases hevaluated'.symm.trans h'
            exact hlt.1.le
      · cases hok
        refine h.observe store resolved fun evaluated' h' => ?_
        cases hevaluated'.symm.trans h'
        exact not_lt.mp hnotbefore
  · next hnone =>
    cases hok
    refine h.observe store resolved fun evaluated h' => ?_
    obtain ⟨earlier, hfound, -⟩ := Option.bind_eq_some_iff.mp h'
    exact (hnone earlier evaluated rfl hfound h').elim

theorem Notified.unavailableObservation (h : t.Notified) {store : AnalysisStore F}
    (hdated : store.timeline.Dated) {observationDate : Date} {t' : AlertTables F}
    (hok : t.unavailableObservation store observationDate = .ok t') : t'.Notified := by
  rw [AlertTables.unavailableObservation] at hok
  dsimp only at hok
  cases hfound : t.found with
  | none =>
    have hnone (evaluated : Date) : t.evaluated ≠ some evaluated := by
      rw [AlertTables.evaluated, hfound]
      exact nofun
    rw [hfound] at hok
    cases hok
    exact h.put_hold rfl rfl fun evaluated h' => absurd h' (hnone evaluated)
  | some found =>
    rw [hfound] at hok
    dsimp only at hok
    split at hok
    · next hversion =>
      have hnone (evaluated : Date) : t.evaluated ≠ some evaluated := by
        rw [AlertTables.evaluated, hfound, Option.map_some, atVersion, if_pos hversion]
        exact nofun
      cases hok
      exact h.put_hold rfl rfl fun evaluated h' => absurd h' (hnone evaluated)
    · next hversion =>
      have hevaluated : t.evaluated = found.lastEvaluatedTradeDate := by
        rw [AlertTables.evaluated, hfound, Option.map_some, atVersion, if_neg hversion,
          Option.bind_some]
      have hversion : found.ruleVersion = t.rule.ruleVersion := not_not.mp hversion
      -- without a catch-up the date checked is the later one
      have hchecked {checked : AlertInstance} (hcheck : checked =
          if found.lastEvaluatedTradeDate.all (· ≤ observationDate) then
            { found with
              lastEvaluatedTradeDate := some observationDate
              lastConsumedStateSeq := store.stream.eventSequence }
          else found) : (t.put (t.hold checked)).Notified := by
        split at hcheck
        · next hle =>
          rw [hcheck]
          refine h.put_hold hversion rfl fun evaluated h' => ?_
          rw [← hevaluated, h'] at hle
          exact of_decide_eq_true hle
        · next hlater =>
          rw [hcheck]
          cases hlast : found.lastEvaluatedTradeDate with
          | none =>
            rw [hlast] at hlater
            exact absurd rfl hlater
          | some evaluated =>
            refine h.put_hold hversion hlast fun evaluated' h' => ?_
            cases (hevaluated.trans hlast).symm.trans h'
            exact le_rfl
      split at hok
      · cases hok
        exact hchecked rfl
      · next evaluated hlast =>
        split at hok
        · next hlt =>
          obtain ⟨replay, hreplay, rfl⟩ := Except.map_eq_ok.mp hok
          cases replay with
          | none => exact hchecked rfl
          | some s =>
            obtain ⟨⟨new, hnew⟩, hlatest⟩ := catchUp_sends hdated hreplay
            refine h.put hnew hversion hlatest le_rfl ?_ ?_
            · intro evaluated' h'
              cases (hevaluated.trans hlast).symm.trans h'
              exact .inl (lt_add_one _)
            · intro evaluated' h'
              cases (hevaluated.trans hlast).symm.trans h'
              exact hlt.le
        · cases hok
          exact hchecked rfl

theorem Notified.evaluateRule (h : t.Notified) {sources : AlertSources F}
    (hdated : (sources.storeOf t.rule).timeline.Dated) {observationDate : Date} {t' : AlertTables F}
    (hok : t.evaluateRule sources (some observationDate) = .ok t') : t'.Notified := by
  rw [AlertTables.evaluateRule] at hok
  split at hok
  · cases hok
    exact h
  · split at hok
    · exact h.observed hdated hok
    · split at hok
      · cases hok
        exact h
      · exact h.unavailableObservation hdated hok

omit [Arith F] [LinearOrder (IndicatorRequest F)] [LinearOrder (Target F)] in
theorem Notified.update [DecidableEq (AlertUpdate F)] (h : t.Notified) (update : AlertUpdate F) :
    (t.update update).Notified := by
  by_cases hchanged : update = t.rule.signature
  · have hunchanged : t.update update = t := by
      subst hchanged
      simp [AlertTables.update, AlertRuleRow.signature]
    exact hunchanged.symm ▸ h
  · have hversion : (t.update update).rule.ruleVersion = t.rule.ruleVersion + 1 :=
      if_pos (decide_eq_true hchanged)
    constructor
    · exact h.sequences
    · exact h.numbered
    · exact h.versions
    · intro n hn
      rw [hversion]
      exact (h.bounded n hn).trans (lt_add_one _).le
    · exact h.dates
    · intro n hn heq
      have := h.bounded n hn
      omega

end AlertTables

end Operations

/-! ## Price series -/

section Series

variable {F R : Type} [Arith F] [DecidableEq F] [LinearOrder (IndicatorRequest F)]
  [LinearOrder (Target F)] [DecidableEq R]

/-- The valid events are dated apart, and at or before the day the states are published through. -/
structure AnalysisStore.Dated (store : AnalysisStore F) : Prop where
  timeline : store.timeline.Dated
  through : ∀ event ∈ store.timeline.events, event.valid →
    store.stream.stateThrough.any (event.tradeDate ≤ ·)

omit [Arith F] [LinearOrder (IndicatorRequest F)] in
theorem Timeline.Dated.publish {δ : Type} {stream stream' : AnalysisStream δ}
    {timeline timeline' : Timeline F} {call : PublishCall F} (h : timeline.Dated)
    (hthrough : ∀ event ∈ timeline.events, event.valid → event.tradeDate ≤ call.through)
    (hcall : call.Produced)
    (hpublish : Apanel.publish stream timeline call.observations call.start call.through =
      .ok (stream', timeline')) :
    timeline'.Dated ∧ ∀ event ∈ timeline'.events, event.valid → event.tradeDate ≤ call.through := by
  have hvalid (target : Target F) :=
    publish_validOf hpublish hcall.inDateOrder hthrough target (h target)
  have hlogged {target : Target F} {prior : Option StateEntry} {event : TimelineEvent}
      (hevent : event ∈ timelineRecorder.log prior (observationsOf call.observations target)) :
      call.start.all (· ≤ event.date) ∧ event.date ≤ call.through := by
    obtain ⟨o, ho, hdate⟩ := timelineRecorder.exists_of_mem_log hevent
    obtain ⟨row, hrow, -, rfl⟩ := mem_observationsOf.mp ho
    have hdate : event.date = row.tradeDate := hdate
    rw [hdate]
    exact ⟨hcall.start_le row hrow, hcall.le_through row hrow⟩
  constructor
  · intro target
    rw [hvalid]
    refine List.pairwise_append.mpr ⟨(h target).filter _, timelineRecorder.log_sorted
      (hcall.inDateOrder.observationsOf_sorted target) _, fun kept hkept event hevent => ?_⟩
    have hstart := (hlogged hevent).1
    have hbefore := (List.mem_filter.mp hkept).2
    cases hcallStart : call.start with
    | none =>
      rw [hcallStart] at hbefore
      cases hbefore
    | some start =>
      rw [hcallStart, Option.all_some] at hstart hbefore
      simp only [decide_eq_true_eq, Bool.not_eq_true', decide_eq_false_iff_not] at hstart hbefore
      exact (not_le.mp hbefore).trans_le hstart
  · intro event hevent hisValid
    have hmem := PublishedStream.event_mem_validOf hevent hisValid
    rw [hvalid] at hmem
    rcases List.mem_append.mp hmem with hkept | hnew
    · obtain ⟨kept, hkept, hevent'⟩ := List.mem_map.mp (List.mem_filter.mp hkept).1
      obtain ⟨hkept, hselect⟩ := List.mem_filter.mp hkept
      have hdate : kept.tradeDate = event.tradeDate := congrArg TimelineEvent.date hevent'
      exact hdate ▸ hthrough kept hkept (Bool.and_eq_true_iff.mp hselect).1
    · exact (hlogged hnew).2

omit [DecidableEq R] [Arith F] [DecidableEq F] in
theorem AnalysisStore.Dated.withFacts {s : Series F R} (h : s.store.Dated)
    {facts : SeriesFacts (DemandKey F) R} (hfacts : FactsChange s.facts facts) :
    (s.withFacts facts).store.Dated := by
  obtain ⟨_, _, _, hstream⟩ := hfacts.stream
  refine ⟨h.timeline, fun event hevent hvalid => ?_⟩
  have hthrough : (s.withFacts facts).store.stream.stateThrough = s.store.stream.stateThrough := by
    change facts.stream.stateThrough = _
    rw [hstream]
    rfl
  rw [hthrough]
  exact h.through event hevent hvalid

omit [DecidableEq R] [DecidableEq F] in
theorem Publishes.produced {calendar : Calendar} {store : AnalysisStore F} {hasIndicators : Bool}
    {start persistFrom : Option Date} {latest : Date} {rows : List (StateRow F)}
    (h : Publishes calendar store hasIndicators start latest rows persistFrom) (revision : ℤ) :
    PublishCall.Produced ⟨revision, rows, persistFrom, latest⟩ := by
  cases hasIndicators with
  | false =>
    obtain ⟨rfl, rfl⟩ := h.without rfl
    exact ⟨fun _ => .nil, fun _ hrow => absurd hrow List.not_mem_nil,
      fun _ hrow => absurd hrow List.not_mem_nil⟩
  | true => exact StateInput.observations_produced (h.observations rfl) revision

/-- In every run of a price series, a target has one valid event for a date. -/
theorem Series.dated_step {s : Series F R} (h : s.store.Dated) (action : SeriesAction F R) :
    (s.step action).store.Dated := by
  cases action with
  | upsert records revision =>
    rw [Series.step]
    split
    · exact h
    · exact h.withFacts (SeriesFacts.applyUpsert_factsChange _ _ _)
  | reconcile records coverageStart coverageEnd revision =>
    rw [Series.step]
    split
    · next hcovers => exact h.withFacts (SeriesFacts.applyReconcile_factsChange _ hcovers _)
    · exact h
  | configure demanded => exact ⟨h.timeline, h.through⟩
  | materialize calendar withDemand cutoff forceHistory =>
    rw [Series.step]
    cases hok : s.materialize calendar withDemand cutoff forceHistory with
    | error => exact h
    | ok result =>
      obtain ⟨result, store⟩ := result
      obtain ⟨first, latest, -, -, hstale, hplan⟩ := Series.materialize_eq_ok hok
      obtain ⟨-, rfl⟩ | ⟨start, indicators, states, -, hrebuild⟩ := hplan
      · exact ⟨h.timeline, h.through⟩
      · obtain ⟨payloads, source, rows, persistFrom, stream, stream', -, hpublishes, hpublish, -,
          hstream, -⟩ := rebuildSeries_eq_ok hrebuild
        have hthrough : ∀ event ∈ s.store.timeline.events, event.valid →
            event.tradeDate ≤ latest := by
          intro event hevent hvalid
          have hle := h.through event hevent hvalid
          cases hstateThrough : s.store.stream.stateThrough with
          | none =>
            rw [hstateThrough] at hle
            cases hle
          | some through =>
            rw [hstateThrough, Option.any_some, decide_eq_true_eq] at hle
            rw [hstateThrough, Option.all_some, decide_eq_true_eq] at hstale
            exact hle.trans hstale
        obtain ⟨hdated, hle⟩ := h.timeline.publish hthrough (hpublishes.produced 0) hpublish
        refine ⟨hdated, fun event hevent hvalid => ?_⟩
        dsimp only
        rw [hstream]
        exact decide_eq_true (hle event hevent hvalid)

end Series

/-! ## Runs -/

section Runs

variable {F R : Type} [Arith F] [DecidableEq F] [LinearOrder (IndicatorRequest F)]
  [LinearOrder (Target F)] [DecidableEq R]

/-- Every price series, and one rule. -/
structure AlertSystem (F R : Type) [LinearOrder (IndicatorRequest F)] [LinearOrder (Target F)] where
  series : ℤ → Adjustment → Series F R
  tables : AlertTables F

/-- The transactions: those of a series, scheduled evaluations and updates of the rule. Dividends
and prices of an evaluation are arbitrary. -/
inductive AlertAction (F R : Type)
  | series (securityId : ℤ) (adjustment : Adjustment) (action : SeriesAction F R)
  | evaluate (observationDate : Date) (dividendYield : ℤ → Option (F × Date))
  | update (update : AlertUpdate F)

namespace AlertSystem

def sources (s : AlertSystem F R) (dividendYield : ℤ → Option (F × Date)) : AlertSources F :=
  ⟨fun securityId adjustment => (s.series securityId adjustment).store, dividendYield⟩

/-- An evaluation that raises is rolled back. -/
def step (s : AlertSystem F R) : AlertAction F R → AlertSystem F R
  | .series securityId adjustment action =>
    { s with
      series := Function.update s.series securityId
        (Function.update (s.series securityId) adjustment
          ((s.series securityId adjustment).step action)) }
  | .evaluate observationDate dividendYield =>
    match s.tables.evaluateRule (s.sources dividendYield) (some observationDate) with
    | .error _ => s
    | .ok tables => { s with tables }
  | .update update => { s with tables := s.tables.update update }

/-- A new rule, before anything is stored. -/
def initial (rule : AlertUpdate F) (demanded : ℤ → Adjustment → List (IndicatorRequest F)) :
    AlertSystem F R where
  series securityId adjustment := Series.initial (demanded securityId adjustment)
  tables :=
    { rule :=
        { securityId := rule.securityId
          adjustType := rule.adjustType
          condition := rule.condition
          enabled := rule.enabled
          ruleVersion := 1
          triggerSequence := 0 }
      instances := ∅
      notifications := [] }

structure Sound (s : AlertSystem F R) : Prop where
  dated : ∀ securityId adjustment, (s.series securityId adjustment).store.Dated
  notified : s.tables.Notified

omit [Arith F] [DecidableEq F] [DecidableEq R] in
theorem sound_initial (rule : AlertUpdate F)
    (demanded : ℤ → Adjustment → List (IndicatorRequest F)) :
    (initial rule demanded : AlertSystem F R).Sound where
  dated _ _ := ⟨fun _ => .nil, fun _ hevent => absurd hevent List.not_mem_nil⟩
  notified :=
    { sequences := .nil
      numbered := fun _ hn => absurd hn List.not_mem_nil
      versions := .nil
      bounded := fun _ hn => absurd hn List.not_mem_nil
      dates := .nil
      consumed := fun _ hn => absurd hn List.not_mem_nil }

theorem Sound.step {s : AlertSystem F R} (h : s.Sound) (action : AlertAction F R) :
    (s.step action).Sound := by
  cases action with
  | series securityId adjustment action =>
    refine ⟨fun securityId' adjustment' => ?_, h.notified⟩
    change (Function.update s.series securityId _ securityId' adjustment').store.Dated
    by_cases hsecurity : securityId' = securityId
    · subst hsecurity
      rw [Function.update_self]
      by_cases hadjustment : adjustment' = adjustment
      · subst hadjustment
        rw [Function.update_self]
        exact Series.dated_step (h.dated _ _) action
      · rw [Function.update_of_ne hadjustment]
        exact h.dated _ _
    · rw [Function.update_of_ne hsecurity]
      exact h.dated _ _
  | evaluate observationDate dividendYield =>
    rw [AlertSystem.step]
    split
    · exact h
    · next tables hok =>
      have hdated : ((s.sources dividendYield).storeOf s.tables.rule).timeline.Dated :=
        (h.dated _ _).timeline
      exact ⟨h.dated, h.notified.evaluateRule hdated hok⟩
  | update update => exact ⟨h.dated, h.notified.update update⟩

end AlertSystem

/-- At most one notification for a version of the rule and an observation date, in every run. -/
theorem notified_once (rule : AlertUpdate F)
    (demanded : ℤ → Adjustment → List (IndicatorRequest F)) (actions : List (AlertAction F R)) :
    (run AlertSystem.step (AlertSystem.initial rule demanded : AlertSystem F R)
      actions).tables.notifications.Pairwise fun a b =>
        a.triggerSequence < b.triggerSequence ∧ a.ruleVersion ≤ b.ruleVersion ∧
          (a.ruleVersion = b.ruleVersion → a.observationDate < b.observationDate) := by
  have h := run_preserves AlertSystem.Sound (fun _ action hs => hs.step action)
    (AlertSystem.sound_initial (R := R) rule demanded) actions
  exact (h.notified.sequences.and h.notified.versions).and h.notified.dates |>.imp
    fun ⟨⟨hsequence, hversion⟩, hdate⟩ => ⟨hsequence, hversion, hdate⟩

end Runs

end Apanel
