import Apanel.Streams

/-!
# Fact commits of the Hub

What `SqlAlchemyDailyBarRepository` (`app/repositories/market_data.py`) does to one price series
inside a write transaction, once its fences have been checked: upsert the changed bars, install the
adjustment revision, and invalidate the stream from the earliest changed day.
-/

namespace Apanel

/-- The `market_data_adjustment_state` row of a security; only its qfq series has one. -/
structure AdjustmentDescriptor (R : Type) where
  revisionHash : R
  coverageStart : Option Date
  coverageEnd : Option Date
  deriving DecidableEq

/-- The rows the Hub writes for one price series. -/
structure SeriesFacts (δ R : Type) where
  bars : Bars
  stream : AnalysisStream δ
  descriptor : Option (AdjustmentDescriptor R)

/-- `combine_changed` and `latest` of one stream: the earliest changed day and the latest one. -/
abbrev Changed := Option (Date × Date)

/-- The records whose facts differ from the stored row. -/
def changedRows (bars records : Bars) : Bars :=
  records.filter fun day => bars.get? day ≠ records.get? day

/-- `_upsert_in_session` for the records of one series: rows whose facts do not differ are not
touched. -/
def upsertInSession (bars records : Bars) : Bars × Changed :=
  let changed := changedRows bars records
  (bars.insertMany records.rows,
    match changed.minKey?, changed.maxKey? with
    | some first, some latest => some (first, latest)
    | _, _ => none)

/-- `combine_changed(changed, key, day)`, where `latest` is already decided. -/
def Changed.combine (changed : Changed) (day latest : Date) : Changed :=
  match changed with
  | none => some (day, latest)
  | some (first, _) => some (min first day, latest)

/-- The descriptor `_revision_in_session` installs: the revision with the stored coverage. -/
def AdjustmentDescriptor.install {R : Type} (revision : R) (bars : Bars) : AdjustmentDescriptor R :=
  { revisionHash := revision, coverageStart := bars.minKey?, coverageEnd := bars.maxKey? }

/-- Whether `_revision_in_session` replaces a different revision. -/
def isRevised {R : Type} [DecidableEq R] (previous : Option (AdjustmentDescriptor R))
    (revision : R) : Bool :=
  previous.any fun previous => previous.revisionHash ≠ revision

/-- A replaced revision changes every stored bar. -/
def Changed.revise (changed : Changed) (revised : Bool) (bars : Bars) : Changed :=
  match revised, bars.minKey?, bars.maxKey? with
  | true, some first, some last => changed.combine first last
  | _, _, _ => changed

namespace SeriesFacts

variable {δ R : Type}

def invalidate (facts : SeriesFacts δ R) (changed : Changed) : SeriesFacts δ R :=
  match changed with
  | none => facts
  | some (first, latest) => { facts with stream := facts.stream.invalidateChanged first latest }

/-- The writes of `upsert_fenced` to one series. -/
def applyUpsert [DecidableEq R] (facts : SeriesFacts δ R) (records : Bars) (revision : Option R) :
    SeriesFacts δ R :=
  let (bars, changed) := upsertInSession facts.bars records
  match revision with
  | none => { facts with bars }.invalidate changed
  | some revision =>
    let descriptor := some (AdjustmentDescriptor.install revision bars)
    { facts with bars, descriptor }.invalidate
      (changed.revise (isRevised facts.descriptor revision) bars)

/-- The checks of `reconcile_revision` before its transaction: the records cover the replaced
range. -/
def reconcileCovers (records : Bars) (coverageStart coverageEnd : Date) : Bool :=
  coverageStart ≤ coverageEnd && records.minKey?.any (· ≤ coverageStart) &&
    records.maxKey?.any (coverageEnd ≤ ·)

/-- The stored days `reconcile_revision` deletes: covered, and not among the records. -/
def isDeleted (records : Bars) (coverageStart coverageEnd day : Date) : Bool :=
  coverageStart ≤ day && day ≤ coverageEnd && (records.get? day).isNone

/-- The writes of `reconcile_revision`: replace the covered range by the records, stored bars the
records do not have included. -/
def applyReconcile (facts : SeriesFacts δ R) (records : Bars) (coverageStart coverageEnd : Date)
    (revision : Option R) : SeriesFacts δ R :=
  let (bars, changed) := upsertInSession facts.bars records
  let deleted := bars.filter (isDeleted records coverageStart coverageEnd)
  let bars := bars.filter fun day => !isDeleted records coverageStart coverageEnd day
  let descriptor := match revision with
    | none => facts.descriptor
    | some revision => some (.install revision bars)
  match records.maxKey? with
  | none => { facts with bars, descriptor }
  | some latest =>
    let changed := match deleted.minKey? with
      | none => changed
      | some first => changed.combine first latest
    { facts with bars, descriptor }.invalidate (changed.combine coverageStart latest)

end SeriesFacts

/-! ## What a commit changes -/

theorem Changed.combine_spec (changed : Changed) (day latest : Date) :
    ∃ first, changed.combine day latest = some (first, latest) ∧ first ≤ day ∧
      ∀ first' latest', changed = some (first', latest') → first ≤ first' := by
  match changed with
  | none => exact ⟨day, rfl, le_rfl, nofun⟩
  | some (first', latest') =>
    exact ⟨min first' day, rfl, min_le_right _ _, fun _ _ h => by cases h; exact min_le_left _ _⟩

/-- The days a change covers. -/
def Changed.covers (changed : Changed) (day : Date) : Prop :=
  ∃ first latest, changed = some (first, latest) ∧ first ≤ day ∧ day ≤ latest

theorem Changed.covers_revise {changed : Changed} {day : Date} (h : changed.covers day)
    (revised : Bool) (bars : Bars) :
    ∃ first latest, changed.revise revised bars = some (first, latest) ∧ first ≤ day ∧
      (day ∈ bars.keys → day ≤ latest) := by
  obtain ⟨first, latest, hc, hf, hl⟩ := h
  unfold Changed.revise
  split
  · next d l _ hmax =>
    obtain ⟨F, hF, -, hmono⟩ := changed.combine_spec d l
    exact ⟨F, l, hF, (hmono _ _ hc).trans hf, Table.le_maxKey? hmax⟩
  · exact ⟨first, latest, hc, hf, fun _ => hl⟩

theorem get?_upsertInSession (bars records : Bars) (day : Date) :
    (upsertInSession bars records).1.get? day = (records.get? day).or (bars.get? day) :=
  bars.get?_insertMany_table records day

theorem upsertInSession_covers {bars records : Bars} {day : Date}
    (h : (upsertInSession bars records).1.get? day ≠ bars.get? day) :
    (upsertInSession bars records).2.covers day := by
  rw [get?_upsertInSession] at h
  have hmem : day ∈ (changedRows bars records).keys := by
    cases hr : records.get? day with
    | none => rw [hr, Option.none_or] at h; exact absurd rfl h
    | some bar =>
      rw [hr, Option.some_or] at h
      refine Table.mem_keys.mpr ⟨bar, ?_⟩
      rw [changedRows, Table.get?_filter, if_pos (by rw [hr]; exact decide_eq_true h.symm), hr]
  obtain ⟨first, hfirst⟩ := Table.exists_minKey? hmem
  obtain ⟨latest, hlatest⟩ := Table.exists_maxKey? hmem
  refine ⟨first, latest, ?_, Table.minKey?_le hfirst hmem, Table.le_maxKey? hlatest hmem⟩
  simp only [upsertInSession, hfirst, hlatest]

/-- What a fact commit does to a series, whichever it is: the stream row is touched in its
invalidation columns only, every changed day is dirty, and `latest_bar_date` bounds the bars. -/
structure FactsChange {δ R : Type} (facts facts' : SeriesFacts δ R) : Prop where
  stream : ∃ sourceRevision dirtyFrom latestBarDate, facts'.stream =
    { facts.stream with sourceRevision, dirtyFrom, latestBarDate }
  revision : facts.stream.sourceRevision ≤ facts'.stream.sourceRevision
  changed (day) : facts'.bars.get? day = facts.bars.get? day ∨
    ∃ dirtyFrom, facts'.stream.dirtyFrom = some dirtyFrom ∧ dirtyFrom ≤ day
  dirty {dirtyFrom} : facts.stream.dirtyFrom = some dirtyFrom →
    ∃ dirtyFrom' ≤ dirtyFrom, facts'.stream.dirtyFrom = some dirtyFrom'
  latest : (∀ day ∈ facts.bars.keys, ∃ l, facts.stream.latestBarDate = some l ∧ day ≤ l) →
    ∀ day ∈ facts'.bars.keys, ∃ l, facts'.stream.latestBarDate = some l ∧ day ≤ l

namespace SeriesFacts

variable {δ R : Type}

/-- Invalidating a range that covers every changed day. -/
theorem invalidate_factsChange {facts : SeriesFacts δ R} {bars : Bars}
    {descriptor : Option (AdjustmentDescriptor R)} {changed : Changed}
    (hcovers : ∀ day, bars.get? day ≠ facts.bars.get? day →
      ∃ first latest, changed = some (first, latest) ∧ first ≤ day ∧
        (day ∈ bars.keys → day ≤ latest)) :
    FactsChange facts (SeriesFacts.invalidate { facts with bars, descriptor } changed) where
  stream := by
    cases changed with
    | none => exact ⟨_, _, _, rfl⟩
    | some range => exact ⟨_, _, _, rfl⟩
  revision := by
    cases changed with
    | none => exact le_rfl
    | some range => exact Int.le_add_one le_rfl
  changed day := by
    by_cases heq : bars.get? day = facts.bars.get? day
    · left
      cases changed <;> exact heq
    · obtain ⟨first, latest, rfl, hfirst, -⟩ := hcovers day heq
      obtain ⟨dirtyFrom, hdirty, hle, -⟩ := facts.stream.invalidateChanged_dirtyFrom first latest
      exact .inr ⟨dirtyFrom, hdirty, hle.trans hfirst⟩
  dirty {old} hold := by
    cases changed with
    | none => exact ⟨old, le_rfl, hold⟩
    | some range =>
      obtain ⟨dirtyFrom, hdirty, -, hle⟩ :=
        facts.stream.invalidateChanged_dirtyFrom range.1 range.2
      exact ⟨dirtyFrom, hle _ hold, hdirty⟩
  latest hold day hday := by
    cases changed with
    | none =>
      have heq : bars.get? day = facts.bars.get? day := by
        by_contra hne
        obtain ⟨_, _, h, -⟩ := hcovers day hne
        cases h
      exact hold day (Table.mem_keys.mpr (heq ▸ Table.mem_keys.mp hday))
    | some range =>
      obtain ⟨l, hl, hle, hmono⟩ :=
        facts.stream.invalidateChanged_latestBarDate range.1 range.2
      refine ⟨l, hl, ?_⟩
      by_cases heq : bars.get? day = facts.bars.get? day
      · obtain ⟨l', hl', hday'⟩ :=
          hold day (Table.mem_keys.mpr (heq ▸ Table.mem_keys.mp hday))
        exact hday'.trans (hmono _ hl')
      · obtain ⟨_, _, h, -, hlate⟩ := hcovers day heq
        cases h
        exact (hlate hday).trans hle

theorem applyUpsert_factsChange [DecidableEq R] (facts : SeriesFacts δ R) (records : Bars)
    (revision : Option R) : FactsChange facts (facts.applyUpsert records revision) := by
  have hcovers (day : Date) := @upsertInSession_covers facts.bars records day
  rw [applyUpsert]
  generalize upsertInSession facts.bars records = upserted at hcovers
  cases revision with
  | none =>
    refine @invalidate_factsChange _ _ facts _ facts.descriptor _ fun day h => ?_
    obtain ⟨first, latest, hc, hf, hl⟩ := hcovers day h
    exact ⟨first, latest, hc, hf, fun _ => hl⟩
  | some revision =>
    exact invalidate_factsChange fun day h => Changed.covers_revise (hcovers day h) _ _

/-- A reconciliation whose records cover the replaced range. -/
theorem applyReconcile_factsChange (facts : SeriesFacts δ R) {records : Bars}
    {coverageStart coverageEnd : Date} (h : reconcileCovers records coverageStart coverageEnd)
    (revision : Option R) :
    FactsChange facts (facts.applyReconcile records coverageStart coverageEnd revision) := by
  simp only [reconcileCovers, Bool.and_eq_true, Option.any_eq_true] at h
  obtain ⟨-, latest, hlatest, -⟩ := h
  have hcovers (day : Date) := @upsertInSession_covers facts.bars records day
  have hget (day : Date) := get?_upsertInSession facts.bars records day
  simp only [applyReconcile, hlatest]
  generalize upsertInSession facts.bars records = upserted at hcovers hget
  generalize hdeleted : upserted.1.filter (isDeleted records coverageStart coverageEnd) = deleted
  refine invalidate_factsChange fun day hday => ?_
  -- the days an upsert or a deletion changes are covered before the coverage start is added
  have hbefore : ∃ first latest', (match deleted.minKey? with
      | none => upserted.2
      | some first => upserted.2.combine first latest) = some (first, latest') ∧ first ≤ day := by
    by_cases hup : upserted.1.get? day = facts.bars.get? day
    · have hmem : day ∈ deleted.keys := by
        rw [Table.get?_filter] at hday
        by_cases hd : isDeleted records coverageStart coverageEnd day
        · obtain ⟨x, hx⟩ : ∃ x, facts.bars.get? day = some x :=
            Option.ne_none_iff_exists'.mp fun hnone => by simp [hd, hnone] at hday
          exact Table.mem_keys.mpr ⟨x, by rw [← hdeleted, Table.get?_filter, if_pos hd, hup, hx]⟩
        · simp [hd, hup] at hday
      obtain ⟨d, hd⟩ := Table.exists_minKey? hmem
      obtain ⟨F, hF, hle, -⟩ := upserted.2.combine_spec d latest
      exact ⟨F, latest, by rw [hd]; exact hF, hle.trans (Table.minKey?_le hd hmem)⟩
    · obtain ⟨first, latest', hc, hf, -⟩ := hcovers day hup
      cases hmin : deleted.minKey? with
      | none => exact ⟨first, latest', hc, hf⟩
      | some d =>
        obtain ⟨F, hF, -, hmono⟩ := upserted.2.combine_spec d latest
        exact ⟨F, latest, hF, (hmono _ _ hc).trans hf⟩
  obtain ⟨first, latest', hc, hf⟩ := hbefore
  obtain ⟨F, hF, -, hmono⟩ := Changed.combine_spec _ coverageStart latest
  refine ⟨F, latest, hF, (hmono _ _ hc).trans hf, fun hkey => ?_⟩
  -- a changed day that is still stored was among the records
  obtain ⟨x, hx⟩ := Table.mem_keys.mp hkey
  rw [Table.get?_filter] at hx hday
  split at hx
  · next hkept =>
    rw [if_pos hkept, hget] at hday
    cases hrec : records.get? day with
    | none => rw [hrec, Option.none_or] at hday; exact absurd rfl hday
    | some bar => exact Table.le_maxKey? hlatest (Table.mem_keys.mpr ⟨bar, hrec⟩)
  · cases hx

end SeriesFacts

end Apanel
