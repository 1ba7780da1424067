import Apanel.Hub.Sync
import Apanel.Library.Causal

/-!
# Isolation of the symbols of a sync

Up to its completion, a sync is the product of the syncs of its symbols (`syncSymbol`): what it does
to one symbol depends on the answers for that symbol and on its rows. The completion is one call for
all good symbols; `sync_results_eq_iff` says when it spoils the isolation.
-/

namespace Apanel

namespace HubDatabase

variable {Symbol δ R : Type} {db db' : HubDatabase Symbol δ R} {adjustment : Adjustment}

theorem modify_of_notMem [DecidableEq Symbol] {symbols : List Symbol}
    {f : Symbol → SeriesFacts δ R → SeriesFacts δ R} {x : Symbol} (h : x ∉ symbols) :
    db.modify symbols adjustment f x = db x :=
  if_neg h

theorem modify_congr [DecidableEq Symbol] {symbols symbols' : List Symbol}
    {f f' : Symbol → SeriesFacts δ R → SeriesFacts δ R} {x : Symbol} (hdb : db x = db' x)
    (hsymbols : x ∈ symbols ↔ x ∈ symbols') (hf : f x = f' x) :
    db.modify symbols adjustment f x = db'.modify symbols' adjustment f' x := by
  simp only [modify, hdb, hf, hsymbols]

/-- The row of the symbol exists and no other run has reserved it. -/
def Writable (db : HubDatabase Symbol δ R) (generations : Symbol → Option ℤ)
    (adjustment : Adjustment) (symbol : Symbol) : Prop :=
  (db symbol).isSome ∧ generations symbol = db.generation adjustment symbol

instance (db : HubDatabase Symbol δ R) (generations : Symbol → Option ℤ) (adjustment : Adjustment)
    (symbol : Symbol) : Decidable (db.Writable generations adjustment symbol) :=
  inferInstanceAs (Decidable (_ ∧ _))

theorem Writable.congr (adjustment : Adjustment) {generations generations' : Symbol → Option ℤ} {x : Symbol}
    (hdb : db x = db' x) (hgenerations : generations x = generations' x) :
    db.Writable generations adjustment x ↔ db'.Writable generations' adjustment x := by
  simp only [Writable, generation, hdb, hgenerations]

variable [ToString Symbol]

/-- A write is refused when a symbol has no row, or has been reserved again. -/
theorem checkWrite_eq (db : HubDatabase Symbol δ R) (symbols : List Symbol)
    (generations : Symbol → Option ℤ) (adjustment : Adjustment) :
    ((∀ y ∈ symbols, db.Writable generations adjustment y) ∧
      db.checkWrite symbols generations adjustment = .ok ()) ∨
    (∃ y ∈ symbols, ¬ db.Writable generations adjustment y) ∧
      ∃ error, db.checkWrite symbols generations adjustment = .error error ∧
        error.isSystemic = false := by
  unfold checkWrite securityIds
  dsimp only
  split
  · next hmissing =>
    have hrows : ∀ y ∈ symbols, (db y).isSome := by
      intro y hy
      by_contra hrow
      have := List.filter_eq_nil_iff.mp hmissing y hy
      rw [Option.not_isSome_iff_eq_none] at hrow
      simp [hrow] at this
    rw [Except.ok_bind, checkFences]
    split
    · next hfences => exact .inl ⟨fun y hy => ⟨hrows y hy, hfences y hy⟩, rfl⟩
    · next hfences =>
      push Not at hfences
      obtain ⟨y, hy, hne⟩ := hfences
      exact .inr ⟨⟨y, hy, fun h => hne h.2⟩, _, rfl, rfl⟩
  · next hmissing =>
    obtain ⟨y, hy⟩ := List.exists_mem_of_ne_nil _ hmissing
    obtain ⟨hy, hnone⟩ := List.mem_filter.mp hy
    refine .inr ⟨⟨y, hy, fun h => ?_⟩, _, rfl, rfl⟩
    have hrow := h.1
    rw [Option.isNone_iff_eq_none.mp hnone] at hrow
    cases hrow

/-- The write of a reconciliation that passes the checks. -/
theorem reconcileRevision_ok [DecidableEq Symbol] [DecidableEq R] {db : HubDatabase Symbol δ R} {x : Symbol}
    {generations : Symbol → Option ℤ} {records : Bars} {coverageStart coverageEnd : Date}
    (hrows : records.rows ≠ [])
    (hcovers : SeriesFacts.reconcileCovers records coverageStart coverageEnd)
    (hwritable : db.Writable generations adjustment x) (revision : Option R) :
    db.reconcileRevision x records adjustment coverageStart coverageEnd generations revision =
      .ok (db.modify [x] adjustment fun _ facts =>
        facts.applyReconcile records coverageStart coverageEnd revision) := by
  unfold reconcileRevision
  rw [if_neg hrows, hcovers]
  rcases db.checkWrite_eq [x] generations adjustment with ⟨-, hcheck⟩ | ⟨⟨y, hy, hnot⟩, -⟩
  · rw [hcheck]
    rfl
  · cases List.mem_singleton.mp hy
    exact absurd hwritable hnot

/-- The checks of one symbol read its row and its generation only. -/
theorem checkWrite_congr {generations generations' : Symbol → Option ℤ} {x : Symbol}
    (hdb : db x = db' x) (hgenerations : generations x = generations' x) :
    db.checkWrite [x] generations adjustment = db'.checkWrite [x] generations' adjustment := by
  simp only [checkWrite, securityIds, checkFences, generation, List.filter_cons, List.filter_nil,
    List.forall_mem_singleton, hdb, hgenerations]

end HubDatabase

/-! ## What a run says of one symbol -/

/-- Two runs say the same of a symbol. -/
structure SyncRun.AgreeOn {Symbol δ R : Type} (x : Symbol) (a b : SyncRun Symbol δ R) : Prop where
  db : a.db x = b.db x
  results : a.results x = b.results x
  revision : a.revisionBySymbol x = b.revisionBySymbol x
  normal : x ∈ a.normalSymbols ↔ x ∈ b.normalSymbols
  pending : a.pending x = b.pending x

namespace SyncRun.AgreeOn

variable {Symbol δ R : Type} {x y : Symbol} {a b c : SyncRun Symbol δ R}

theorem refl (x : Symbol) (a : SyncRun Symbol δ R) : AgreeOn x a a := ⟨rfl, rfl, rfl, .rfl, rfl⟩

theorem symm (h : AgreeOn x a b) : AgreeOn x b a :=
  ⟨h.db.symm, h.results.symm, h.revision.symm, h.normal.symm, h.pending.symm⟩

theorem trans (h : AgreeOn x a b) (h' : AgreeOn x b c) : AgreeOn x a c :=
  ⟨h.db.trans h'.db, h.results.trans h'.results, h.revision.trans h'.revision,
    h.normal.trans h'.normal, h.pending.trans h'.pending⟩

/-- A loop that leaves the other symbols alone is its iterations for the symbol. -/
theorem foldl_filter [DecidableEq Symbol] {f : SyncRun Symbol δ R → Symbol → SyncRun Symbol δ R}
    (hf : ∀ a b, AgreeOn x a b → AgreeOn x (f a x) (f b x))
    (hframe : ∀ a y, y ≠ x → AgreeOn x (f a y) a) (l : List Symbol) (h : AgreeOn x a b) :
    AgreeOn x (l.foldl f a) ((l.filter (· = x)).foldl f b) := by
  induction l generalizing a b with
  | nil => exact h
  | cons y l ih =>
    by_cases hy : y = x
    · rw [List.filter_cons_of_pos (by simpa using hy)]
      subst hy
      exact ih (hf a b h)
    · rw [List.filter_cons_of_neg (by simpa using hy)]
      exact ih ((hframe a y hy).trans h)

theorem foldl_replicate {f g : SyncRun Symbol δ R → Symbol → SyncRun Symbol δ R}
    (hfg : ∀ a b, AgreeOn x a b → AgreeOn x (f a x) (g b x)) (n : ℕ) (h : AgreeOn x a b) :
    AgreeOn x ((List.replicate n x).foldl f a) ((List.replicate n x).foldl g b) := by
  induction n generalizing a b with
  | zero => exact h
  | succ n ih => exact ih (hfg a b h)

/-- Two loops over lists in which the symbol occurs as often. -/
theorem foldl [DecidableEq Symbol] {f g : SyncRun Symbol δ R → Symbol → SyncRun Symbol δ R}
    (hf : ∀ a b, AgreeOn x a b → AgreeOn x (f a x) (f b x))
    (hg : ∀ a b, AgreeOn x a b → AgreeOn x (g a x) (g b x))
    (hfg : ∀ a b, AgreeOn x a b → AgreeOn x (f a x) (g b x))
    (hframe : ∀ a y, y ≠ x → AgreeOn x (f a y) a) (hframe' : ∀ a y, y ≠ x → AgreeOn x (g a y) a)
    {l l' : List Symbol} (hl : l.count x = l'.count x) (h : AgreeOn x a b) :
    AgreeOn x (l.foldl f a) (l'.foldl g b) := by
  refine (foldl_filter hf hframe l (refl x a)).trans
    (.trans ?_ (foldl_filter hg hframe' l' (refl x b)).symm)
  have hfilter (l : List Symbol) : l.filter (· = x) = List.replicate (l.count x) x := by
    rw [← List.filter_eq]
  rw [hfilter, hfilter, hl]
  exact foldl_replicate hfg _ h

/-- A loop in which every iteration that touches the symbol does the same. -/
theorem foldl_once {ι : Type} (f : SyncRun Symbol δ R → ι → SyncRun Symbol δ R)
    {F : SyncRun Symbol δ R → SyncRun Symbol δ R} (touches : ι → Prop) {l : List ι}
    (hF : ∀ a b, AgreeOn x a b → AgreeOn x (F a) (F b)) (hidem : ∀ a, AgreeOn x (F (F a)) (F a))
    (htouch : ∀ i ∈ l, touches i → ∀ a, AgreeOn x (f a i) (F a))
    (hframe : ∀ i ∈ l, ¬ touches i → ∀ a, AgreeOn x (f a i) a) (a : SyncRun Symbol δ R) :
    ((∃ i ∈ l, touches i) → AgreeOn x (l.foldl f a) (F a)) ∧
      ((¬ ∃ i ∈ l, touches i) → AgreeOn x (l.foldl f a) a) := by
  induction l generalizing a with
  | nil => exact ⟨fun ⟨i, hi, _⟩ => absurd hi List.not_mem_nil, fun _ => refl x a⟩
  | cons i l ih =>
    obtain ⟨ihtouch, ihframe⟩ := ih (fun j hj => htouch j (List.mem_cons_of_mem _ hj))
      (fun j hj => hframe j (List.mem_cons_of_mem _ hj)) (f a i)
    by_cases hi : touches i
    · have hhead := htouch i List.mem_cons_self hi a
      refine ⟨fun _ => ?_, fun h => absurd ⟨i, List.mem_cons_self, hi⟩ h⟩
      by_cases hrest : ∃ j ∈ l, touches j
      · exact (ihtouch hrest).trans ((hF _ _ hhead).trans (hidem a))
      · exact (ihframe hrest).trans hhead
    · have hhead := hframe i List.mem_cons_self hi a
      constructor
      · rintro ⟨j, hj, hjt⟩
        obtain rfl | hj := List.mem_cons.mp hj
        · exact absurd hjt hi
        · exact (ihtouch ⟨j, hj, hjt⟩).trans (hF _ _ hhead)
      · intro hnone
        exact (ihframe fun ⟨j, hj, hjt⟩ => hnone ⟨j, List.mem_cons_of_mem _ hj, hjt⟩).trans hhead

/-- Two loops in which every iteration that touches the symbol does the same. -/
theorem foldl_both {ι : Type} (touches : ι → Prop)
    {f f' : SyncRun Symbol δ R → ι → SyncRun Symbol δ R}
    {F F' : SyncRun Symbol δ R → SyncRun Symbol δ R} {l l' : List ι}
    (hF : ∀ a b, AgreeOn x a b → AgreeOn x (F a) (F b))
    (hF' : ∀ a b, AgreeOn x a b → AgreeOn x (F' a) (F' b))
    (hFF' : ∀ a b, AgreeOn x a b → AgreeOn x (F a) (F' b))
    (hidem : ∀ a, AgreeOn x (F (F a)) (F a)) (hidem' : ∀ a, AgreeOn x (F' (F' a)) (F' a))
    (hf : ∀ i a, (touches i → AgreeOn x (f a i) (F a)) ∧ (¬ touches i → AgreeOn x (f a i) a))
    (hf' : ∀ i a, (touches i → AgreeOn x (f' a i) (F' a)) ∧
      (¬ touches i → AgreeOn x (f' a i) a))
    (hl : (∃ i ∈ l, touches i) ↔ ∃ i ∈ l', touches i) (h : AgreeOn x a b) :
    AgreeOn x (l.foldl f a) (l'.foldl f' b) := by
  have hleft := foldl_once f touches (l := l) hF hidem (fun i _ hi a => (hf i a).1 hi)
    (fun i _ hi a => (hf i a).2 hi) a
  have hright := foldl_once f' touches (l := l') hF' hidem' (fun i _ hi a => (hf' i a).1 hi)
    (fun i _ hi a => (hf' i a).2 hi) b
  by_cases htouched : ∃ i ∈ l, touches i
  · exact (hleft.1 htouched).trans ((hFF' a b h).trans (hright.1 (hl.mp htouched)).symm)
  · exact (hleft.2 htouched).trans (h.trans (hright.2 fun h => htouched (hl.mpr h)).symm)

variable [DecidableEq Symbol]

theorem report (h : AgreeOn x a b) (result : SyncItemResult) :
    AgreeOn x (a.report x result) (b.report x result) :=
  ⟨h.db, by simp [SyncRun.report], h.revision, h.normal, h.pending⟩

theorem report_of_ne (hy : y ≠ x) (a : SyncRun Symbol δ R) (result : SyncItemResult) :
    AgreeOn x (a.report y result) a :=
  ⟨rfl, Function.update_of_ne hy.symm _ _, rfl, .rfl, rfl⟩

theorem hold (h : AgreeOn x a b) (bars : Option Bars) :
    AgreeOn x (a.hold x bars) (b.hold x bars) :=
  ⟨h.db, h.results, h.revision, h.normal, by simp [SyncRun.hold]⟩

theorem hold_of_ne (hy : y ≠ x) (a : SyncRun Symbol δ R) (bars : Option Bars) :
    AgreeOn x (a.hold y bars) a :=
  ⟨rfl, rfl, rfl, .rfl, Function.update_of_ne hy.symm _ _⟩

end SyncRun.AgreeOn

theorem mem_chunks {α : Type} {size : ℕ} (hsize : 0 < size) {l : List α} {x : α} :
    (∃ chunk ∈ chunks size l, x ∈ chunk) ↔ x ∈ l := by
  constructor
  · rintro ⟨chunk, hchunk, hx⟩
    obtain ⟨i, -, rfl⟩ := List.mem_map.mp hchunk
    exact List.mem_of_mem_drop (List.mem_of_mem_take hx)
  · intro hx
    obtain ⟨k, hk, rfl⟩ := List.getElem_of_mem hx
    refine ⟨_, List.mem_map.mpr ⟨k / size, List.mem_range.mpr ?_, rfl⟩, ?_⟩
    · rw [Nat.div_lt_iff_lt_mul hsize]
      have := Nat.lt_div_mul_add hsize (a := l.length + size - 1)
      omega
    · rw [List.mem_take_iff_getElem]
      have hmod := Nat.mod_lt k hsize
      have hdiv := Nat.div_add_mod' k size
      refine ⟨k % size, ?_, ?_⟩
      · rw [List.length_drop]
        omega
      · rw [List.getElem_drop]
        simp only [hdiv]

/-! ## Steps of a run -/

section Steps

variable {Symbol δ R : Type} [DecidableEq Symbol] [DecidableEq R] [ToString Symbol]

omit [DecidableEq R] in
theorem HubDatabase.reconcileRevision_congr {db db' : HubDatabase Symbol δ R} {x : Symbol}
    {generations generations' : Symbol → Option ℤ} (records : Bars) (adjustment : Adjustment)
    (coverageStart coverageEnd : Date) (revision : Option R) (hdb : db x = db' x)
    (hgenerations : generations x = generations' x) :
    (db.reconcileRevision x records adjustment coverageStart coverageEnd generations
        revision).map (· x) =
      (db'.reconcileRevision x records adjustment coverageStart coverageEnd generations'
        revision).map (· x) := by
  unfold reconcileRevision
  rw [checkWrite_congr hdb hgenerations]
  split
  · rfl
  · split
    · rfl
    · cases db'.checkWrite [x] generations' adjustment with
      | error error => rfl
      | ok _ => exact congrArg Except.ok (modify_congr hdb .rfl rfl)

omit [DecidableEq R] in
theorem HubDatabase.reconcileRevision_frame {db db' : HubDatabase Symbol δ R} {x y : Symbol}
    {generations : Symbol → Option ℤ} {records : Bars} {adjustment : Adjustment}
    {coverageStart coverageEnd : Date} {revision : Option R} (hy : y ≠ x)
    (h : db.reconcileRevision y records adjustment coverageStart coverageEnd generations
      revision = .ok db') : db' x = db x := by
  unfold reconcileRevision at h
  split at h
  · cases h
  · split at h
    · cases h
    · cases hcheck : db.checkWrite [y] generations adjustment with
      | error error => rw [hcheck] at h; cases h
      | ok _ =>
        rw [hcheck] at h
        cases h
        exact modify_of_notMem (by simpa using hy.symm)

namespace SyncEnvironment

variable {A B : SyncEnvironment Symbol δ R} {request : SyncRequest} {x y : Symbol}
  {a b : SyncRun Symbol δ R}

/-- Two situations agree on a symbol: what the provider answers for it, and what other transactions
do to its rows. -/
structure AgreeOn (request : SyncRequest) (x : Symbol) (A B : SyncEnvironment Symbol δ R) :
    Prop where
  batches : A.provider.getDailyBarsBatch.isSome = B.provider.getDailyBarsBatch.isSome
  revisions : A.provider.getAdjustmentRevision.isSome = B.provider.getAdjustmentRevision.isSome
  authoritative : A.provider.authoritativeHistory = B.provider.authoritativeHistory
  batch (count : ℤ) : (A.fetchBatch request count [x]).map (· x) =
    (B.fetchBatch request count [x]).map (· x)
  single : A.provider.getDailyBars x = B.provider.getDailyBars x
  revision (sample : RevisionSample) : A.sampleRevision sample x = B.sampleRevision sample x
  concurrent (step : SyncStep) : A.concurrent step x = B.concurrent step x

/-- No database call fails with a systemic error. -/
def NoOutage (env : SyncEnvironment Symbol δ R) : Prop := ∀ call, env.outage call = none

omit [DecidableEq Symbol] [DecidableEq R] [ToString Symbol] in
theorem adjustment_of_tracksRevisions {service : DailyBarSyncService}
    (h : A.tracksRevisions service request) : request.adjustment = .qfq := by
  unfold tracksRevisions at h
  simp only [Bool.and_eq_true, decide_eq_true_eq] at h
  exact h.1.1.1

omit [DecidableEq Symbol] [DecidableEq R] [ToString Symbol] in
theorem batches_of_tracksRevisions {service : DailyBarSyncService}
    (h : A.tracksRevisions service request) : A.provider.getDailyBarsBatch.isSome := by
  unfold tracksRevisions at h
  simp only [Bool.and_eq_true] at h
  exact h.2

omit [DecidableEq Symbol] [DecidableEq R] [ToString Symbol] in
/-- A call that returns has not met an outage. -/
theorem eq_ok_of_call {hubCall : HubCall Symbol} {α : Type} {outcome : Except HubError α} {value : α}
    (h : A.call hubCall outcome = .ok value) : outcome = .ok value := by
  unfold call at h
  split at h
  · cases h
  · exact h

omit [DecidableEq Symbol] [DecidableEq R] [ToString Symbol] in
theorem eq_ok_of_ite_call {skipped : Prop} [Decidable skipped] {hubCall : HubCall Symbol} {α : Type}
    {outcome : Except HubError α} {value : α}
    (h : (if skipped then outcome else A.call hubCall outcome) = .ok value) :
    outcome = .ok value := by
  split at h
  · exact h
  · exact eq_ok_of_call h

omit [DecidableEq Symbol] [DecidableEq R] [ToString Symbol] in
theorem NoOutage.call_eq (hA : A.NoOutage) (hubCall : HubCall Symbol) {α : Type}
    (outcome : Except HubError α) : A.call hubCall outcome = outcome := by
  unfold call
  rw [hA]

omit [DecidableEq Symbol] [DecidableEq R] [ToString Symbol] in
theorem AgreeOn.refl (request : SyncRequest) (x : Symbol) (A : SyncEnvironment Symbol δ R) :
    AgreeOn request x A A :=
  ⟨rfl, rfl, rfl, fun _ => rfl, rfl, fun _ => rfl, fun _ => rfl⟩

omit [DecidableEq Symbol] [ToString Symbol] in
theorem readStaleHistory_eq (hA : A.NoOutage) (turn : ℕ) (db : HubDatabase Symbol δ R)
    (revision : R) :
    A.readStaleHistory turn db x revision = .ok ((db x).bind (·.staleHistory revision)) := by
  unfold readStaleHistory
  rw [hA (.descriptor turn x), hA (.history turn x)]
  dsimp only
  split
  · rfl
  · next hstate =>
    cases hrow : db x with
    | none => rfl
    | some series =>
      rw [hrow] at hstate
      simp only [Option.bind_some] at hstate ⊢
      unfold SecuritySeries.staleHistory
      cases hd : (series .qfq).descriptor with
      | none => rw [hd] at hstate; exact absurd rfl hstate
      | some state =>
        rw [hd] at hstate
        simp only [Option.all_some, decide_eq_true_eq, not_not] at hstate
        simp [hstate]

/-- The checks of a rebuild on the validated bars. -/
def checkRebuild (env : SyncEnvironment Symbol δ R) (request : SyncRequest) (symbol : Symbol)
    (revision : R) (existing bars : Bars) : Except HubError RevisionRebuild := do
  let bars := request.cutoff bars
  let changedFrom := existing.minKey?.or bars.minKey?
  match bars.minKey?, bars.maxKey? with
  | some first, some latest =>
    let coverageStart := existing.minKey?.getD first
    let coverageEnd := existing.maxKey?.getD latest
    if first > coverageStart ∨ latest < coverageEnd then
      throw ⟨.invalidMarketData, "qfq revision returned incomplete coverage"⟩
    if (∃ day ∈ existing.keys, bars.get? day = none) ∧ ¬ env.provider.authoritativeHistory then
      throw ⟨.invalidMarketData, "qfq revision deletion needs an authoritative source"⟩
    if (← env.sampleRevision .after symbol) ≠ revision then
      throw ⟨.unavailable, "qfq revision changed during fetch"⟩
    return { bars, changedFrom, coverage := some (coverageStart, coverageEnd) }
  | _, _ =>
    if existing.rows ≠ [] then
      throw ⟨.invalidMarketData, "provider returned no bars during qfq revision rebuild"⟩
    return { bars, changedFrom, coverage := none }

/-- The bars a rebuild asks for. -/
def fullCount (count : ℤ) (existing : Bars) : ℤ := max (max count (existing.rows.length + 32)) 400

/-- A rebuild is a fetch, a validation and the checks. -/
theorem planRebuild_eq (env : SyncEnvironment Symbol δ R) (request : SyncRequest) (count : ℤ)
    (symbol : Symbol) (revision : R) (existing : Bars) :
    env.planRebuild request count symbol revision existing =
      if request.last.any fun last => existing.maxKey?.any (last < ·) then
        .error ⟨.invalidMarketData,
          "qfq revision cannot use a historical cutoff before stored coverage"⟩
      else
        env.fetchBatch request (fullCount count existing) [symbol] >>= fun bySymbol =>
          match bySymbol symbol with
          | none => .error ⟨.unavailable, "provider omitted requested revision symbol"⟩
          | some records => validatedBars symbol records request.adjustment >>=
              env.checkRebuild request symbol revision existing := by
  unfold planRebuild
  dsimp only
  split
  · rfl
  · unfold fullCount
    cases env.fetchBatch request (max (max count (existing.rows.length + 32)) 400) [symbol] with
    | error error => rfl
    | ok bySymbol =>
      rw [Except.ok_bind, Except.ok_bind]
      cases bySymbol symbol with
      | none => rfl
      | some records => rfl

omit [DecidableEq Symbol] [ToString Symbol] in
theorem checkRebuild_congr (h : AgreeOn request x A B) (revision : R) (existing : Bars) :
    A.checkRebuild request x revision existing = B.checkRebuild request x revision existing := by
  funext bars
  simp only [checkRebuild, h.authoritative, h.revision]

theorem planRebuild_congr (h : AgreeOn request x A B) (count : ℤ) (revision : R)
    (existing : Bars) :
    A.planRebuild request count x revision existing =
      B.planRebuild request count x revision existing := by
  have hbatch := h.batch (fullCount count existing)
  rw [planRebuild_eq, planRebuild_eq, checkRebuild_congr h]
  split
  · rfl
  · cases hA : A.fetchBatch request (fullCount count existing) [x] with
    | error error =>
      rw [hA] at hbatch
      cases hB : B.fetchBatch request (fullCount count existing) [x] with
      | error error' => rw [hB] at hbatch; cases hbatch; rfl
      | ok bySymbol' => rw [hB] at hbatch; cases hbatch
    | ok bySymbol =>
      rw [hA] at hbatch
      cases hB : B.fetchBatch request (fullCount count existing) [x] with
      | error error' => rw [hB] at hbatch; cases hbatch
      | ok bySymbol' =>
        rw [hB] at hbatch
        have heq : bySymbol x = bySymbol' x := Except.ok.inj hbatch
        rw [Except.ok_bind, Except.ok_bind, heq]

omit [DecidableEq R] [ToString Symbol] in
theorem beforeSymbol_congr (h : AgreeOn request x A B) (step : SyncStep)
    {db db' : HubDatabase Symbol δ R} (hdb : db x = db' x) :
    A.beforeSymbol step x db x = B.beforeSymbol step x db' x := by
  simp only [beforeSymbol, Function.update_self, h.concurrent, hdb]

omit [DecidableEq R] [ToString Symbol] in
theorem beforeSymbol_of_ne (hy : y ≠ x) (step : SyncStep) (db : HubDatabase Symbol δ R) :
    A.beforeSymbol step y db x = db x :=
  Function.update_of_ne hy.symm _ _

/-- A history under the current revision is not stale. -/
theorem staleHistory_eq_none {series : SecuritySeries δ R} {revision : R}
    (h : (series .qfq).descriptor.map (·.revisionHash) = some revision) :
    series.staleHistory revision = none := by
  unfold SecuritySeries.staleHistory
  split
  · next hnone =>
    rw [hnone] at h
    cases h
  · next state hstate =>
    rw [hstate] at h
    rw [if_neg (not_not.mpr (Option.some.inj h))]

omit [DecidableEq R] in
/-- A reconciliation installs the revision. -/
theorem descriptor_applyReconcile (facts : SeriesFacts δ R) (records : Bars)
    (coverageStart coverageEnd : Date) (revision : R) :
    (facts.applyReconcile records coverageStart coverageEnd (some revision)).descriptor.map
      (·.revisionHash) = some revision := by
  have hinvalidate (facts : SeriesFacts δ R) (changed : Changed) :
      (facts.invalidate changed).descriptor = facts.descriptor := by
    unfold SeriesFacts.invalidate
    split <;> rfl
  unfold SeriesFacts.applyReconcile
  dsimp only
  split
  · rfl
  · rw [hinvalidate]
    rfl

/-- No other transaction touches the rows of the symbol. -/
def Quiet (env : SyncEnvironment Symbol δ R) (x : Symbol) : Prop :=
  ∀ step row, env.concurrent step x row = row

omit [DecidableEq R] [ToString Symbol] in
theorem Quiet.beforeSymbol_eq (h : A.Quiet x) (step : SyncStep) (db : HubDatabase Symbol δ R) :
    A.beforeSymbol step x db = db := by
  unfold beforeSymbol
  rw [h, Function.update_eq_self]

omit [DecidableEq Symbol] [DecidableEq R] [ToString Symbol] in
theorem Quiet.before_eq (h : A.Quiet x) (step : SyncStep) (db : HubDatabase Symbol δ R) :
    A.before step db x = db x :=
  h step (db x)

/-- The revision branch, where only this run writes. -/
theorem Quiet.syncRevision_eq (h : A.Quiet x) (hA : A.NoOutage) (generations : Symbol → Option ℤ)
    (count : ℤ) (turn : ℕ) (a : SyncRun Symbol δ R) :
    A.syncRevision request generations count turn a x =
      match A.sampleRevision .before x with
      | .error error => a.report x (.ofError error)
      | .ok revision =>
        let a := { a with
          revisionBySymbol := Function.update a.revisionBySymbol x (some revision) }
        match (a.db x).bind (·.staleHistory revision) with
        | none => { a with normalSymbols := a.normalSymbols ++ [x] }
        | some existing =>
          match A.planRebuild request count x revision existing with
          | .error error => a.report x (.ofError error)
          | .ok rebuild => A.writeRebuild request generations turn x revision rebuild a := by
  unfold syncRevision
  cases A.sampleRevision .before x with
  | error error => rfl
  | ok revision =>
    dsimp only
    rw [h.beforeSymbol_eq, readStaleHistory_eq hA]
    cases (a.db x).bind (·.staleHistory revision) <;> rfl

omit [DecidableEq R] in
theorem writeRebuild_agree (h : AgreeOn request x A B) (hA : A.NoOutage) (hB : B.NoOutage)
    {generations generations' : Symbol → Option ℤ} (hgenerations : generations x = generations' x)
    {turn : ℕ} (revision : R) (rebuild : RevisionRebuild) (hrun : SyncRun.AgreeOn x a b) :
    SyncRun.AgreeOn x (A.writeRebuild request generations turn x revision rebuild a)
      (B.writeRebuild request generations' turn x revision rebuild b) := by
  unfold writeRebuild
  dsimp only
  cases rebuild.coverage with
  | none => exact hrun.report _
  | some range =>
    have hdb := beforeSymbol_congr h .rebuild hrun.db
    have hreconcile := HubDatabase.reconcileRevision_congr rebuild.bars request.adjustment range.1
      range.2 (some revision) hdb hgenerations
    dsimp only
    rw [hA.call_eq, hB.call_eq]
    have hrun' : SyncRun.AgreeOn x { a with db := A.beforeSymbol .rebuild x a.db }
        { b with db := B.beforeSymbol .rebuild x b.db } :=
      ⟨hdb, hrun.results, hrun.revision, hrun.normal, hrun.pending⟩
    split
    · next db hok =>
      rw [hok] at hreconcile
      split
      · next db' hok' =>
        rw [hok'] at hreconcile
        refine SyncRun.AgreeOn.report ?_ _
        exact ⟨Except.ok.inj hreconcile, hrun.results, hrun.revision, hrun.normal, hrun.pending⟩
      · next error' herror' => rw [herror'] at hreconcile; cases hreconcile
    · next error herror =>
      rw [herror] at hreconcile
      cases hB' : (B.beforeSymbol .rebuild x b.db).reconcileRevision x rebuild.bars
        request.adjustment range.1 range.2 generations' (some revision) with
      | ok db' => rw [hB'] at hreconcile; cases hreconcile
      | error error' =>
        rw [hB'] at hreconcile
        cases hreconcile
        dsimp only
        split <;> exact hrun'.report _

omit [DecidableEq R] in
theorem writeRebuild_frame (hy : y ≠ x) (generations : Symbol → Option ℤ) {turn : ℕ} (revision : R)
    (rebuild : RevisionRebuild) (a : SyncRun Symbol δ R) :
    SyncRun.AgreeOn x (A.writeRebuild request generations turn y revision rebuild a) a := by
  unfold writeRebuild
  dsimp only
  cases rebuild.coverage with
  | none => exact .report_of_ne hy a _
  | some range =>
    have hbefore : SyncRun.AgreeOn x { a with db := A.beforeSymbol .rebuild y a.db } a :=
      ⟨beforeSymbol_of_ne hy _ _, rfl, rfl, .rfl, rfl⟩
    dsimp only
    split
    · next db hcall =>
      have hok := eq_ok_of_call hcall
      refine (SyncRun.AgreeOn.report_of_ne hy _ _).trans ?_
      exact ⟨(HubDatabase.reconcileRevision_frame hy hok).trans (beforeSymbol_of_ne hy _ _), rfl,
        rfl, .rfl, rfl⟩
    · split <;> exact (SyncRun.AgreeOn.report_of_ne hy _ _).trans hbefore

theorem syncRevision_agree (h : AgreeOn request x A B) (hA : A.NoOutage) (hB : B.NoOutage)
    {generations generations' : Symbol → Option ℤ} (hgenerations : generations x = generations' x)
    (count : ℤ) {turn : ℕ} (hrun : SyncRun.AgreeOn x a b) :
    SyncRun.AgreeOn x (A.syncRevision request generations count turn a x)
      (B.syncRevision request generations' count turn b x) := by
  unfold syncRevision
  rw [h.revision]
  split
  · exact hrun.report _
  · next revision _ =>
    have hdb := beforeSymbol_congr h .read hrun.db
    have hrun' : SyncRun.AgreeOn x
        { a with
          revisionBySymbol := Function.update a.revisionBySymbol x (some revision)
          db := A.beforeSymbol .read x a.db }
        { b with
          revisionBySymbol := Function.update b.revisionBySymbol x (some revision)
          db := B.beforeSymbol .read x b.db } :=
      ⟨hdb, hrun.results, by simp, hrun.normal, hrun.pending⟩
    dsimp only
    rw [readStaleHistory_eq hA, readStaleHistory_eq hB, hdb]
    split
    · next heq => cases heq
    · exact ⟨hdb, hrun.results, by simp, by simp, hrun.pending⟩
    · next existing _ =>
      rw [planRebuild_congr h]
      split
      · exact hrun'.report _
      · exact writeRebuild_agree h hA hB hgenerations revision _ hrun'

theorem syncRevision_frame (hy : y ≠ x) (generations : Symbol → Option ℤ) (count : ℤ) {turn : ℕ}
    (a : SyncRun Symbol δ R) :
    SyncRun.AgreeOn x (A.syncRevision request generations count turn a y) a := by
  unfold syncRevision
  split
  · exact .report_of_ne hy a _
  · next revision _ =>
    have hbefore : SyncRun.AgreeOn x
        { a with
          revisionBySymbol := Function.update a.revisionBySymbol y (some revision)
          db := A.beforeSymbol .read y a.db } a :=
      ⟨beforeSymbol_of_ne hy _ _, rfl, Function.update_of_ne hy.symm _ _, .rfl, rfl⟩
    dsimp only
    split
    · exact (SyncRun.AgreeOn.report_of_ne hy _ _).trans hbefore
    · exact ⟨hbefore.db, rfl, hbefore.revision, by simp [hy.symm], rfl⟩
    · split
      · exact (SyncRun.AgreeOn.report_of_ne hy _ _).trans hbefore
      · exact (writeRebuild_frame hy _ _ _ _).trans hbefore

/-- Without outages one turn is like another. -/
theorem NoOutage.compareRevisions_eq (hA : A.NoOutage) (service : DailyBarSyncService)
    (generations : Symbol → Option ℤ) (count : ℤ) (symbols : List Symbol) (a : SyncRun Symbol δ R) :
    A.compareRevisions service request generations count symbols a =
      if A.tracksRevisions service request then
        symbols.foldl (A.syncRevision request generations count 0) a
      else { a with normalSymbols := symbols } := by
  have hturn (run : SyncRun Symbol δ R) (next : Symbol × ℕ) :
      A.syncRevision request generations count next.2 run next.1 =
        A.syncRevision request generations count 0 run next.1 := by
    simp only [syncRevision, readStaleHistory_eq hA, writeRebuild, hA.call_eq]
  unfold compareRevisions
  simp only [hturn]
  rw [← List.foldl_map (f := Prod.fst) (g := A.syncRevision request generations count 0),
    List.zipIdx_map_fst]

/-! ## Batches -/

/-- A provider call for several symbols answers each of them as a call for it alone, or fails with
an invalid-data error when one of them does: there is no provider-wide failure. -/
structure BatchesPerSymbol (fetch : List Symbol → Except HubError (ProviderBatch Symbol)) :
    Prop where
  ok (symbols : List Symbol) : (∀ y ∈ symbols, ∃ answer, fetch [y] = .ok answer) →
    ∃ bySymbol, fetch symbols = .ok bySymbol ∧
      ∀ y ∈ symbols, ∀ answer, fetch [y] = .ok answer → answer y = bySymbol y
  invalid (symbols : List Symbol) (y : Symbol) (error : HubError) : y ∈ symbols →
    fetch [y] = .error error →
    ∃ error', fetch symbols = .error error' ∧ error'.kind = .invalidMarketData

/-- What the batches of the isolation say: every symbol is answered in a batch or has an error. -/
structure Isolated (fetch : List Symbol → Except HubError (ProviderBatch Symbol))
    (symbols : List Symbol) (batches : List (List Symbol × ProviderBatch Symbol))
    (errors : List (Symbol × HubError)) : Prop where
  answered : ∀ batch ∈ batches, ∀ y ∈ batch.1, y ∈ symbols ∧
    ∃ answer, fetch [y] = .ok answer ∧ answer y = batch.2 y
  failed : ∀ error ∈ errors, error.1 ∈ symbols ∧ fetch [error.1] = .error error.2
  covers : ∀ y ∈ symbols, (∃ batch ∈ batches, y ∈ batch.1) ∨ ∃ error ∈ errors, error.1 = y

omit [DecidableEq Symbol] [ToString Symbol] in
theorem Isolated.append {fetch : List Symbol → Except HubError (ProviderBatch Symbol)}
    {left right : List Symbol} {batches batches' : List (List Symbol × ProviderBatch Symbol)}
    {errors errors' : List (Symbol × HubError)} (hleft : Isolated fetch left batches errors)
    (hright : Isolated fetch right batches' errors') :
    Isolated fetch (left ++ right) (batches ++ batches') (errors ++ errors') where
  answered batch hbatch y hy := by
    obtain hbatch | hbatch := List.mem_append.mp hbatch
    · obtain ⟨hmem, hanswer⟩ := hleft.answered batch hbatch y hy
      exact ⟨List.mem_append_left _ hmem, hanswer⟩
    · obtain ⟨hmem, hanswer⟩ := hright.answered batch hbatch y hy
      exact ⟨List.mem_append_right _ hmem, hanswer⟩
  failed error herror := by
    obtain herror | herror := List.mem_append.mp herror
    · obtain ⟨hmem, hanswer⟩ := hleft.failed error herror
      exact ⟨List.mem_append_left _ hmem, hanswer⟩
    · obtain ⟨hmem, hanswer⟩ := hright.failed error herror
      exact ⟨List.mem_append_right _ hmem, hanswer⟩
  covers y hy := by
    obtain hy | hy := List.mem_append.mp hy
    · obtain ⟨batch, hbatch, hmem⟩ | ⟨error, herror, heq⟩ := hleft.covers y hy
      · exact .inl ⟨batch, List.mem_append_left _ hbatch, hmem⟩
      · exact .inr ⟨error, List.mem_append_left _ herror, heq⟩
    · obtain ⟨batch, hbatch, hmem⟩ | ⟨error, herror, heq⟩ := hright.covers y hy
      · exact .inl ⟨batch, List.mem_append_right _ hbatch, hmem⟩
      · exact .inr ⟨error, List.mem_append_right _ herror, heq⟩

omit [DecidableEq Symbol] [ToString Symbol] in
theorem fetchWithInvalidSymbolIsolation_isolated
    {fetch : List Symbol → Except HubError (ProviderBatch Symbol)} (h : BatchesPerSymbol fetch)
    (symbols : List Symbol) :
    ∃ batches errors, fetchWithInvalidSymbolIsolation fetch symbols = .ok (batches, errors) ∧
      Isolated fetch symbols batches errors := by
  induction hn : symbols.length using Nat.strong_induction_on generalizing symbols with
  | _ n ih =>
  unfold fetchWithInvalidSymbolIsolation
  cases hfetch : fetch symbols with
  | ok bySymbol =>
    refine ⟨[(symbols, bySymbol)], [], rfl, ?_, nofun, fun y hy => .inl ⟨_, List.mem_cons_self, hy⟩⟩
    intro batch hbatch y hy
    cases List.mem_singleton.mp hbatch
    have hall : ∀ z ∈ symbols, ∃ answer, fetch [z] = .ok answer := by
      intro z hz
      cases hz' : fetch [z] with
      | ok answer => exact ⟨answer, rfl⟩
      | error error =>
        obtain ⟨error', herror', -⟩ := h.invalid symbols z error hz hz'
        cases hfetch.symm.trans herror'
    obtain ⟨bySymbol', hok, hanswers⟩ := h.ok symbols hall
    cases hfetch.symm.trans hok
    obtain ⟨answer, hanswer⟩ := hall y hy
    exact ⟨hy, answer, hanswer, hanswers y hy answer hanswer⟩
  | error error =>
    -- a symbol of the batch is invalid
    obtain ⟨y, hy, error', herror'⟩ : ∃ y ∈ symbols, ∃ error', fetch [y] = .error error' := by
      by_contra hnone
      push Not at hnone
      obtain ⟨bySymbol, hok, -⟩ := h.ok symbols fun y hy => by
        cases hz : fetch [y] with
        | ok answer => exact ⟨answer, rfl⟩
        | error error' => exact absurd hz (hnone y hy error')
      cases hfetch.symm.trans hok
    obtain ⟨error'', heq, hkind⟩ := h.invalid symbols y error' hy herror'
    cases hfetch.symm.trans heq
    dsimp only
    rw [if_neg (not_not.mpr hkind)]
    split
    · next hlength =>
      obtain ⟨z, rfl⟩ : ∃ z, symbols = [z] := by
        cases symbols with
        | nil => cases hy
        | cons z rest =>
          cases rest with
          | nil => exact ⟨z, rfl⟩
          | cons z' rest => simp at hlength
      refine ⟨[], [(z, error)], rfl, nofun, ?_, fun z' hz' => .inr ⟨_, List.mem_cons_self, ?_⟩⟩
      · intro p hp
        cases List.mem_singleton.mp hp
        exact ⟨List.mem_cons_self, hfetch⟩
      · exact (List.mem_singleton.mp hz').symm
    · next hlength =>
      obtain ⟨batches, errors, hleft, hisolated⟩ :=
        ih (symbols.take (symbols.length / 2)).length (by rw [List.length_take]; omega) _ rfl
      obtain ⟨batches', errors', hright, hisolated'⟩ :=
        ih (symbols.drop (symbols.length / 2)).length (by rw [List.length_drop]; omega) _ rfl
      refine ⟨batches ++ batches', errors ++ errors', ?_, ?_⟩
      · rw [hleft, hright]
        rfl
      · have happend := hisolated.append hisolated'
        rwa [List.take_append_drop] at happend

/-- The fetch of one symbol, by its own answer. -/
def fetchSymbol (env : SyncEnvironment Symbol δ R) (request : SyncRequest) (count : ℤ)
    (symbol : Symbol) (run : SyncRun Symbol δ R) : SyncRun Symbol δ R :=
  match env.fetchBatch request count [symbol] with
  | .error error => run.report symbol (.ofError error)
  | .ok bySymbol => takeFetched request bySymbol run symbol

omit [DecidableEq R] in
theorem takeFetched_agree {bySymbol bySymbol' : ProviderBatch Symbol}
    (h : bySymbol x = bySymbol' x) (hrun : SyncRun.AgreeOn x a b) :
    SyncRun.AgreeOn x (takeFetched request bySymbol a x) (takeFetched request bySymbol' b x) := by
  unfold takeFetched
  rw [h]
  split
  · exact hrun.report _
  · split
    · exact hrun.report _
    · exact (hrun.hold _).report _

omit [DecidableEq R] in
theorem takeFetched_frame (hy : y ≠ x) (bySymbol : ProviderBatch Symbol)
    (a : SyncRun Symbol δ R) : SyncRun.AgreeOn x (takeFetched request bySymbol a y) a := by
  unfold takeFetched
  split
  · exact .report_of_ne hy a _
  · split
    · exact .report_of_ne hy a _
    · exact (SyncRun.AgreeOn.report_of_ne hy _ _).trans (.hold_of_ne hy a _)

omit [DecidableEq R] [ToString Symbol] in
theorem report_idem (result : SyncItemResult) (a : SyncRun Symbol δ R) :
    SyncRun.AgreeOn x ((a.report x result).report x result) (a.report x result) :=
  ⟨rfl, by simp [SyncRun.report], rfl, .rfl, rfl⟩

omit [DecidableEq R] in
theorem takeFetched_idem (bySymbol : ProviderBatch Symbol) (a : SyncRun Symbol δ R) :
    SyncRun.AgreeOn x (takeFetched request bySymbol (takeFetched request bySymbol a x) x)
      (takeFetched request bySymbol a x) := by
  cases hanswer : bySymbol x with
  | none =>
    simp only [takeFetched, hanswer]
    exact report_idem _ a
  | some records =>
    cases hbars : validatedBars x records request.adjustment with
    | error error =>
      simp only [takeFetched, hanswer, hbars]
      exact report_idem _ a
    | ok raw =>
      simp only [takeFetched, hanswer, hbars]
      exact ⟨rfl, by simp [SyncRun.report], rfl, .rfl, by simp [SyncRun.report, SyncRun.hold]⟩

omit [DecidableEq R] in
theorem fetchSymbol_agree (h : AgreeOn request x A B) (count : ℤ) (hrun : SyncRun.AgreeOn x a b) :
    SyncRun.AgreeOn x (A.fetchSymbol request count x a) (B.fetchSymbol request count x b) := by
  have hbatch := h.batch count
  unfold fetchSymbol
  cases hA : A.fetchBatch request count [x] with
  | error error =>
    rw [hA] at hbatch
    cases hB : B.fetchBatch request count [x] with
    | error error' => rw [hB] at hbatch; cases hbatch; exact hrun.report _
    | ok bySymbol' => rw [hB] at hbatch; cases hbatch
  | ok bySymbol =>
    rw [hA] at hbatch
    cases hB : B.fetchBatch request count [x] with
    | error error' => rw [hB] at hbatch; cases hbatch
    | ok bySymbol' => rw [hB] at hbatch; exact takeFetched_agree (Except.ok.inj hbatch) hrun

omit [DecidableEq R] in
theorem fetchSymbol_idem (count : ℤ) (a : SyncRun Symbol δ R) :
    SyncRun.AgreeOn x (A.fetchSymbol request count x (A.fetchSymbol request count x a))
      (A.fetchSymbol request count x a) := by
  unfold fetchSymbol
  split
  · exact report_idem _ a
  · exact takeFetched_idem _ a

omit [DecidableEq R] in
/-- A chunk treats each of its symbols by its own answer. -/
theorem syncChunk_agree {count : ℤ} (h : BatchesPerSymbol (A.fetchBatch request count))
    (chunk : List Symbol) (a : SyncRun Symbol δ R) :
    (x ∈ chunk → SyncRun.AgreeOn x (A.syncChunk request count a chunk)
      (A.fetchSymbol request count x a)) ∧
    (x ∉ chunk → SyncRun.AgreeOn x (A.syncChunk request count a chunk) a) := by
  obtain ⟨batches, errors, heq, hisolated⟩ := fetchWithInvalidSymbolIsolation_isolated h chunk
  have hF (a b : SyncRun Symbol δ R) (hrun : SyncRun.AgreeOn x a b) :=
    fetchSymbol_agree (.refl request x A) count hrun
  unfold syncChunk
  rw [heq]
  dsimp only
  -- the errors first, then the batches
  obtain ⟨herrors, hnoErrors⟩ := SyncRun.AgreeOn.foldl_once
    (fun (run : SyncRun Symbol δ R) error => run.report error.1 (.ofError error.2))
    (fun error => error.1 = x) (l := errors) hF (fetchSymbol_idem count)
    (by
      rintro ⟨y, error⟩ hmem rfl a
      rw [fetchSymbol, (hisolated.failed _ hmem).2]
      exact .refl _ _)
    (fun error _ hne a => .report_of_ne hne a _) a
  have hbatches := fun a => SyncRun.AgreeOn.foldl_once
    (fun (run : SyncRun Symbol δ R) batch => batch.1.foldl (takeFetched request batch.2) run)
    (fun batch => x ∈ batch.1) (l := batches) hF (fetchSymbol_idem count)
    (by
      intro batch hmem hx a
      obtain ⟨-, answer, hanswer, hby⟩ := hisolated.answered batch hmem x hx
      have hinner := SyncRun.AgreeOn.foldl_once (takeFetched request batch.2)
        (fun y => y = x) (l := batch.1) hF (fetchSymbol_idem count)
        (by
          rintro y - rfl a
          rw [fetchSymbol, hanswer]
          exact takeFetched_agree hby.symm (.refl _ _))
        (fun y _ hne a => takeFetched_frame hne _ a) a
      exact hinner.1 ⟨x, hx, rfl⟩)
    (by
      intro batch _ hx a
      have hinner := SyncRun.AgreeOn.foldl_once (takeFetched request batch.2)
        (fun y => y = x) (l := batch.1) hF (fetchSymbol_idem count)
        (by
          rintro y hy rfl a
          exact absurd hy hx)
        (fun y _ hne a => takeFetched_frame hne _ a) a
      exact hinner.2 fun ⟨y, hy, heq⟩ => hx (heq ▸ hy)) a
  constructor
  · intro hx
    by_cases herror : ∃ error ∈ errors, error.1 = x
    · by_cases hbatch : ∃ batch ∈ batches, x ∈ batch.1
      · exact ((hbatches _).1 hbatch).trans
          ((hF _ _ (herrors herror)).trans (fetchSymbol_idem count a))
      · exact ((hbatches _).2 hbatch).trans (herrors herror)
    · have hbatch := (hisolated.covers x hx).resolve_right herror
      exact ((hbatches _).1 hbatch).trans (hF _ _ (hnoErrors herror))
  · intro hx
    have herror : ¬ ∃ error ∈ errors, error.1 = x :=
      fun ⟨error, hmem, heq⟩ => hx (heq ▸ (hisolated.failed error hmem).1)
    have hbatch : ¬ ∃ batch ∈ batches, x ∈ batch.1 :=
      fun ⟨batch, hmem, hxb⟩ => hx (hisolated.answered batch hmem x hxb).1
    exact ((hbatches _).2 hbatch).trans (hnoErrors herror)

/-! ## Phases -/

/-- Two outcomes of a phase say the same of a symbol. -/
def AgreeResult (x : Symbol) :
    Except HubError (SyncRun Symbol δ R) → Except HubError (SyncRun Symbol δ R) → Prop
  | .ok a, .ok b => SyncRun.AgreeOn x a b
  | .error error, .error error' => error = error'
  | _, _ => False

section AgreeResult

omit [DecidableEq Symbol] [DecidableEq R] [ToString Symbol]

variable {m m' m'' : Except HubError (SyncRun Symbol δ R)}

theorem AgreeResult.symm (h : AgreeResult x m m') : AgreeResult x m' m :=
  match m, m', h with
  | .ok _, .ok _, h => SyncRun.AgreeOn.symm h
  | .error _, .error _, h => Eq.symm h

theorem AgreeResult.trans (h : AgreeResult x m m') (h' : AgreeResult x m' m'') :
    AgreeResult x m m'' :=
  match m, m', m'', h, h' with
  | .ok _, .ok _, .ok _, h, h' => SyncRun.AgreeOn.trans h h'
  | .error _, .error _, .error _, h, h' => Eq.trans h h'

theorem AgreeResult.bind {f f' : SyncRun Symbol δ R → Except HubError (SyncRun Symbol δ R)}
    (h : AgreeResult x m m') (hf : ∀ a b, SyncRun.AgreeOn x a b → AgreeResult x (f a) (f' b)) :
    AgreeResult x (m >>= f) (m' >>= f') := by
  cases m with
  | error error =>
    cases m' with
    | error error' => exact h
    | ok b => exact h.elim
  | ok a =>
    cases m' with
    | error error' => exact h.elim
    | ok b => exact hf a b h

end AgreeResult

omit [DecidableEq R] in
theorem syncSingle_agree (h : AgreeOn request x A B) (start last : Date)
    (hrun : SyncRun.AgreeOn x a b) :
    SyncRun.AgreeOn x (A.syncSingle request start last a x)
      (B.syncSingle request start last b x) := by
  unfold syncSingle
  rw [h.single]
  split
  · exact hrun.report _
  · exact (hrun.hold _).report _

omit [DecidableEq R] in
theorem syncSingle_frame (hy : y ≠ x) (start last : Date) (a : SyncRun Symbol δ R) :
    SyncRun.AgreeOn x (A.syncSingle request start last a y) a := by
  unfold syncSingle
  split
  · exact .report_of_ne hy a _
  · exact (SyncRun.AgreeOn.report_of_ne hy _ _).trans (.hold_of_ne hy a _)

omit [DecidableEq R] in
theorem syncSingle_idem (start last : Date) (a : SyncRun Symbol δ R) :
    SyncRun.AgreeOn x
      (A.syncSingle request start last (A.syncSingle request start last a x) x)
      (A.syncSingle request start last a x) := by
  unfold syncSingle
  split
  · exact report_idem _ a
  · exact ⟨rfl, by simp [SyncRun.report], rfl, .rfl, by simp [SyncRun.report, SyncRun.hold]⟩

omit [ToString Symbol] in
theorem recheckRevision_agree (h : AgreeOn request x A B) (hrun : SyncRun.AgreeOn x a b) :
    SyncRun.AgreeOn x (A.recheckRevision a x) (B.recheckRevision b x) := by
  unfold recheckRevision
  rw [h.revision, hrun.pending, hrun.revision]
  split
  · split
    · exact (hrun.hold _).report _
    · split
      · exact (hrun.hold _).report _
      · exact hrun
  · exact hrun

omit [ToString Symbol] in
theorem recheckRevision_frame (hy : y ≠ x) (a : SyncRun Symbol δ R) :
    SyncRun.AgreeOn x (A.recheckRevision a y) a := by
  have hfail (error : HubError) :
      SyncRun.AgreeOn x ((a.hold y none).report y (.ofError error)) a :=
    (SyncRun.AgreeOn.report_of_ne hy _ _).trans (.hold_of_ne hy a _)
  unfold recheckRevision
  split
  · split
    · exact hfail _
    · split
      · exact hfail _
      · exact .refl x a
  · exact .refl x a

/-- What a situation must not have: outages, and provider-wide failures. -/
structure Regular (request : SyncRequest) (A : SyncEnvironment Symbol δ R) : Prop where
  outage : A.NoOutage
  batches (count : ℤ) : request.count = .ok count → BatchesPerSymbol (A.fetchBatch request count)

variable {service : DailyBarSyncService}

variable (service) in
theorem compareRevisions_agree (h : AgreeOn request x A B) (hA : A.NoOutage) (hB : B.NoOutage)
    {generations generations' : Symbol → Option ℤ} (hgenerations : generations x = generations' x)
    (count : ℤ) {symbols symbols' : List Symbol} (hsymbols : symbols.count x = symbols'.count x)
    (hrun : SyncRun.AgreeOn x a b) :
    SyncRun.AgreeOn x (A.compareRevisions service request generations count symbols a)
      (B.compareRevisions service request generations' count symbols' b) := by
  have htracks : A.tracksRevisions service request = B.tracksRevisions service request := by
    simp only [tracksRevisions, h.batches, h.revisions]
  rw [hA.compareRevisions_eq, hB.compareRevisions_eq, htracks]
  split
  · exact .foldl (fun _ _ => syncRevision_agree (.refl request x A) hA hA rfl count)
      (fun _ _ => syncRevision_agree (.refl request x B) hB hB rfl count)
      (fun _ _ => syncRevision_agree h hA hB hgenerations count)
      (fun a _ hy => syncRevision_frame hy _ _ a) (fun a _ hy => syncRevision_frame hy _ _ a)
      hsymbols hrun
  · refine ⟨hrun.db, hrun.results, hrun.revision, ?_, hrun.pending⟩
    rw [← List.count_pos_iff, ← List.count_pos_iff, hsymbols]

omit [DecidableEq R] in
/-- The fetch of the normal symbols, as far as it is about one symbol. -/
def fetchOwn (env : SyncEnvironment Symbol δ R) (request : SyncRequest) (count : ℤ)
    (symbol : Symbol) (run : SyncRun Symbol δ R) : Except HubError (SyncRun Symbol δ R) :=
  if env.provider.getDailyBarsBatch.isSome then
    .ok (if symbol ∈ run.normalSymbols then env.fetchSymbol request count symbol run else run)
  else
    match request.start, request.last with
    | some start, some last =>
      .ok (if symbol ∈ run.normalSymbols then env.syncSingle request start last run symbol else run)
    | _, _ =>
      .error ⟨.invalidMarketData, "provider does not support count-based history bootstrap"⟩

variable (service) in
omit [DecidableEq R] in
theorem fetchNormal_own {count : ℤ} (hA : BatchesPerSymbol (A.fetchBatch request count))
    (a : SyncRun Symbol δ R) :
    AgreeResult x (A.fetchNormal service request count a) (A.fetchOwn request count x a) := by
  unfold fetchNormal fetchOwn
  split
  · have hloop := SyncRun.AgreeOn.foldl_once (A.syncChunk request count) (fun chunk => x ∈ chunk)
      (l := chunks (max 1 service.batchSize) a.normalSymbols)
      (fun _ _ => fetchSymbol_agree (.refl request x A) count) (fetchSymbol_idem count)
      (fun chunk _ hx a => (syncChunk_agree hA chunk a).1 hx)
      (fun chunk _ hx a => (syncChunk_agree hA chunk a).2 hx) a
    rw [mem_chunks (by omega)] at hloop
    split
    · next hx => exact hloop.1 hx
    · next hx => exact hloop.2 hx
  · cases request.start with
    | none => rfl
    | some start =>
      cases request.last with
      | none => rfl
      | some last =>
        have hloop := SyncRun.AgreeOn.foldl_once (A.syncSingle request start last) (fun y => y = x)
          (l := a.normalSymbols) (fun _ _ => syncSingle_agree (.refl request x A) start last)
          (syncSingle_idem start last) (fun y _ hy a => hy ▸ .refl _ _)
          (fun y _ hy a => syncSingle_frame hy start last a) a
        dsimp only
        split
        · next hx => exact hloop.1 ⟨x, hx, rfl⟩
        · next hx => exact hloop.2 fun ⟨y, hy, heq⟩ => hx (heq ▸ hy)

omit [DecidableEq R] in
theorem fetchOwn_agree (h : AgreeOn request x A B) (count : ℤ) (hrun : SyncRun.AgreeOn x a b) :
    AgreeResult x (A.fetchOwn request count x a) (B.fetchOwn request count x b) := by
  unfold fetchOwn
  rw [h.batches]
  simp only [hrun.normal]
  split
  · split
    · exact fetchSymbol_agree h count hrun
    · exact hrun
  · split
    · next start last _ _ =>
      split
      · exact syncSingle_agree h start last hrun
      · exact hrun
    · rfl

/-! ## Persistence -/

/-- What `persist_records` writes to the series of a symbol. -/
def upsertFacts (request : SyncRequest) (run : SyncRun Symbol δ R) (symbol : Symbol)
    (facts : SeriesFacts δ R) : SeriesFacts δ R :=
  facts.applyUpsert ((run.pending symbol).getD ∅)
    (if request.adjustment = .qfq then run.revisionBySymbol symbol else none)

variable (request) in
theorem persistRecords_congr (hA : A.NoOutage) (hB : B.NoOutage) (hubCall : HubCall Symbol)
    {generations generations' : Symbol → Option ℤ} (hgenerations : generations x = generations' x)
    (hrun : SyncRun.AgreeOn x a b) :
    (A.persistRecords request hubCall generations a [x]).map (· x) =
      (B.persistRecords request hubCall generations' b [x]).map (· x) := by
  unfold persistRecords
  rw [hA.call_eq, hB.call_eq]
  dsimp only [HubDatabase.upsertFenced]
  rw [HubDatabase.checkWrite_congr hrun.db hgenerations]
  cases b.db.checkWrite [x] generations' request.adjustment with
  | error error => rfl
  | ok _ =>
    refine congrArg Except.ok (HubDatabase.modify_congr hrun.db .rfl ?_)
    funext facts
    simp only [hrun.pending, hrun.revision]

theorem persistRecords_frame {hubCall : HubCall Symbol} {generations : Symbol → Option ℤ}
    {db : HubDatabase Symbol δ R} (hy : y ≠ x)
    (h : A.persistRecords request hubCall generations a [y] = .ok db) : db x = a.db x := by
  have hupsert := eq_ok_of_call h
  unfold HubDatabase.upsertFenced at hupsert
  cases hcheck : a.db.checkWrite [y] generations request.adjustment with
  | error error => rw [hcheck] at hupsert; cases hupsert
  | ok _ =>
    rw [hcheck] at hupsert
    cases hupsert
    exact HubDatabase.modify_of_notMem (by simpa using hy.symm)

omit [DecidableEq R] [ToString Symbol] in
theorem reportPersisted_agree (hrun : SyncRun.AgreeOn x a b) (error : Option SyncError) :
    SyncRun.AgreeOn x (a.reportPersisted x error) (b.reportPersisted x error) :=
  ⟨hrun.db, by simp [SyncRun.reportPersisted, hrun.results], hrun.revision, hrun.normal,
    hrun.pending⟩

omit [DecidableEq R] [ToString Symbol] in
theorem reportPersisted_frame (hy : y ≠ x) (a : SyncRun Symbol δ R) (error : Option SyncError) :
    SyncRun.AgreeOn x (a.reportPersisted y error) a :=
  ⟨rfl, Function.update_of_ne hy.symm _ _, rfl, .rfl, rfl⟩

omit [DecidableEq R] [ToString Symbol] in
theorem reportPersisted_idem (a : SyncRun Symbol δ R) (error : Option SyncError) :
    SyncRun.AgreeOn x ((a.reportPersisted x error).reportPersisted x error)
      (a.reportPersisted x error) := by
  refine ⟨rfl, ?_, rfl, .rfl, rfl⟩
  simp only [SyncRun.reportPersisted, Function.update_self, Option.map_map]
  cases a.results x <;> rfl

variable (request) in
theorem persistSymbol_agree (hA : A.NoOutage) (hB : B.NoOutage)
    {generations generations' : Symbol → Option ℤ} (hgenerations : generations x = generations' x)
    (hrun : SyncRun.AgreeOn x a b) :
    SyncRun.AgreeOn x (A.persistSymbol request generations a x)
      (B.persistSymbol request generations' b x) := by
  have hrecords := persistRecords_congr request hA hB (.retry x) hgenerations hrun
  unfold persistSymbol
  split
  · next db hok =>
    rw [hok] at hrecords
    split
    · next db' hok' =>
      rw [hok'] at hrecords
      refine reportPersisted_agree ?_ none
      exact ⟨Except.ok.inj hrecords, hrun.results, hrun.revision, hrun.normal, hrun.pending⟩
    · next error' herror' => rw [herror'] at hrecords; cases hrecords
  · next error herror =>
    rw [herror] at hrecords
    split
    · next db' hok' => rw [hok'] at hrecords; cases hrecords
    · next error' herror' =>
      rw [herror'] at hrecords
      cases hrecords
      exact reportPersisted_agree hrun _

theorem persistSymbol_frame (hy : y ≠ x) (generations : Symbol → Option ℤ)
    (a : SyncRun Symbol δ R) :
    SyncRun.AgreeOn x (A.persistSymbol request generations a y) a := by
  unfold persistSymbol
  split
  · next db hok =>
    refine (reportPersisted_frame hy _ none).trans ?_
    exact ⟨persistRecords_frame hy hok, rfl, rfl, .rfl, rfl⟩
  · exact reportPersisted_frame hy a _

variable (request) in
/-- Whether the bulk transaction succeeds or not, each symbol is persisted on its own terms. -/
theorem persist_eq (hA : A.NoOutage) (generations : Symbol → Option ℤ) (symbols : List Symbol)
    (a : SyncRun Symbol δ R) :
    ∃ a', A.persist request generations symbols a = .ok a' ∧ ∀ x, SyncRun.AgreeOn x a'
      (if x ∈ a.grouped symbols then
        A.persistSymbol request generations { a with db := A.before .persist a.db } x
      else { a with db := A.before .persist a.db }) := by
  unfold persist
  generalize hgrouped : a.grouped symbols = grouped
  have hnodup : grouped.Nodup := hgrouped ▸ (List.nodup_dedup symbols).filter _
  generalize { a with db := A.before .persist a.db } = a₀
  dsimp only
  split
  · next hnil => exact ⟨a₀, rfl, fun x => by rw [hnil]; exact .refl x a₀⟩
  · have hsingle (hubCall : HubCall Symbol) (symbols : List Symbol)
        (hcheck : a₀.db.checkWrite symbols generations request.adjustment = .ok ()) :
        A.persistRecords request hubCall generations a₀ symbols =
          .ok (a₀.db.modify symbols request.adjustment (upsertFacts request a₀)) := by
      unfold persistRecords
      rw [hA.call_eq]
      dsimp only [HubDatabase.upsertFenced]
      rw [hcheck]
      rfl
    obtain ⟨hwritable, hcheck⟩ | ⟨-, error, hcheck, hsystemic⟩ :=
      a₀.db.checkWrite_eq grouped generations request.adjustment
    · rw [hsingle _ grouped hcheck]
      refine ⟨_, rfl, fun x => ?_⟩
      have hreport := SyncRun.AgreeOn.foldl_once
        (fun (run : SyncRun Symbol δ R) symbol => run.reportPersisted symbol none)
        (fun y => y = x) (l := grouped) (fun a b hrun => reportPersisted_agree hrun none)
        (fun a => reportPersisted_idem a none) (fun y _ hy a => hy ▸ .refl _ _)
        (fun y _ hy a => reportPersisted_frame hy a none)
      by_cases hx : x ∈ grouped
      · rw [if_pos hx]
        refine ((hreport _).1 ⟨x, hx, rfl⟩).trans ?_
        obtain ⟨-, hcheck'⟩ | ⟨⟨y, hy, hnot⟩, -⟩ :=
          a₀.db.checkWrite_eq [x] generations request.adjustment
        · rw [persistSymbol, hsingle _ [x] hcheck']
          have hdb : a₀.db.modify grouped request.adjustment (upsertFacts request a₀) x =
              a₀.db.modify [x] request.adjustment (upsertFacts request a₀) x :=
            HubDatabase.modify_congr rfl (by simp [hx]) rfl
          refine reportPersisted_agree ?_ none
          exact ⟨hdb, rfl, rfl, .rfl, rfl⟩
        · rw [List.mem_singleton.mp hy] at hnot
          exact absurd (hwritable x hx) hnot
      · rw [if_neg hx]
        refine ((hreport _).2 fun ⟨y, hy, heq⟩ => hx (heq ▸ hy)).trans ?_
        have hdb : a₀.db.modify grouped request.adjustment (upsertFacts request a₀) x = a₀.db x :=
          HubDatabase.modify_of_notMem hx
        exact ⟨hdb, rfl, rfl, .rfl, rfl⟩
    · have hrecords : A.persistRecords request (.upsert grouped) generations a₀ grouped =
          .error error := by
        unfold persistRecords
        rw [hA.call_eq]
        dsimp only [HubDatabase.upsertFenced]
        rw [hcheck]
        rfl
      rw [hrecords]
      dsimp only
      rw [if_neg (by rw [hsystemic]; nofun)]
      refine ⟨_, rfl, fun x => ?_⟩
      have hloop := SyncRun.AgreeOn.foldl_filter (fun _ _ =>
        persistSymbol_agree request hA hA (rfl : generations x = generations x))
        (fun a y hy => persistSymbol_frame hy generations a) grouped (.refl x a₀)
      rw [List.filter_eq] at hloop
      split
      · next hx =>
        rw [List.count_eq_one_of_mem hnodup hx] at hloop
        exact hloop
      · next hx =>
        rw [List.count_eq_zero_of_not_mem hx] at hloop
        exact hloop

/-- The persistence, as far as it is about one symbol: the upsert of its own bars. -/
def persistOwn (env : SyncEnvironment Symbol δ R) (request : SyncRequest)
    (generations : Symbol → Option ℤ) (requested : List Symbol) (symbol : Symbol)
    (run : SyncRun Symbol δ R) : SyncRun Symbol δ R :=
  let persisted := { run with db := env.beforeSymbol .persist symbol run.db }
  if symbol ∈ run.grouped requested then env.persistSymbol request generations persisted symbol
  else persisted

theorem persist_own (h : AgreeOn request x A B) (hA : A.NoOutage) (hB : B.NoOutage)
    {generations generations' : Symbol → Option ℤ} (hgenerations : generations x = generations' x)
    {symbols symbols' : List Symbol} (hmem : x ∈ symbols ↔ x ∈ symbols')
    (hrun : SyncRun.AgreeOn x a b) :
    AgreeResult x (A.persist request generations symbols a)
      (.ok (B.persistOwn request generations' symbols' x b)) := by
  obtain ⟨a', ha, hagree⟩ := A.persist_eq request hA generations symbols a
  have hgrouped : x ∈ a.grouped symbols ↔ x ∈ b.grouped symbols' := by
    simp only [SyncRun.grouped, List.mem_filter, List.mem_dedup, hrun.pending, hmem]
  have hbefore : SyncRun.AgreeOn x { a with db := A.before .persist a.db }
      { b with db := B.beforeSymbol .persist x b.db } := by
    refine ⟨?_, hrun.results, hrun.revision, hrun.normal, hrun.pending⟩
    simp only [before, beforeSymbol, Function.update_self, h.concurrent, hrun.db]
  rw [ha]
  refine (hagree x).trans ?_
  unfold persistOwn
  simp only [hgrouped]
  split
  · exact persistSymbol_agree request hA hB hgenerations hbefore
  · exact hbefore

theorem persist_agree (hA : A.NoOutage) {generations : Symbol → Option ℤ}
    {symbols symbols' : List Symbol} (hmem : x ∈ symbols ↔ x ∈ symbols')
    (hrun : SyncRun.AgreeOn x a b) :
    AgreeResult x (A.persist request generations symbols a)
      (A.persist request generations symbols' b) :=
  (persist_own (.refl request x A) hA hA rfl hmem hrun).trans
    (persist_own (.refl request x A) hA hA rfl .rfl (.refl x b)).symm

/-! ## The sync of one symbol -/

/-- What a run that has reserved its streams does to one symbol: its turns in the revision branch,
its own answer, and the write of its own bars. -/
def syncOwn (env : SyncEnvironment Symbol δ R) (service : DailyBarSyncService)
    (request : SyncRequest) (generations : Symbol → Option ℤ) (count : ℤ) (requested : List Symbol)
    (symbol : Symbol) (run : SyncRun Symbol δ R) : Except HubError (SyncRun Symbol δ R) := do
  let run ← env.fetchOwn request count symbol
    (env.compareRevisions service request generations count requested run)
  return env.persistOwn request generations requested symbol
    (requested.foldl env.recheckRevision run)

/-- What a sync that requests a symbol a number of times does to it up to the completion: the
answers are those for the symbol, and the row is its own. -/
def syncSymbol (env : SyncEnvironment Symbol δ R) (service : DailyBarSyncService)
    (request : SyncRequest) (symbol : Symbol) (times : ℕ) (result : Option SyncItemResult)
    (row : Option (SecuritySeries δ R)) :
    Except HubError ((Symbol → Option ℤ) × SyncRun Symbol δ R) := do
  let requested := List.replicate times symbol
  let count ← request.count
  let reserved := HubDatabase.reserveSync (fun _ => env.concurrent .reserve symbol row) requested
    request.adjustment
  let run ← env.syncOwn service request reserved.1 count requested symbol
    { db := reserved.2, results := fun _ => result, revisionBySymbol := fun _ => none,
      normalSymbols := [], pending := fun _ => none }
  return (reserved.1, run)

variable (service) in
theorem syncReserved_own (h : AgreeOn request x A B) (hA : A.Regular request) (hB : B.NoOutage)
    {generations generations' : Symbol → Option ℤ} (hgenerations : generations x = generations' x)
    {count : ℤ} (hcount : request.count = .ok count) {symbols symbols' : List Symbol}
    (hsymbols : symbols.count x = symbols'.count x) (hrun : SyncRun.AgreeOn x a b) :
    AgreeResult x (A.syncReserved service request generations count symbols a)
      (B.syncOwn service request generations' count symbols' x b) := by
  have hmem : x ∈ symbols ↔ x ∈ symbols' := by
    rw [← List.count_pos_iff, ← List.count_pos_iff, hsymbols]
  have hcompared := compareRevisions_agree service h hA.outage hB hgenerations count hsymbols hrun
  have hfetched := (fetchNormal_own service (hA.batches count hcount) _).trans
    (fetchOwn_agree h count hcompared)
  unfold syncReserved fetch syncOwn
  simp only [bind_assoc, pure_bind]
  refine hfetched.bind fun a b hrun => persist_own h hA.outage hB hgenerations hmem ?_
  exact SyncRun.AgreeOn.foldl (fun _ _ => recheckRevision_agree (.refl request x A))
    (fun _ _ => recheckRevision_agree (.refl request x B)) (fun _ _ => recheckRevision_agree h)
    (fun a _ hy => recheckRevision_frame hy a) (fun a _ hy => recheckRevision_frame hy a) hsymbols
    hrun

/-! ## Completion -/

omit [DecidableEq R] [ToString Symbol] in
theorem reserveSync_agree {db db' : HubDatabase Symbol δ R} {symbols symbols' : List Symbol}
    (hdb : db x = db' x) (hmem : x ∈ symbols ↔ x ∈ symbols') (adjustment : Adjustment) :
    (db.reserveSync symbols adjustment).1 x = (db'.reserveSync symbols' adjustment).1 x ∧
      (db.reserveSync symbols adjustment).2 x = (db'.reserveSync symbols' adjustment).2 x := by
  have hrow : (db.reserveSync symbols adjustment).2 x =
      (db'.reserveSync symbols' adjustment).2 x := by
    simp only [HubDatabase.reserveSync]
    exact HubDatabase.modify_congr hdb hmem rfl
  refine ⟨?_, hrow⟩
  simp only [HubDatabase.reserveSync] at hrow
  simp only [HubDatabase.reserveSync, HubDatabase.generation, hmem, hrow]

variable (service) in
/-- Up to the completion, a sync does to a symbol what the answers for it and its row say. -/
theorem syncCanonical_own (h : AgreeOn request x A B) (hA : A.Regular request)
    (hB : B.Regular request) {db : HubDatabase Symbol δ R} {row : Option (SecuritySeries δ R)}
    (hdb : db x = row) (results : Symbol → Option SyncItemResult) {symbols : List Symbol}
    {times : ℕ} (htimes : symbols.count x = times) :
    (∃ error, A.syncCanonical service request symbols results db = .error error ∧
      B.syncSymbol service request x times (results x) row = .error error) ∨
    ∃ generations a generations' b,
      A.syncCanonical service request symbols results db = .ok (generations, a) ∧
      B.syncSymbol service request x times (results x) row = .ok (generations', b) ∧
      generations x = generations' x ∧ SyncRun.AgreeOn x a b := by
  unfold syncCanonical syncSymbol
  rw [hA.outage]
  cases hcount : request.count with
  | error error => exact .inl ⟨error, rfl, rfl⟩
  | ok count =>
    have hsymbols : symbols.count x = (List.replicate times x).count x := by
      rw [htimes, List.count_replicate_self]
    have hmem : x ∈ symbols ↔ x ∈ List.replicate times x := by
      rw [← List.count_pos_iff, ← List.count_pos_iff, hsymbols]
    dsimp only
    rw [Except.ok_bind]
    generalize hown : (fun _ => B.concurrent .reserve x row : HubDatabase Symbol δ R) = own
    have hbefore : A.before .reserve db x = own x := by
      simp only [← hown, before, h.concurrent, hdb]
    obtain ⟨hgenerations, hrows⟩ := reserveSync_agree hbefore hmem request.adjustment
    generalize (A.before .reserve db).reserveSync symbols request.adjustment = reserved
      at hgenerations hrows ⊢
    generalize HubDatabase.reserveSync own (List.replicate times x) request.adjustment = reserved'
      at hgenerations hrows ⊢
    have hresult := syncReserved_own service h hA hB.outage hgenerations hcount hsymbols
      (a := { db := reserved.2, results, revisionBySymbol := fun _ => none, normalSymbols := [],
              pending := fun _ => none })
      (b := { db := reserved'.2, results := fun _ => results x, revisionBySymbol := fun _ => none,
              normalSymbols := [], pending := fun _ => none })
      ⟨hrows, rfl, rfl, .rfl, rfl⟩
    generalize A.syncReserved service request reserved.1 count symbols _ = result at hresult ⊢
    generalize B.syncOwn service request reserved'.1 count _ x _ = result' at hresult ⊢
    match result, result', hresult with
    | .error error, .error _, rfl => exact .inl ⟨error, rfl, rfl⟩
    | .ok a, .ok b, hresult =>
      exact .inr ⟨reserved.1, a, reserved'.1, b, rfl, rfl, hgenerations, hresult⟩

variable (service) in
/-- Up to the completion, a sync does to the symbol what any sync does that agrees on it. -/
theorem syncCanonical_agree (h : AgreeOn request x A B) (hA : A.Regular request)
    (hB : B.Regular request) {db db' : HubDatabase Symbol δ R} (hdb : db x = db' x)
    (results : Symbol → Option SyncItemResult) {symbols symbols' : List Symbol}
    (hsymbols : symbols.count x = symbols'.count x) :
    (∃ error, A.syncCanonical service request symbols results db = .error error ∧
      B.syncCanonical service request symbols' results db' = .error error) ∨
    ∃ generations a generations' b,
      A.syncCanonical service request symbols results db = .ok (generations, a) ∧
      B.syncCanonical service request symbols' results db' = .ok (generations', b) ∧
      generations x = generations' x ∧ SyncRun.AgreeOn x a b := by
  have hA := syncCanonical_own service h hA hB hdb results hsymbols
  have hB := syncCanonical_own service (.refl request x B) hB hB (rfl : db' x = db' x) results
    (rfl : symbols'.count x = symbols'.count x)
  obtain ⟨error, hAerror, hown⟩ | ⟨generations, a, own, c, hAok, hown, hgenerations, hrun⟩ := hA
  · obtain ⟨error', hBerror, hown'⟩ | ⟨_, _, _, _, -, hown', -⟩ := hB
    · cases hown.symm.trans hown'
      exact .inl ⟨error, hAerror, hBerror⟩
    · cases hown.symm.trans hown'
  · obtain ⟨_, -, hown'⟩ | ⟨generations', b, _, _, hBok, hown', hgenerations', hrun'⟩ := hB
    · cases hown.symm.trans hown'
    · cases hown.symm.trans hown'
      exact .inr ⟨generations, a, generations', b, hAok, hBok,
        hgenerations.trans hgenerations'.symm, hrun.trans hrun'.symm⟩

omit [DecidableEq R] [ToString Symbol] in
theorem foldl_reportSuperseded_db (symbols : List Symbol) (a : SyncRun Symbol δ R) :
    (symbols.foldl SyncRun.reportSuperseded a).db = a.db := by
  induction symbols generalizing a with
  | nil => rfl
  | cons y symbols ih => exact ih _

/-- What `complete_sync` writes to the series of a good symbol. -/
def deepen (request : SyncRequest) (facts : SeriesFacts δ R) : SeriesFacts δ R :=
  { facts with stream :=
    { facts.stream with
      historyDepth := max facts.stream.historyDepth (request.lookbackBars.getD 0) } }

variable (request) in
omit [DecidableEq R] in
/-- The final call covers the good symbols: all of them are superseded when one is. -/
theorem complete_eq (hA : A.NoOutage) (generations : Symbol → Option ℤ) (symbols : List Symbol)
    (a : SyncRun Symbol δ R) :
    ∃ a', A.complete request generations symbols a = .ok a' ∧
      (∀ x, a'.results x =
        if x ∈ a.good symbols ∧ ∃ y ∈ a.good symbols,
            ¬ (A.before .complete a.db).Writable generations request.adjustment y then
          (a.results x).map SyncItemResult.superseded
        else a.results x) ∧
      a'.db =
        if ∃ y ∈ a.good symbols,
            ¬ (A.before .complete a.db).Writable generations request.adjustment y then
          A.before .complete a.db
        else (A.before .complete a.db).modify (a.good symbols) request.adjustment fun _ =>
          deepen request := by
  unfold complete
  dsimp only
  generalize a.good symbols = good
  rw [hA.call_eq, ite_self]
  by_cases hnil : good = []
  · refine ⟨_, by rw [HubDatabase.completeSync, if_pos hnil], ?_, ?_⟩
    · exact fun x => by rw [if_neg (by simp [hnil])]
    · subst hnil
      rw [if_neg (by simp)]
      exact funext fun y => (HubDatabase.modify_of_notMem List.not_mem_nil).symm
  · obtain ⟨hwritable, hcheck⟩ | ⟨hblocked, error, hcheck, hsystemic⟩ :=
      (A.before .complete a.db).checkWrite_eq good generations request.adjustment
    · refine ⟨_, by rw [HubDatabase.completeSync, if_neg hnil, hcheck]; rfl, ?_, ?_⟩
      · exact fun x => by rw [if_neg fun ⟨_, y, hy, hnot⟩ => hnot (hwritable y hy)]
      · rw [if_neg fun ⟨y, hy, hnot⟩ => hnot (hwritable y hy)]
        rfl
    · have hfailed : (A.before .complete a.db).completeSync good request.adjustment generations
          (request.lookbackBars.getD 0) = .error error := by
        rw [HubDatabase.completeSync, if_neg hnil, hcheck]
        rfl
      refine ⟨_, by rw [hfailed]; exact if_neg (by rw [hsystemic]; nofun), ?_, ?_⟩
      · intro x
        have hloop := SyncRun.AgreeOn.foldl_once (x := x) SyncRun.reportSuperseded (fun y => y = x)
          (l := good) (F := fun a => a.reportSuperseded x)
          (fun a b hrun => ⟨hrun.db, by simp [SyncRun.reportSuperseded, hrun.results],
            hrun.revision, hrun.normal, hrun.pending⟩)
          (fun a => by
            refine ⟨rfl, ?_, rfl, .rfl, rfl⟩
            simp only [SyncRun.reportSuperseded, Function.update_self, Option.map_map]
            cases a.results x <;> rfl)
          (fun y _ hy a => hy ▸ .refl _ _)
          (fun y _ hy a => ⟨rfl, Function.update_of_ne (Ne.symm hy) _ _, rfl, .rfl, rfl⟩)
          { a with db := A.before .complete a.db }
        by_cases hx : x ∈ good
        · rw [if_pos ⟨hx, hblocked⟩, (hloop.1 ⟨x, hx, rfl⟩).results]
          exact Function.update_self ..
        · rw [if_neg fun h => hx h.1, (hloop.2 fun ⟨y, hy, heq⟩ => hx (heq ▸ hy)).results]
      · rw [if_pos hblocked, foldl_reportSuperseded_db]

/-- The symbol is synchronized up to the completion, by the answers for it and its row. -/
def SyncedAlone (A : SyncEnvironment Symbol δ R) (service : DailyBarSyncService)
    (request : SyncRequest) (symbols : List Symbol) (results : Symbol → Option SyncItemResult)
    (db : HubDatabase Symbol δ R) (y : Symbol) : Prop :=
  y ∈ symbols ∧ ∃ generations run,
    A.syncSymbol service request y (symbols.count y) (results y) (db y) =
      .ok (generations, run) ∧ (run.results y).any (·.status = .success)

/-- And then, when the completion comes, its row is missing or another run has reserved it. -/
def BlocksCompletion (A : SyncEnvironment Symbol δ R) (service : DailyBarSyncService)
    (request : SyncRequest) (symbols : List Symbol) (results : Symbol → Option SyncItemResult)
    (db : HubDatabase Symbol δ R) (y : Symbol) : Prop :=
  y ∈ symbols ∧ ∃ generations run,
    A.syncSymbol service request y (symbols.count y) (results y) (db y) =
      .ok (generations, run) ∧ (run.results y).any (·.status = .success) ∧
    ¬ (A.beforeSymbol .complete y run.db).Writable generations request.adjustment y

/-- The good symbols of a run are those that are synchronized alone. -/
theorem mem_good_iff (hA : A.Regular request) {symbols : List Symbol}
    {results : Symbol → Option SyncItemResult} {db : HubDatabase Symbol δ R}
    {generations : Symbol → Option ℤ}
    (ha : A.syncCanonical service request symbols results db = .ok (generations, a)) (y : Symbol) :
    (y ∈ a.good symbols ↔ A.SyncedAlone service request symbols results db y) ∧
    ((y ∈ a.good symbols ∧ ¬ (A.before .complete a.db).Writable generations request.adjustment y) ↔
      A.BlocksCompletion service request symbols results db y) := by
  obtain ⟨error, herror, -⟩ | ⟨generations', a', generations₁, b, ha', hb, hgenerations, hrun⟩ :=
    syncCanonical_own service (AgreeOn.refl request y A) hA hA (rfl : db y = db y)
      results (rfl : symbols.count y = symbols.count y)
  · cases ha.symm.trans herror
  · cases ha.symm.trans ha'
    have hwritable := HubDatabase.Writable.congr request.adjustment
      (show A.before .complete a.db y = A.beforeSymbol .complete y b.db y by
        simp only [before, beforeSymbol, Function.update_self, hrun.db]) hgenerations
    simp only [SyncedAlone, BlocksCompletion, SyncRun.good, List.mem_filter, hb, hrun.results,
      hwritable]
    constructor
    · constructor
      · rintro ⟨hy, hgood⟩
        exact ⟨hy, _, _, rfl, hgood⟩
      · rintro ⟨hy, g, r, heq, hgood⟩
        cases heq
        exact ⟨hy, hgood⟩
    · constructor
      · rintro ⟨⟨hy, hgood⟩, hnot⟩
        exact ⟨hy, _, _, rfl, hgood, hnot⟩
      · rintro ⟨hy, g, r, heq, hgood, hnot⟩
        cases heq
        exact ⟨⟨hy, hgood⟩, hnot⟩

variable {Raw : Type}

/-- Two situations that agree on a symbol report the same result for it if and only if the symbol
is not synchronized anyway, or the completion is blocked in both or in neither. -/
theorem sync_results_eq_iff (h : AgreeOn request x A B) (hA : A.Regular request)
    (hB : B.Regular request) (normalizeSymbol : Raw → Except HubError Symbol)
    (bestEffortSymbol : Raw → Symbol) (symbols : List Raw) {dbA dbB : HubDatabase Symbol δ R}
    (hdb : dbA x = dbB x) :
    let canonical := canonicalizeSymbols normalizeSymbol bestEffortSymbol symbols
    (A.sync service request normalizeSymbol bestEffortSymbol symbols dbA).map (·.results x) =
        (B.sync service request normalizeSymbol bestEffortSymbol symbols dbB).map (·.results x) ↔
      ¬ A.SyncedAlone service request canonical.1 canonical.2 dbA x ∨
      ((∃ y, A.BlocksCompletion service request canonical.1 canonical.2 dbA y) ↔
        ∃ y, B.BlocksCompletion service request canonical.1 canonical.2 dbB y) := by
  intro canonical
  unfold sync
  dsimp only
  obtain ⟨error, hAerror, hBerror⟩ | ⟨generations, a, generations', b, ha, hb, hgen, hrun⟩ :=
    syncCanonical_agree service h hA hB hdb canonical.2
      (rfl : canonical.1.count x = canonical.1.count x)
  · rw [hAerror, hBerror]
    refine iff_of_true rfl (.inl ?_)
    rintro ⟨-, g, r, halone, -⟩
    obtain ⟨error', -, herror'⟩ | ⟨_, _, _, _, hall, -⟩ :=
      syncCanonical_own service (AgreeOn.refl request x A) hA hA (rfl : dbA x = dbA x) canonical.2
        (rfl : canonical.1.count x = canonical.1.count x)
    · cases halone.symm.trans herror'
    · cases hAerror.symm.trans hall
  · rw [ha, hb]
    dsimp only
    obtain ⟨a', ha', hresultA, -⟩ := complete_eq request hA.outage generations
      canonical.1 a
    obtain ⟨b', hb', hresultB, -⟩ := complete_eq request hB.outage generations'
      canonical.1 b
    have hresultA := hresultA x
    have hresultB := hresultB x
    have hgood : x ∈ a.good canonical.1 ↔ x ∈ b.good canonical.1 := by
      simp only [SyncRun.good, List.mem_filter, hrun.results]
    have hblocksA : (∃ y ∈ a.good canonical.1,
        ¬ (A.before .complete a.db).Writable generations request.adjustment y) ↔
        ∃ y, A.BlocksCompletion service request canonical.1 canonical.2 dbA y :=
      exists_congr fun y => (mem_good_iff hA ha y).2
    have hblocksB : (∃ y ∈ b.good canonical.1,
        ¬ (B.before .complete b.db).Writable generations' request.adjustment y) ↔
        ∃ y, B.BlocksCompletion service request canonical.1 canonical.2 dbB y :=
      exists_congr fun y => (mem_good_iff hB hb y).2
    rw [ha', hb']
    simp only [Except.map, Except.ok.injEq, ← (mem_good_iff hA ha x).1]
    by_cases hx : x ∈ a.good canonical.1
    · have hx' := hgood.mp hx
      obtain ⟨result, hresult, hsuccess⟩ : ∃ result, b.results x = some result ∧
          result.status = .success := by
        obtain ⟨result, hresult, hsuccess⟩ := (Option.any_eq_true _ _).mp (List.mem_filter.mp hx').2
        exact ⟨result, hresult, by simpa using hsuccess⟩
      -- a superseded result is not the result it had
      have hne : some result.superseded ≠ some result := fun heq => by
        have hstatus := congrArg SyncItemResult.status (Option.some.inj heq)
        rw [hsuccess] at hstatus
        cases hstatus
      rw [hrun.results, hresult, Option.map_some] at hresultA
      rw [hresult, Option.map_some] at hresultB
      by_cases hblockedA : ∃ y, A.BlocksCompletion service request canonical.1 canonical.2 dbA y
      · rw [if_pos ⟨hx, hblocksA.mpr hblockedA⟩] at hresultA
        by_cases hblockedB : ∃ y, B.BlocksCompletion service request canonical.1 canonical.2 dbB y
        · rw [if_pos ⟨hx', hblocksB.mpr hblockedB⟩] at hresultB
          simp [hresultA, hresultB, hblockedA, hblockedB]
        · rw [if_neg fun h => hblockedB (hblocksB.mp h.2)] at hresultB
          simp [hresultA, hresultB, hblockedA, hblockedB, hx, hne]
      · rw [if_neg fun h => hblockedA (hblocksA.mp h.2)] at hresultA
        by_cases hblockedB : ∃ y, B.BlocksCompletion service request canonical.1 canonical.2 dbB y
        · rw [if_pos ⟨hx', hblocksB.mpr hblockedB⟩] at hresultB
          simp [hresultA, hresultB, hblockedA, hblockedB, hx, hne.symm]
        · rw [if_neg fun h => hblockedB (hblocksB.mp h.2)] at hresultB
          simp [hresultA, hresultB, hblockedA, hblockedB]
    · rw [if_neg fun h => hx h.1] at hresultA
      rw [if_neg fun h => hx (hgood.mpr h.1)] at hresultB
      simp [hresultA, hresultB, hrun.results, hx]

end SyncEnvironment

end Steps

/-! ## A suspended security without a row -/

/-- A provider that has one bar of 600519, and none of any other symbol. -/
def suspendedProvider : DailyBarProvider ℕ Unit where
  getDailyBars _ _ _ _ := .ok []
  getDailyBarsBatch := some fun _ adjustment _ => .ok fun symbol =>
    some (if symbol = 600519 then [.bar symbol 1 adjustment ⟨10, 10, 10, 10, 1, none⟩] else [])
  getDailyBarsWindow := none
  getAdjustmentRevision := none
  authoritativeHistory := false

def suspendedEnvironment : SyncEnvironment ℕ Unit Unit where
  provider := suspendedProvider
  concurrent _ _ row := row
  outage _ := none

def twoDayRequest : SyncRequest :=
  { start := some 1, last := some 2, adjustment := .none, lookbackBars := none }

/-- The database with rows for the given securities and no bars. -/
def securitiesOnly (symbols : List ℕ) : HubDatabase ℕ Unit Unit := fun symbol =>
  if symbol ∈ symbols then some fun _ => { bars := ∅, stream := {}, descriptor := none } else none

theorem suspendedEnvironment_regular : suspendedEnvironment.Regular twoDayRequest where
  outage _ := rfl
  batches _ _ := {
    ok := fun _ _ => ⟨_, rfl, fun _ _ _ h => by cases h; rfl⟩
    invalid := fun _ _ _ _ h => by cases h }

/-- The two databases agree on 600519, but it fails in the one that has no row for 000001. -/
theorem not_sync_isolated :
    SyncEnvironment.AgreeOn twoDayRequest 600519 suspendedEnvironment suspendedEnvironment ∧
    suspendedEnvironment.Regular twoDayRequest ∧
    securitiesOnly [600519, 1] 600519 = securitiesOnly [600519] 600519 ∧
    (suspendedEnvironment.sync ⟨true, 50⟩ twoDayRequest .ok id [600519, 1]
        (securitiesOnly [600519, 1])).map (fun run => (run.results 600519).map (·.status)) =
      .ok (some .success) ∧
    (suspendedEnvironment.sync ⟨true, 50⟩ twoDayRequest .ok id [600519, 1]
        (securitiesOnly [600519])).map (fun run => (run.results 600519).map (·.status)) =
      .ok (some .failed) :=
  ⟨.refl twoDayRequest 600519 suspendedEnvironment, suspendedEnvironment_regular, rfl,
    by decide +kernel, by decide +kernel⟩

/-- The equivalence for these two databases. -/
theorem sync_results_eq_iff_suspended :
    let canonical := canonicalizeSymbols (Except.ok : ℕ → Except HubError ℕ) id [600519, 1]
    (suspendedEnvironment.sync ⟨true, 50⟩ twoDayRequest .ok id [600519, 1]
          (securitiesOnly [600519, 1])).map (·.results 600519) =
        (suspendedEnvironment.sync ⟨true, 50⟩ twoDayRequest .ok id [600519, 1]
          (securitiesOnly [600519])).map (·.results 600519) ↔
      ¬ suspendedEnvironment.SyncedAlone ⟨true, 50⟩ twoDayRequest canonical.1 canonical.2
        (securitiesOnly [600519, 1]) 600519 ∨
      ((∃ y, suspendedEnvironment.BlocksCompletion ⟨true, 50⟩ twoDayRequest canonical.1
          canonical.2 (securitiesOnly [600519, 1]) y) ↔
        ∃ y, suspendedEnvironment.BlocksCompletion ⟨true, 50⟩ twoDayRequest canonical.1
          canonical.2 (securitiesOnly [600519]) y) :=
  SyncEnvironment.sync_results_eq_iff (.refl twoDayRequest 600519 suspendedEnvironment)
    suspendedEnvironment_regular suspendedEnvironment_regular .ok id [600519, 1] rfl

end Apanel
