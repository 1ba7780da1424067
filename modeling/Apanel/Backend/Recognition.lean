import Apanel.Backend.StateService

/-!
# The states of a history

What a pass recognizes on a date is determined by the snapshots, the bars and the calendar: the
status of a target by the data of the date and its predecessor, its transition by the status at the
predecessor. `History.rows` says so without a pass, and `Pass.run_eq_ok` shows that a pass computes
it, if its window and seeds show it the predecessors of the dates it observes.
-/

namespace Apanel

/-! ## The targets of a date -/

section Targets

variable {F : Type} [Arith F] [LinearOrder (IndicatorRequest F)] [LinearOrder (Target F)]

/-- The parameters of the states a variant makes, if any. -/
def IndicatorRequest.stateParameters? (request : IndicatorRequest F) : Option (StateParameters F) :=
  if request.indicatorType = .ma then
    (statePair request).map fun pair => .maPair pair.1 pair.2
  else some (.request request)

omit [Arith F] [LinearOrder (IndicatorRequest F)] [LinearOrder (Target F)] in
theorem mem_maVariantPairs {previous variants : List (IndicatorRequest F × Variant F)}
    {emitted : List (ℕ × ℕ)} {parameters : StateParameters F} :
    parameters ∈ (maVariantPairs previous emitted variants).map (·.1) ↔
      ∃ pair ∉ emitted, parameters = .maPair pair.1 pair.2 ∧
        ∃ variant ∈ variants, statePair variant.1 = some pair := by
  induction variants generalizing emitted with
  | nil => simp [maVariantPairs]
  | cons variant variants ih =>
    obtain ⟨request, values⟩ := variant
    simp only [maVariantPairs, List.mem_cons, exists_eq_or_imp]
    split
    · next hnone => simp only [ih, hnone, reduceCtorEq, false_or]
    next short long hpair =>
    simp only [hpair, Option.some.injEq]
    split
    · next hmem =>
      rw [ih]
      refine exists_congr fun pair => and_congr_right fun hnew => and_congr_right fun _ => ?_
      exact ⟨.inr, fun h => h.resolve_left fun e => hnew (e ▸ hmem)⟩
    next hnew =>
    rw [List.map_cons, List.mem_cons, ih]
    constructor
    · rintro (rfl | ⟨pair, hpair', heq, hvariant⟩)
      · exact ⟨(short, long), hnew, rfl, .inl rfl⟩
      · exact ⟨pair, fun h => hpair' (List.mem_cons_of_mem _ h), heq, .inr hvariant⟩
    · rintro ⟨pair, hpair', heq, rfl | hvariant⟩
      · exact .inl heq
      · by_cases hsame : pair = (short, long)
        · subst hsame
          exact .inl heq
        · exact .inr ⟨pair, by simp [hsame, hpair'], heq, hvariant⟩

omit [Arith F] [LinearOrder (IndicatorRequest F)] [LinearOrder (Target F)] in
theorem maVariantPairs_nodup (previous : List (IndicatorRequest F × Variant F))
    (emitted : List (ℕ × ℕ)) (variants : List (IndicatorRequest F × Variant F)) :
    ((maVariantPairs previous emitted variants).map (·.1)).Nodup := by
  induction variants generalizing emitted with
  | nil => exact .nil
  | cons variant variants ih =>
    simp only [maVariantPairs]
    split
    · exact ih _
    split
    · exact ih _
    next short long _ _ =>
    refine List.nodup_cons.mpr ⟨fun hmem => ?_, ih _⟩
    obtain ⟨pair, hpair, heq, -⟩ := mem_maVariantPairs.mp hmem
    cases heq
    exact hpair List.mem_cons_self

omit [Arith F] [LinearOrder (Target F)] in
theorem mem_stateVariantPairs {row : SnapshotRow F} {type : IndicatorType}
    {previous : List (IndicatorRequest F × Variant F)} {parameters : StateParameters F} :
    parameters ∈ (stateVariantPairs type (row.variantsOf type) previous).map (·.1) ↔
      ∃ request ∈ row.variants.keys, request.indicatorType = type ∧
        request.stateParameters? = some parameters := by
  simp only [stateVariantPairs, SnapshotRow.variantsOf, Table.keys]
  split
  · next htype =>
    subst htype
    rw [mem_maVariantPairs]
    simp only [List.mem_filter, decide_eq_true_eq, List.mem_map, IndicatorRequest.stateParameters?]
    constructor
    · rintro ⟨pair, -, rfl, variant, ⟨hvariant, htype⟩, hpair⟩
      exact ⟨variant.1, ⟨variant, hvariant, rfl⟩, htype, by simp [htype, hpair]⟩
    · rintro ⟨_, ⟨variant, hvariant, rfl⟩, htype, hparameters⟩
      rw [if_pos htype, Option.map_eq_some_iff] at hparameters
      obtain ⟨pair, hpair, rfl⟩ := hparameters
      exact ⟨pair, List.not_mem_nil, rfl, variant, ⟨hvariant, htype⟩, hpair⟩
  · next htype =>
    simp only [List.map_map, Function.comp_def, List.mem_map, List.mem_filter, decide_eq_true_eq,
      IndicatorRequest.stateParameters?]
    constructor
    · rintro ⟨variant, ⟨hvariant, rfl⟩, rfl⟩
      exact ⟨variant.1, ⟨variant, hvariant, rfl⟩, rfl, by rw [if_neg htype]⟩
    · rintro ⟨_, ⟨variant, hvariant, rfl⟩, rfl, hparameters⟩
      rw [if_neg htype] at hparameters
      exact ⟨variant, ⟨hvariant, rfl⟩, Option.some.inj hparameters⟩

omit [Arith F] [LinearOrder (Target F)] in
theorem stateVariantPairs_nodup (row : SnapshotRow F) (type : IndicatorType)
    (previous : List (IndicatorRequest F × Variant F)) :
    ((stateVariantPairs type (row.variantsOf type) previous).map (·.1)).Nodup := by
  simp only [stateVariantPairs]
  split
  · exact maVariantPairs_nodup ..
  · rw [List.map_map]
    have hkeys : (row.variantsOf type).Pairwise fun a b => a.1 ≠ b.1 :=
      (row.variants.sorted.filter _).imp fun h => h.ne
    exact List.pairwise_map.mpr (hkeys.imp fun h e => h (StateParameters.request.inj e))

/-- The targets of a row: one for each code and each variant of its indicator type that makes
states. -/
def SnapshotRow.HasTarget (row : SnapshotRow F) (target : Target F) : Prop :=
  ∃ request ∈ row.variants.keys, request.indicatorType = target.code.indicatorType ∧
    request.stateParameters? = some target.parameters

omit [LinearOrder (IndicatorRequest F)] [LinearOrder (Target F)] in
theorem exists_definition (code : StateCode) :
    ∃ definition ∈ stateDefinitions (F := F), definition.code = code := by
  cases code <;> simp [stateDefinitions]

omit [LinearOrder (Target F)] in
theorem definition_of_mem_definitionItems {row : SnapshotRow F} {previous : Option (SnapshotRow F)}
    {definition : StateDefinition F} {item : WorkItem F}
    (h : item ∈ definitionItems row previous definition) : item.definition = definition := by
  obtain ⟨pair, -, rfl⟩ := List.mem_map.mp h
  rfl

omit [LinearOrder (Target F)] in
theorem mem_definitionItems_targets {row : SnapshotRow F} {previous : Option (SnapshotRow F)}
    {definition : StateDefinition F} {target : Target F} :
    target ∈ (definitionItems row previous definition).map (·.target) ↔
      target.code = definition.code ∧ ∃ request ∈ row.variants.keys,
        request.indicatorType = definition.indicatorType ∧
          request.stateParameters? = some target.parameters := by
  rw [← mem_stateVariantPairs, definitionItems, List.map_map, List.mem_map, List.mem_map]
  constructor
  · rintro ⟨pair, hpair, rfl⟩
    exact ⟨rfl, pair, hpair, rfl⟩
  · rintro ⟨hcode, pair, hpair, heq⟩
    exact ⟨pair, hpair, by simp only [Function.comp_apply, WorkItem.target, heq, ← hcode]⟩

omit [LinearOrder (Target F)] in
theorem definitionItems_nodup (row : SnapshotRow F) (previous : Option (SnapshotRow F))
    (definition : StateDefinition F) :
    ((definitionItems row previous definition).map (·.target)).Nodup := by
  have hpairs := stateVariantPairs_nodup row definition.indicatorType
    ((previous.map (·.variantsOf definition.indicatorType)).getD [])
  rw [definitionItems, List.map_map]
  rw [List.Nodup, List.pairwise_map] at hpairs ⊢
  exact hpairs.imp fun h e => h (Target.mk.inj e).2

/-- The filters select among the iterations of a date. -/
theorem workItems_filter (filter : StateFilter F) (row : SnapshotRow F)
    (previous : Option (SnapshotRow F)) :
    workItems filter row previous =
      (workItems {} row previous).filter fun item => filter.accepts item.target := by
  simp only [workItems, Option.all_none, Bool.and_self, List.filter_true, List.filter_flatMap]
  have hsound : ∀ definition ∈ stateDefinitions (F := F),
      definition.indicatorType = definition.code.indicatorType :=
    fun _ => stateDefinitions_indicatorType
  revert hsound
  generalize stateDefinitions (F := F) = definitions
  intro hsound
  induction definitions with
  | nil => rfl
  | cons definition definitions ih =>
    obtain ⟨htype, hsound⟩ := List.forall_mem_cons.mp hsound
    rw [List.flatMap_cons, ← ih hsound, List.filter_cons]
    have hitems : ∀ item ∈ definitionItems row previous definition,
        filter.accepts item.target =
          (filter.stateCode.all (· = definition.code) && filter.parameterKey.all (· = item.target)
            && filter.indicatorType.all (· = definition.indicatorType)) := by
      intro item hitem
      rw [htype, ← definition_of_mem_definitionItems hitem]
      rfl
    rw [List.filter_congr hitems]
    split
    · next h =>
      obtain ⟨hcode, htype⟩ := Bool.and_eq_true_iff.mp h
      simp only [List.flatMap_cons, hcode, htype, Bool.true_and, Bool.and_true]
    · next h =>
      have hnone : ((definitionItems row previous definition).filter fun item =>
          filter.stateCode.all (· = definition.code) && filter.parameterKey.all (· = item.target)
            && filter.indicatorType.all (· = definition.indicatorType)) = [] := by
        rw [List.filter_eq_nil_iff]
        intro item _ hall
        simp only [Bool.and_eq_true] at hall h
        exact h ⟨hall.1.1, hall.2⟩
      rw [hnone, List.nil_append]

theorem mem_workItems_targets {row : SnapshotRow F} {previous : Option (SnapshotRow F)}
    {target : Target F} :
    target ∈ (workItems {} row previous).map (·.target) ↔ row.HasTarget target := by
  simp only [workItems, Option.all_none, Bool.and_self, List.filter_true, List.map_flatMap,
    List.mem_flatMap, mem_definitionItems_targets, SnapshotRow.HasTarget]
  constructor
  · rintro ⟨definition, hdefinition, hcode, h⟩
    rwa [hcode, ← stateDefinitions_indicatorType hdefinition]
  · intro h
    obtain ⟨definition, hdefinition, hcode⟩ := exists_definition (F := F) target.code
    rw [← hcode, ← stateDefinitions_indicatorType hdefinition] at h
    exact ⟨definition, hdefinition, hcode.symm, h⟩

/-- The iterations of one date have distinct targets. -/
theorem workItems_nodup (row : SnapshotRow F) (previous : Option (SnapshotRow F)) :
    ((workItems {} row previous).map (·.target)).Nodup := by
  simp only [workItems, Option.all_none, Bool.and_self, List.filter_true, List.map_flatMap]
  refine List.nodup_flatMap.mpr ⟨fun definition _ => definitionItems_nodup .., ?_⟩
  refine (List.pairwise_map.mp (stateDefinitions_codes_nodup (F := F))).imp ?_
  intro definition definition' hne target h h'
  rw [mem_definitionItems_targets] at h h'
  exact hne (h.1.symm.trans h'.1)

/-- The iterations of a date depend on the variants of its rows, not on their provenance. -/
theorem workItems_congr {filter : StateFilter F} {row row' : SnapshotRow F}
    {previous previous' : Option (SnapshotRow F)} (h : row.variants = row'.variants)
    (hprevious : previous.map (·.variants) = previous'.map (·.variants)) :
    workItems filter row previous = workItems filter row' previous' := by
  have hvariants (type : IndicatorType) : row.variantsOf type = row'.variantsOf type := by
    rw [SnapshotRow.variantsOf, h]
    rfl
  have hmodel (type : IndicatorType) :
      previous.map (·.variantsOf type) = previous'.map (·.variantsOf type) := by
    have := congrArg (Option.map fun variants : Variants F =>
      variants.rows.filter fun variant => variant.1.indicatorType = type) hprevious
    rwa [Option.map_map, Option.map_map] at this
  have hitems (definition : StateDefinition F) :
      definitionItems row previous definition = definitionItems row' previous' definition := by
    simp only [definitionItems, hvariants, hmodel]
  simp only [workItems, hitems]

/-- Without a previous row no iteration has a previous snapshot. -/
theorem previous_eq_none_of_mem_workItems {filter : StateFilter F} {row : SnapshotRow F}
    {item : WorkItem F} (h : item ∈ workItems filter row none) : item.previous = none := by
  obtain ⟨definition, -, h⟩ := List.mem_flatMap.mp h
  obtain ⟨pair, -, rfl⟩ := List.mem_map.mp (List.mem_of_mem_filter h)
  rfl

end Targets

/-! ## Observations without a pass -/

section Observe

variable {F : Type} [Arith F]

theorem observeItem_target (day : Date) (previous : Option Date) (close : Date → Option F)
    (prior : Option StateStatus) (memory : Option Bool) (item : WorkItem F) :
    (observeItem day previous close prior memory item).1.target = item.target ∧
      (observeItem day previous close prior memory item).1.tradeDate = day := by
  unfold observeItem
  split
  · exact ⟨rfl, rfl⟩
  split
  · exact ⟨rfl, rfl⟩
  dsimp only
  split <;> exact ⟨rfl, rfl⟩

/-- What an evaluation finds does not depend on the previous state, its transition does. -/
theorem evaluateState_congr (definition : StateDefinition F) (current previous : IndicatorSnapshot F)
    (price previousPrice : Option F) (previousActive memory previousActive' memory' : Option Bool) :
    let result := evaluateState definition current previous price previousPrice previousActive memory
    let result' :=
      evaluateState definition current previous price previousPrice previousActive' memory'
    result.1.active = result'.1.active ∧ result.1.reason = result'.1.reason ∧
      result.1.values = result'.1.values ∧ result.2 = result'.2 := by
  unfold evaluateState
  split <;> exact ⟨rfl, rfl, rfl, rfl⟩

/-- The status of an observation is a function of the data of its date and the predecessor. -/
theorem observeItem_status (day : Date) (previous : Option Date) (close : Date → Option F)
    (prior prior' : Option StateStatus) (memory memory' : Option Bool) (item : WorkItem F) :
    (observeItem day previous close prior memory item).1.status =
      (observeItem day previous close prior' memory' item).1.status := by
  unfold observeItem
  split
  · rfl
  split
  · rfl
  next previousDate _ previous _ =>
  have heval := evaluateState_congr item.definition item.current previous (close day)
    (close previousDate) (prior.map fun status => decide (status = StateStatus.active)) memory
    (prior'.map fun status => decide (status = StateStatus.active)) memory'
  obtain ⟨hactive, hreason, -, -⟩ := heval
  dsimp only
  rw [hreason]
  split
  · rfl
  · exact congrArg (fun active => if active then StateStatus.active else .inactive) hactive

/-- An observation reads the closes of its date and the predecessor; its memory only counts without
a prior status. -/
theorem observeItem_congr {day : Date} {previous : Option Date} {close close' : Date → Option F}
    {prior prior' : Option StateStatus} {memory : Option Bool} {item : WorkItem F}
    (h : ∀ previousDate, previous = some previousDate → item.previous.isSome →
      close day = close' day ∧ close previousDate = close' previousDate ∧ prior = prior' ∧
        (prior' = none → memory = none)) :
    (observeItem day previous close prior memory item).1 =
      (observeItem day previous close' prior' none item).1 := by
  cases previous with
  | none => rfl
  | some previousDate =>
    cases hprevious : item.previous with
    | none => simp only [observeItem, hprevious]
    | some previous =>
      obtain ⟨hday, hclose, rfl, hmemory⟩ := h previousDate rfl (by rw [hprevious]; rfl)
      have heval : evaluateState item.definition item.current previous (close' day)
          (close' previousDate) (prior.map fun status => decide (status = .active)) memory =
          evaluateState item.definition item.current previous (close' day) (close' previousDate)
            (prior.map fun status => decide (status = .active)) none := by
        cases prior with
        | none => rw [hmemory rfl]
        | some status => rfl
      simp only [observeItem, hprevious, hday, hclose, heval]

/-- Without a predecessor an evaluation leaves no memory. -/
theorem observeItem_memory {day : Date} {close : Date → Option F} {prior : Option StateStatus}
    {memory : Option Bool} {item : WorkItem F} :
    (observeItem day none close prior memory item).2 = none := rfl

end Observe

/-! ## The states of a history -/

/-- What the states of a stream are a function of. -/
structure History (F : Type) [LinearOrder (IndicatorRequest F)] where
  snapshots : Snapshots F
  bars : Bars
  calendar : Calendar

section History

variable {F : Type} [Arith F] [LinearOrder (IndicatorRequest F)] [LinearOrder (Target F)]

/-- Snapshot histories as `IndicatorService` writes them: a variant, once present, is present on
every later snapshot date. -/
def Snapshots.Persistent (snapshots : Snapshots F) : Prop :=
  ∀ day day' row row', day < day' → snapshots.get? day = some row →
    snapshots.get? day' = some row' → ∀ request ∈ row.variants.keys, request ∈ row'.variants.keys

instance (snapshots : Snapshots F) : Decidable snapshots.Persistent :=
  decidable_of_iff (∀ r ∈ snapshots.rows, ∀ r' ∈ snapshots.rows, r.1 < r'.1 →
      ∀ request ∈ r.2.variants.keys, request ∈ r'.2.variants.keys)
    ⟨fun h day day' row row' hlt hrow hrow' =>
      h (day, row) (Table.get?_eq_some.mp hrow) (day', row') (Table.get?_eq_some.mp hrow') hlt,
    fun h r hr r' hr' hlt =>
      h r.1 r'.1 r.2 r'.2 hlt (Table.get?_eq_some.mpr hr) (Table.get?_eq_some.mpr hr')⟩

omit [Arith F] [LinearOrder (Target F)] in
/-- A target stays, once observed. -/
theorem SnapshotRow.HasTarget.persist {snapshots : Snapshots F} (hpersistent : snapshots.Persistent)
    {day day' : Date} {row row' : SnapshotRow F} {target : Target F} (hday : day ≤ day')
    (hrow : snapshots.get? day = some row) (hrow' : snapshots.get? day' = some row')
    (htarget : row.HasTarget target) : row'.HasTarget target := by
  rcases hday.lt_or_eq with hlt | rfl
  · obtain ⟨request, hrequest, htype, hparameters⟩ := htarget
    exact ⟨request, hpersistent day day' row row' hlt hrow hrow' request hrequest, htype, hparameters⟩
  · rw [hrow] at hrow'
    cases hrow'
    exact htarget

namespace History

def previousDate (h : History F) (day : Date) : Option Date := h.calendar.previousOpenDate day

def close (h : History F) (day : Date) : Option F :=
  (h.bars.get? day).map fun bar => Arith.ofRat bar.close

def items (h : History F) (day : Date) : List (WorkItem F) :=
  match h.snapshots.get? day with
  | none => []
  | some row => workItems {} row ((h.previousDate day).bind h.snapshots.get?)

def statusOf (h : History F) (day : Date) (item : WorkItem F) : StateStatus :=
  (observeItem day (h.previousDate day) h.close none none item).1.status

/-- The status of a target on a date on which it is observed. -/
def status (h : History F) (day : Date) (target : Target F) : Option StateStatus :=
  ((h.items day).find? (·.target = target)).map (h.statusOf day)

def row (h : History F) (day : Date) (item : WorkItem F) : StateRow F :=
  (observeItem day (h.previousDate day) h.close
    ((h.previousDate day).bind fun previous => h.status previous item.target) none item).1

/-- The observations of a date. -/
def rows (h : History F) (day : Date) : List (StateRow F) := (h.items day).map (h.row day)

/-- The observations of the dates of a pass, as its filters select them. -/
def observed (h : History F) (filter : StateFilter F) (dates : List Date) : List (StateRow F) :=
  dates.flatMap fun day => (h.rows day).filter fun row => filter.accepts row.target

@[simp] theorem row_target (h : History F) (day : Date) (item : WorkItem F) :
    (h.row day item).target = item.target := (observeItem_target ..).1

@[simp] theorem row_tradeDate (h : History F) (day : Date) (item : WorkItem F) :
    (h.row day item).tradeDate = day := (observeItem_target ..).2

@[simp] theorem row_status (h : History F) (day : Date) (item : WorkItem F) :
    (h.row day item).status = h.statusOf day item := observeItem_status ..

theorem items_nodup (h : History F) (day : Date) : ((h.items day).map (·.target)).Nodup := by
  unfold items
  split
  · exact .nil
  · exact workItems_nodup ..

/-- An iteration evaluates one of the built-in definitions. -/
theorem definition_of_mem_items {h : History F} {day : Date} {item : WorkItem F}
    (hitem : item ∈ h.items day) : item.definition ∈ stateDefinitions := by
  unfold items at hitem
  split at hitem
  · cases hitem
  · obtain ⟨definition, hdefinition, hitem⟩ := List.mem_flatMap.mp hitem
    rw [definition_of_mem_definitionItems (List.mem_of_mem_filter hitem)]
    exact List.mem_of_mem_filter hdefinition

theorem status_eq_some {h : History F} {day : Date} {target : Target F} {status : StateStatus} :
    h.status day target = some status ↔
      ∃ item ∈ h.items day, item.target = target ∧ h.statusOf day item = status := by
  rw [History.status, Option.map_eq_some_iff]
  constructor
  · rintro ⟨item, hitem, rfl⟩
    exact ⟨item, List.mem_of_find?_eq_some hitem, by simpa using List.find?_some hitem, rfl⟩
  · rintro ⟨item, hitem, htarget, rfl⟩
    have hsome : ((h.items day).find? (·.target = target)).isSome := by
      rw [List.find?_isSome]
      exact ⟨item, hitem, by simpa using htarget⟩
    obtain ⟨item', hitem'⟩ := Option.isSome_iff_exists.mp hsome
    have htarget' : item'.target = target := by simpa using List.find?_some hitem'
    have heq : item' = item := List.inj_on_of_nodup_map (h.items_nodup day)
      (List.mem_of_find?_eq_some hitem') hitem (htarget'.trans htarget.symm)
    exact ⟨item', hitem', by rw [heq]⟩

theorem rows_targets (h : History F) (day : Date) :
    (h.rows day).map (·.target) = (h.items day).map (·.target) := by
  rw [rows, List.map_map]
  exact List.map_congr_left fun item _ => h.row_target day item

/-- A date has at most one observation of a target. -/
theorem rows_nodup (h : History F) (day : Date) : ((h.rows day).map (·.target)).Nodup := by
  rw [rows_targets]
  exact h.items_nodup day

theorem tradeDate_of_mem_rows {h : History F} {day : Date} {row : StateRow F}
    (hrow : row ∈ h.rows day) : row.tradeDate = day := by
  obtain ⟨item, -, rfl⟩ := List.mem_map.mp hrow
  exact h.row_tradeDate day item

theorem status_eq_some_iff_row {h : History F} {day : Date} {target : Target F}
    {status : StateStatus} :
    h.status day target = some status ↔
      ∃ row ∈ h.rows day, row.target = target ∧ row.status = status := by
  rw [status_eq_some]
  constructor
  · rintro ⟨item, hitem, rfl, rfl⟩
    exact ⟨h.row day item, List.mem_map_of_mem hitem, h.row_target day item, h.row_status day item⟩
  · rintro ⟨row, hrow, rfl, rfl⟩
    obtain ⟨item, hitem, rfl⟩ := List.mem_map.mp hrow
    exact ⟨item, hitem, (h.row_target day item).symm, (h.row_status day item).symm⟩

/-- The targets of a date are those of its snapshot row. -/
theorem mem_items_targets {h : History F} {day : Date} {target : Target F} :
    target ∈ (h.items day).map (·.target) ↔
      ∃ row, h.snapshots.get? day = some row ∧ row.HasTarget target := by
  unfold items
  split
  · next hnone => simp [hnone]
  · next row hrow => simp only [mem_workItems_targets, hrow, Option.some.injEq, exists_eq_left']

theorem status_isSome {h : History F} {day : Date} {target : Target F} :
    (h.status day target).isSome ↔ ∃ row, h.snapshots.get? day = some row ∧ row.HasTarget target := by
  rw [← mem_items_targets, List.mem_map, Option.isSome_iff_exists]
  simp only [status_eq_some]
  exact ⟨fun ⟨_, item, hitem, htarget, _⟩ => ⟨item, hitem, htarget⟩,
    fun ⟨item, hitem, htarget⟩ => ⟨_, item, hitem, htarget, rfl⟩⟩

end History

end History

end Apanel
