import Apanel.Indicators.Identity
import Mathlib.Data.Set.List

/-!
# Typed requests

The merge keeps the requests for the indicators with a known formula in exactly the forms of the
typed requests on which the series are modelled, and merges them as these are merged.
-/

namespace Apanel

namespace Canonical

section Typed

variable {F : Type} [PyFloat F] {tables : CaseTables}

def periodValue (period : Period) : Json (Number F) := integerValue period.1

/-- The canonical parameters of a typed request. -/
def mapping : IndicatorRequest F → Request F
  | .ma periods =>
    ⟨typeName .ma, [("periods".toList, periodsValue (periods.periods.map fun p => (p.1 : ℤ)))]⟩
  | .projectedMa period => ⟨typeName .projectedMa, [("period".toList, periodValue period)]⟩
  | .rsi period => ⟨typeName .rsi, [("period".toList, periodValue period)]⟩
  | .kdj period kPeriod dPeriod => ⟨typeName .kdj, [("d_period".toList, periodValue dPeriod),
      ("k_period".toList, periodValue kPeriod), ("period".toList, periodValue period)]⟩
  | .boll period multiplier => ⟨typeName .boll,
      [("multiplier".toList, .number (.float multiplier)), ("period".toList, periodValue period)]⟩
  | .macd fastPeriod slowPeriod signalPeriod => ⟨typeName .macd,
      [("fast_period".toList, periodValue fastPeriod),
        ("signal_period".toList, periodValue signalPeriod),
        ("slow_period".toList, periodValue slowPeriod)]⟩

/-- The checks that the types do not make. -/
def Accepted : IndicatorRequest F → Prop
  | .boll _ multiplier => PyFloat.isFinite multiplier ∧ PyFloat.isPositive multiplier
  | .macd fastPeriod slowPeriod _ => fastPeriod < slowPeriod
  | _ => True

omit [PyFloat F] in
theorem integerValue_injective {m n : ℤ}
    (h : (integerValue m : Json (Number F)) = integerValue n) : m = n := by
  cases h
  rfl

omit [PyFloat F] in
theorem periodValue_injective {p q : Period}
    (h : (periodValue p : Json (Number F)) = periodValue q) : p = q :=
  Subtype.ext (Int.ofNat_injective (integerValue_injective h))

theorem fixed_periodValue (known : IndicatorType) {key : List Char} (hkey : key ∈ integerParameterKeys)
    (period : Period) :
    normalizeValue (some known) (key, (periodValue period : Json (Number F))) =
      .ok (key, periodValue period) := by
  have hperiod : 0 < (period.1 : ℤ) ∧ (period.1 : ℤ) ≤ 10000 := by
    have := period.2
    omega
  rw [normalizeValue_some, normalizeParameterValue, if_pos hkey,
    normalizeInteger_eq_ok.mpr ⟨rfl, hperiod⟩]
  rfl

theorem fixed_float (known : IndicatorType) {key : List Char} (hkey : key ∉ integerParameterKeys)
    {x : F} (hx : PyFloat.isFinite x ∧ PyFloat.isPositive x) :
    normalizeValue (some known) (key, (.number (.float x) : Json (Number F))) =
      .ok (key, .number (.float x)) := by
  rw [normalizeValue_some, normalizeParameterValue, if_neg hkey, normalizeFloat_eq_ok.mpr ⟨rfl, hx⟩]
  rfl

/-- A table with all names of an indicator and values that stay as they are. -/
theorem isCanonical_rows [LawfulPyFloat F] {known : IndicatorType} (hother : known ≠ .ma)
    {t : Table (List Char) (Json (Number F))}
    (hfixed : ∀ m ∈ t.rows, normalizeValue (some known) m = .ok m)
    (hnames : ∀ name, name ∈ t.keys ↔ name ∈ parameterKeys known)
    (hordered : known = .macd → macdOrdered t) : IsCanonical tables true (some known) t.rows := by
  have hsupported : ∀ m ∈ t.rows, m.1 ∈ parameterKeys known := fun m hm =>
    (hnames m.1).mp (List.mem_map_of_mem hm)
  have hself : t.rows.mapM (normalizeValue (some known)) = .ok (t.rows.map id) :=
    mapM_eq_ok_map hfixed
  have htable : (Table.ofList (defaults true (some known))).insertMany t.rows = t := by
    refine Table.ext_get? fun name => ?_
    rw [Table.get?_insertMany_table]
    cases hget : t.get? name with
    | some value => rfl
    | none =>
      rw [Option.or_eq_none_iff]
      refine ⟨rfl, Table.get?_eq_none.mpr fun hmem => Table.get?_eq_none.mp hget ?_⟩
      obtain ⟨m, hm, rfl⟩ := List.mem_map.mp (Table.mem_keys_ofList.mp hmem)
      exact (hnames m.1).mpr (defaultMapping_fixed hother hm).2.2
  have hcanonical : canonicalizeOther true (some known) t.rows = .ok t.rows := by
    refine Except.bind_eq_ok.mpr ⟨t.rows, by rw [hself, List.map_id], ?_⟩
    rw [htable, checkedRows, if_neg]
    rintro ⟨hmacd, hnot⟩
    rw [hordered (Option.some.inj hmacd)] at hnot
    cases hnot
  refine isCanonical_canonicalizeOther (fun h => hother (Option.some.inj h)) hcanonical
    (fun m hm => isName_parameterKeys (hsupported m hm)) fun known' hknown' m hm => ?_
  cases hknown'
  exact hsupported m hm

/-- The merge keeps a typed request as it is. -/
theorem merged_mapping [LawfulPyFloat F] {request : IndicatorRequest F} (h : Accepted request) :
    Merged tables (mapping request) := by
  have hother {known : IndicatorType} (hne : known ≠ .ma) {t : Table (List Char) (Json (Number F))}
      (hcanonical : IsCanonical tables true (some known) t.rows)
      (hlookup : typeNames.lookup (typeName known) = some known) :
      Merged tables ⟨typeName known, t.rows⟩ := by
    refine ⟨isTypeName_typeName known, ?_, fun hma => ?_⟩
    · change IsCanonical tables true (typeNames.lookup (typeName known)) t.rows
      rw [hlookup]
      exact hcanonical
    · exact absurd (Option.some.inj (hlookup.symm.trans (typeNames_lookup_ma.mpr hma))) hne
  cases request with
  | ma periods =>
    have hsorted : (periods.periods.map fun p => (p.1 : ℤ)).Pairwise (· < ·) :=
      List.pairwise_map.mpr (periods.sorted.imp fun h => Int.ofNat_lt.mpr h)
    refine ⟨isTypeName_typeName .ma, (MaForm.periods hsorted ?_ ?_ ?_).isCanonical,
      fun _ => ⟨_, hsorted, rfl⟩⟩
    · exact fun hnil => periods.nonempty (List.map_eq_nil_iff.mp hnil)
    · intro n hn
      obtain ⟨p, -, rfl⟩ := List.mem_map.mp hn
      have := p.2
      omega
    · rw [List.length_map]
      exact periods.length_le
  | projectedMa period =>
    refine hother (t := ⟨[("period".toList, periodValue period)], List.pairwise_singleton _ _⟩)
      (by decide) (isCanonical_rows (by decide) ?_ (fun _ => Iff.rfl) nofun) rfl
    simp only [List.forall_mem_singleton]
    exact fixed_periodValue _ (by decide) period
  | rsi period =>
    refine hother (t := ⟨[("period".toList, periodValue period)], List.pairwise_singleton _ _⟩)
      (by decide) (isCanonical_rows (by decide) ?_ (fun _ => Iff.rfl) nofun) rfl
    simp only [List.forall_mem_singleton]
    exact fixed_periodValue _ (by decide) period
  | kdj period kPeriod dPeriod =>
    have horder : ["d_period".toList, "k_period".toList, "period".toList].Pairwise (· < ·) := by
      decide
    have hnames : ["d_period".toList, "k_period".toList, "period".toList].Perm
        (parameterKeys .kdj) := by decide
    refine hother (t := ⟨[("d_period".toList, periodValue dPeriod),
        ("k_period".toList, periodValue kPeriod), ("period".toList, periodValue period)],
          List.pairwise_map.mp horder⟩)
      (by decide) (isCanonical_rows (by decide) ?_ (fun _ => hnames.mem_iff) nofun) rfl
    simp only [List.forall_mem_cons]
    exact ⟨fixed_periodValue _ (by decide) dPeriod, fixed_periodValue _ (by decide) kPeriod,
      fixed_periodValue _ (by decide) period, nofun⟩
  | boll period multiplier =>
    have horder : ["multiplier".toList, "period".toList].Pairwise (· < ·) := by decide
    have hnames : ["multiplier".toList, "period".toList].Perm (parameterKeys .boll) := by decide
    refine hother (t := ⟨[("multiplier".toList, .number (.float multiplier)),
        ("period".toList, periodValue period)], List.pairwise_map.mp horder⟩)
      (by decide) (isCanonical_rows (by decide) ?_ (fun _ => hnames.mem_iff) nofun) rfl
    simp only [List.forall_mem_cons]
    exact ⟨fixed_float _ multiplier_notInteger h, fixed_periodValue _ (by decide) period, nofun⟩
  | macd fastPeriod slowPeriod signalPeriod =>
    have horder : ["fast_period".toList, "signal_period".toList, "slow_period".toList].Pairwise
        (· < ·) := by decide
    have hnames : ["fast_period".toList, "signal_period".toList, "slow_period".toList].Perm
        (parameterKeys .macd) := by decide
    refine hother (t := ⟨[("fast_period".toList, periodValue fastPeriod),
        ("signal_period".toList, periodValue signalPeriod),
        ("slow_period".toList, periodValue slowPeriod)], List.pairwise_map.mp horder⟩)
      (by decide) (isCanonical_rows (by decide) ?_ (fun _ => hnames.mem_iff) fun _ => ?_) rfl
    · simp only [List.forall_mem_cons]
      exact ⟨fixed_periodValue _ (by decide) fastPeriod,
        fixed_periodValue _ (by decide) signalPeriod, fixed_periodValue _ (by decide) slowPeriod,
        nofun⟩
    · rw [macdOrdered, Table.get?_eq_some.mpr List.mem_cons_self,
        Table.get?_eq_some.mpr (List.mem_cons_of_mem _ (List.mem_cons_of_mem _ List.mem_cons_self))]
      exact decide_eq_true (Int.ofNat_lt.mpr h)

theorem exists_periodValue {known : IndicatorType} {key : List Char}
    {value : Json (Number F)}
    (hkey : key ∈ integerParameterKeys) (h : normalizeValue (some known) (key, value) = .ok (key, value)) :
    ∃ period : Period, value = periodValue period := by
  obtain ⟨out, hout, heq⟩ := Except.map_eq_ok.mp h
  change normalizeParameterValue key value = .ok out at hout
  rw [normalizeParameterValue, if_pos hkey] at hout
  obtain ⟨n, hn, rfl⟩ := Except.map_eq_ok.mp hout
  obtain ⟨-, hpos, hmax⟩ := normalizeInteger_eq_ok.mp hn
  refine ⟨⟨n.toNat, by omega⟩, ?_⟩
  rw [← (Prod.mk.inj heq).2, periodValue, integerValue, Int.toNat_of_nonneg hpos.le]

theorem exists_float {known : IndicatorType} {key : List Char}
    {value : Json (Number F)}
    (hkey : key ∉ integerParameterKeys) (h : normalizeValue (some known) (key, value) = .ok (key, value)) :
    ∃ x : F, value = .number (.float x) ∧ PyFloat.isFinite x ∧ PyFloat.isPositive x := by
  obtain ⟨out, hout, heq⟩ := Except.map_eq_ok.mp h
  change normalizeParameterValue key value = .ok out at hout
  rw [normalizeParameterValue, if_neg hkey] at hout
  obtain ⟨x, hx, rfl⟩ := Except.map_eq_ok.mp hout
  exact ⟨x, (Prod.mk.inj heq).2.symm, (normalizeFloat_eq_ok.mp hx).2⟩

/-- The canonical parameters of an indicator with all defaults: its names, in their order, with
values that stay as they are. -/
structure CompleteRows (known : IndicatorType) (c : Parameters F) : Prop where
  names : ∀ name, name ∈ c.map (·.1) ↔ name ∈ parameterKeys known
  fixed : ∀ m ∈ c, normalizeValue (some known) m = .ok m
  ordered : known = .macd → ∀ t : Table (List Char) (Json (Number F)), t.rows = c → macdOrdered t

theorem IsCanonical.completeRows {known : IndicatorType} (hother : known ≠ .ma) {c : Parameters F}
    (h : IsCanonical tables true (some known) c) : CompleteRows known c := by
  have hraw := h.fixed true id
  rw [canonicalizeRaw] at hraw
  split_ifs at hraw with hunsupported hma
  · exact absurd (Option.some.inj hma) hother
  obtain ⟨values, hvalues, hrows⟩ := Except.bind_eq_ok.mp hraw
  rw [checkedRows] at hrows
  split_ifs at hrows with hordered
  set t := (Table.ofList (defaults true (some known))).insertMany values with ht
  have hc : t.rows = c := Except.ok.inj hrows
  have hdistinct : values.Pairwise fun r s => r.1 ≠ s.1 := by
    have hnames := mapM_names (fun m out hout => (normalizeValue_idem hout).1) hvalues
    refine List.pairwise_map.mp ?_
    rw [hnames]
    exact List.pairwise_map.mpr (h.sorted.imp fun hlt => hlt.ne)
  refine ⟨fun name => ⟨fun hname => ?_, fun hname => ?_⟩, fun m hm => ?_, fun hmacd t' ht' => ?_⟩
  · obtain ⟨m, hm, rfl⟩ := List.mem_map.mp hname
    by_contra hnot
    exact hunsupported ⟨known, rfl, m, hm, hnot⟩
  · have hdefault : name ∈ (defaults true (some known) : Parameters F).map (·.1) := by
      cases known with
      | ma => exact absurd rfl hother
      | projectedMa | rsi | kdj | boll | macd => exact hname
    have hkey : name ∈ t.keys := by
      obtain ⟨value, hvalue⟩ := Table.mem_keys.mp (Table.mem_keys_ofList.mpr hdefault)
      rw [Table.mem_keys, ht, Table.get?_insertMany_getLast?, hvalue]
      exact ⟨_, Option.or_some⟩
    rw [Table.keys, hc] at hkey
    exact hkey
  · obtain ⟨out, hout⟩ := exists_mapM_eq_ok.mp ⟨_, hvalues⟩ m hm
    have hmem : out ∈ c := by
      rw [← hc]
      refine Table.get?_eq_some.mp ((Table.get?_insertMany hdistinct out.1 out.2).mpr (.inl ?_))
      exact (mem_of_mapM hvalues).mpr ⟨m, hm, hout⟩
    have hnodup : (c.map (·.1)).Nodup := List.pairwise_map.mpr (h.sorted.imp fun hlt => hlt.ne)
    rwa [List.inj_on_of_nodup_map hnodup hmem hm (normalizeValue_idem hout).1] at hout
  · rw [show t' = t from Table.ext_rows (ht'.trans hc.symm)]
    by_contra hnot
    exact hordered ⟨congrArg some hmacd, by simpa using hnot⟩

theorem CompleteRows.map_names {known : IndicatorType} {c : Parameters F} (h : CompleteRows known c)
    (hsorted : c.Pairwise (·.1 < ·.1)) {names : List (List Char)} (hnames : names.Pairwise (· < ·))
    (hperm : names.Perm (parameterKeys known)) : c.map (·.1) = names :=
  eq_of_sorted_of_mem (List.pairwise_map.mpr hsorted) hnames fun name => by
    rw [h.names, hperm.mem_iff]

theorem typeNames_lookup {name : List Char} {known : IndicatorType}
    (h : typeNames.lookup name = some known) :
    name = typeName known ∧ typeNames.lookup (typeName known) = some known := by
  have hmem := mem_of_lookup h
  simp only [typeNames, List.mem_cons, Prod.mk.injEq, List.not_mem_nil, or_false] at hmem
  rcases hmem with ⟨rfl, rfl⟩ | ⟨rfl, rfl⟩ | ⟨rfl, rfl⟩ | ⟨rfl, rfl⟩ | ⟨rfl, rfl⟩ | ⟨rfl, rfl⟩ <;>
    exact ⟨rfl, rfl⟩

omit [PyFloat F] in
theorem exists_maPeriods {fillDefaults : Bool} {c : Parameters F} (h : MaForm fillDefaults c)
    {periods : List ℤ} (hc : c = [("periods".toList, periodsValue periods)]) :
    ∃ typed : MaPeriods, typed.periods.map (fun p => (p.1 : ℤ)) = periods := by
  cases h with
  | period => exact absurd (List.cons.inj hc).1 fun h => absurd (Prod.mk.inj h).1 (by decide)
  | none => cases hc
  | @periods periods' hsorted hne hvalid hlength =>
    have heq : periods' = periods := by
      have hperiods := congrArg maPeriods hc
      rwa [maPeriods_periodsValue, maPeriods_periodsValue] at hperiods
    subst heq
    have hrange : periods' ∈ Set.range (List.map fun p : Period => (p.1 : ℤ)) := by
      rw [Set.range_list_map]
      intro n hn
      obtain ⟨hpos, hmax⟩ := hvalid n hn
      exact ⟨⟨n.toNat, by omega⟩, Int.toNat_of_nonneg hpos.le⟩
    obtain ⟨typed, rfl⟩ := hrange
    refine ⟨⟨typed, ?_, fun hnil => hne (congrArg _ hnil), ?_⟩, rfl⟩
    · exact (List.pairwise_map.mp hsorted).imp fun h => Int.ofNat_lt.mp h
    · rwa [List.length_map] at hlength

theorem CompleteRows.eq_cons {known : IndicatorType} {c rows : Parameters F}
    (h : CompleteRows known c) (hrows : ∀ m ∈ rows, m ∈ c) {key : List Char}
    {keys : List (List Char)} (hkeys : rows.map (·.1) = key :: keys) :
    ∃ value rest, rows = (key, value) :: rest ∧ rest.map (·.1) = keys ∧ (∀ m ∈ rest, m ∈ c) ∧
      normalizeValue (some known) (key, value) = .ok (key, value) := by
  obtain ⟨⟨_, value⟩, rest, rfl, rfl, hrest⟩ := List.map_eq_cons_iff.mp hkeys
  exact ⟨value, rest, rfl, hrest, fun m hm => hrows m (List.mem_cons_of_mem _ hm),
    h.fixed _ (hrows _ List.mem_cons_self)⟩

/-- Every request for an indicator with a known formula that the merge keeps is a typed one. -/
theorem exists_mapping [LawfulPyFloat F] {request : Request F} {known : IndicatorType}
    (h : Merged tables request) (hknown : typeNames.lookup request.indicatorType = some known) :
    ∃ typed : IndicatorRequest F, Accepted typed ∧ mapping typed = request := by
  obtain ⟨indicatorType, c⟩ := request
  obtain ⟨htype, hlookup⟩ := typeNames_lookup hknown
  cases htype
  have hcanonical : IsCanonical tables true (some known) c := hlookup ▸ h.canonical
  by_cases hma : known = .ma
  · cases hma
    obtain ⟨periods, hsorted, hparameters⟩ := h.periods rfl
    obtain ⟨typed, rfl⟩ := exists_maPeriods hcanonical.maForm hparameters
    cases hparameters
    exact ⟨.ma typed, trivial, rfl⟩
  have hrows := hcanonical.completeRows hma
  have hmap {names : List (List Char)} (hnames : names.Pairwise (· < ·))
      (hperm : names.Perm (parameterKeys known)) : c.map (·.1) = names :=
    hrows.map_names hcanonical.sorted hnames hperm
  cases known with
  | ma => exact absurd rfl hma
  | projectedMa =>
    obtain ⟨value, rest, rfl, hrest, -, hvalue⟩ :=
      hrows.eq_cons (fun _ => id) (hmap (List.pairwise_singleton _ "period".toList) (.refl _))
    cases List.map_eq_nil_iff.mp hrest
    obtain ⟨period, rfl⟩ := exists_periodValue (by decide) hvalue
    exact ⟨.projectedMa period, trivial, rfl⟩
  | rsi =>
    obtain ⟨value, rest, rfl, hrest, -, hvalue⟩ :=
      hrows.eq_cons (fun _ => id) (hmap (List.pairwise_singleton _ "period".toList) (.refl _))
    cases List.map_eq_nil_iff.mp hrest
    obtain ⟨period, rfl⟩ := exists_periodValue (by decide) hvalue
    exact ⟨.rsi period, trivial, rfl⟩
  | kdj =>
    have hnames : c.map (·.1) = ["d_period".toList, "k_period".toList, "period".toList] :=
      hmap (by decide) (by decide)
    obtain ⟨dPeriod, rest, rfl, hnames, hrest, hd⟩ := hrows.eq_cons (fun _ => id) hnames
    obtain ⟨kPeriod, rest, rfl, hnames, hrest, hk⟩ := hrows.eq_cons hrest hnames
    obtain ⟨period, rest, rfl, hnames, hrest, hp⟩ := hrows.eq_cons hrest hnames
    cases List.map_eq_nil_iff.mp hnames
    obtain ⟨dPeriod, rfl⟩ := exists_periodValue (by decide) hd
    obtain ⟨kPeriod, rfl⟩ := exists_periodValue (by decide) hk
    obtain ⟨period, rfl⟩ := exists_periodValue (by decide) hp
    exact ⟨.kdj period kPeriod dPeriod, trivial, rfl⟩
  | boll =>
    have hnames : c.map (·.1) = ["multiplier".toList, "period".toList] :=
      hmap (by decide) (by decide)
    obtain ⟨multiplier, rest, rfl, hnames, hrest, hm⟩ := hrows.eq_cons (fun _ => id) hnames
    obtain ⟨period, rest, rfl, hnames, hrest, hp⟩ := hrows.eq_cons hrest hnames
    cases List.map_eq_nil_iff.mp hnames
    obtain ⟨multiplier, rfl, hmultiplier⟩ := exists_float multiplier_notInteger hm
    obtain ⟨period, rfl⟩ := exists_periodValue (by decide) hp
    exact ⟨.boll period multiplier, hmultiplier, rfl⟩
  | macd =>
    have hnames : c.map (·.1) =
        ["fast_period".toList, "signal_period".toList, "slow_period".toList] :=
      hmap (by decide) (by decide)
    obtain ⟨fastPeriod, rest, rfl, hnames, hrest, hf⟩ := hrows.eq_cons (fun _ => id) hnames
    obtain ⟨signalPeriod, rest, rfl, hnames, hrest, hsg⟩ := hrows.eq_cons hrest hnames
    obtain ⟨slowPeriod, rest, rfl, hnames, hrest, hsl⟩ := hrows.eq_cons hrest hnames
    cases List.map_eq_nil_iff.mp hnames
    obtain ⟨fastPeriod, rfl⟩ := exists_periodValue (by decide) hf
    obtain ⟨signalPeriod, rfl⟩ := exists_periodValue (by decide) hsg
    obtain ⟨slowPeriod, rfl⟩ := exists_periodValue (by decide) hsl
    refine ⟨.macd fastPeriod slowPeriod signalPeriod, ?_, rfl⟩
    have hordered := hrows.ordered rfl ⟨_, hcanonical.sorted⟩ rfl
    rw [macdOrdered, Table.get?_eq_some.mpr List.mem_cons_self,
      Table.get?_eq_some.mpr (List.mem_cons_of_mem _ (List.mem_cons_of_mem _ List.mem_cons_self))]
      at hordered
    exact Int.ofNat_lt.mp (of_decide_eq_true hordered)

omit [PyFloat F] in
theorem mapping_indicatorType (request : IndicatorRequest F) :
    (mapping request).indicatorType = typeName request.indicatorType := by
  cases request <;> rfl

theorem typeName_le_iff (type type' : IndicatorType) :
    typeName type ≤ typeName type' ↔ type.nameRank ≤ type'.nameRank := by
  cases type <;> cases type' <;> decide

theorem nameRank_injective : Function.Injective IndicatorType.nameRank := by
  intro type type' h
  cases type <;> cases type' <;> first | rfl | cases h

theorem typeName_injective : Function.Injective typeName := fun type type' h =>
  nameRank_injective (Nat.le_antisymm ((typeName_le_iff type type').mp h.le)
    ((typeName_le_iff type' type).mp h.ge))

omit [PyFloat F] in
theorem mapping_injective : Function.Injective (mapping (F := F)) := by
  intro request request' h
  have htype : request.indicatorType = request'.indicatorType := by
    refine typeName_injective ?_
    rw [← mapping_indicatorType, h, mapping_indicatorType]
  have hparameters := congrArg Request.parameters h
  cases request <;> cases request' <;> try cases htype
  all_goals
    simp only [mapping, List.cons.injEq, Prod.mk.injEq, true_and, and_true, Json.number.injEq,
      Number.float.injEq] at hparameters
  case ma.ma periods periods' =>
    have hperiods := congrArg (fun request => Canonical.maPeriods request.parameters) h
    simp only [mapping, maPeriods_periodsValue] at hperiods
    have hperiod : Function.Injective fun p : Period => (p.1 : ℤ) := fun p q h =>
      Subtype.ext (Int.ofNat_injective h)
    exact congrArg IndicatorRequest.ma (MaPeriods.ext (List.map_injective_iff.mpr hperiod hperiods))
  case projectedMa.projectedMa => rw [periodValue_injective hparameters]
  case rsi.rsi => rw [periodValue_injective hparameters]
  case kdj.kdj =>
    obtain ⟨hd, hk, hp⟩ := hparameters
    rw [periodValue_injective hd, periodValue_injective hk, periodValue_injective hp]
  case boll.boll =>
    obtain ⟨hm, hp⟩ := hparameters
    rw [hm, periodValue_injective hp]
  case macd.macd =>
    obtain ⟨hf, hsg, hsl⟩ := hparameters
    rw [periodValue_injective hf, periodValue_injective hsg, periodValue_injective hsl]

/-! ## Defaults -/

/-- `DEFAULT_PARAMETER_MAP` of one indicator type. -/
def typedDefault : IndicatorType → IndicatorRequest F
  | .ma => .ma ⟨[Period.of 5, Period.of 10], by decide, by decide, by decide⟩
  | .projectedMa => .projectedMa (Period.of 5)
  | .rsi => .rsi (Period.of 14)
  | .kdj => .kdj (Period.of 9) (Period.of 3) (Period.of 3)
  | .boll => .boll (Period.of 20) PyFloat.two
  | .macd => .macd (Period.of 12) (Period.of 26) (Period.of 9)

variable [LawfulPyFloat F]

theorem accepted_typedDefault (type : IndicatorType) : Accepted (typedDefault (F := F) type) := by
  cases type with
  | boll => exact LawfulPyFloat.two_valid
  | macd => exact Subtype.mk_lt_mk.mpr (by decide)
  | ma | projectedMa | rsi | kdj => trivial

omit [LawfulPyFloat F] in
/-- The defaults of the code are the typed defaults, in another order of their names. -/
theorem defaultMapping_perm (type : IndicatorType) :
    (defaultMapping type).Perm (mapping (typedDefault (F := F) type)).parameters := by
  cases type with
  | ma | projectedMa | rsi => exact .refl _
  | kdj => exact (List.reverse_perm _).symm
  | boll => exact .swap _ _ _
  | macd => exact .cons _ (.swap _ _ _)

omit [LawfulPyFloat F] in
theorem typedDefault_indicatorType (type : IndicatorType) :
    (typedDefault (F := F) type).indicatorType = type := by
  cases type <;> rfl

theorem canonicalize_defaultMapping (type : IndicatorType) :
    canonicalizeParameters tables true (typeName type) (.object (defaultMapping type)) =
      .ok (mapping (typedDefault (F := F) type)).parameters := by
  have hmerged : Merged tables (mapping (typedDefault (F := F) type)) :=
    merged_mapping (accepted_typedDefault type)
  have hcanonical := hmerged.canonical
  rw [mapping_indicatorType, typedDefault_indicatorType] at hcanonical
  exact hcanonical.canonicalizeParameters_of_perm (isTypeName_typeName type).normalize_eq
    (defaultMapping_perm type)

/-- `_default_request_pairs`. -/
def typedDefaults : List (IndicatorRequest F) :=
  [.ma, .projectedMa, .rsi, .kdj, .boll, .macd].map typedDefault

theorem defaultRequestPairs_eq :
    defaultRequestPairs (F := F) tables = .ok (typedDefaults.map mapping) := by
  rw [typedDefaults, List.map_map]
  refine mapM_eq_ok_map fun type _ => Except.map_eq_ok.mpr
    ⟨_, canonicalize_defaultMapping type, ?_⟩
  rw [← typedDefault_indicatorType (F := F) type, ← mapping_indicatorType,
    typedDefault_indicatorType]
  rfl

theorem accepted_typedDefaults : ∀ request ∈ typedDefaults (F := F), Accepted request := by
  intro request hrequest
  obtain ⟨type, -, rfl⟩ := List.mem_map.mp hrequest
  exact accepted_typedDefault type

/-! ## Merging -/

variable {digest : List Char → List Char}

theorem mapM_normalizeRequest_mapping {typed : List (IndicatorRequest F)}
    (h : ∀ request ∈ typed, Accepted request) :
    (typed.map mapping).mapM (normalizeRequest tables) = .ok (typed.map mapping) := by
  rw [List.mapM_map]
  exact mapM_eq_ok_map fun request hrequest => (merged_mapping (h request hrequest)).normalizeRequest_eq

/-- The merge fails only on a request that is not accepted. -/
theorem exists_mergeIndicatorRequests {requests : List (Request F)} :
    (∃ out, mergeIndicatorRequests tables digest requests = .ok out) ↔
      ∀ request ∈ requests, ∃ c, canonicalizeParameters tables true request.indicatorType
        (.object request.parameters) = .ok c := by
  constructor
  · rintro ⟨out, hout⟩ request hrequest
    obtain ⟨defaults, normalized, -, hnormalized, -⟩ := mergeIndicatorRequests_eq_ok.mp hout
    obtain ⟨kept, hkept⟩ := exists_mapM_eq_ok.mp ⟨_, hnormalized⟩ request
      (List.mem_append_right _ hrequest)
    obtain ⟨name, c, -, hc, -⟩ := normalizeRequest_eq_ok.mp hkept
    exact ⟨c, hc⟩
  · intro haccepted
    obtain ⟨normalized, hnormalized⟩ : ∃ normalized,
        (typedDefaults.map mapping ++ requests).mapM (normalizeRequest tables) = .ok normalized := by
      refine exists_mapM_eq_ok.mpr fun request hrequest => ?_
      rcases List.mem_append.mp hrequest with hdefault | hrequest
      · obtain ⟨typed, htyped, rfl⟩ := List.mem_map.mp hdefault
        exact ⟨_, (merged_mapping (accepted_typedDefaults typed htyped)).normalizeRequest_eq⟩
      · obtain ⟨c, hc⟩ := haccepted request hrequest
        obtain ⟨name, -, -, hname, -⟩ := canonicalizeParameters_eq_ok.mp hc
        exact ⟨_, normalizeRequest_eq_ok.mpr ⟨name, c, hname, hc, rfl⟩⟩
    exact ⟨_, mergeIndicatorRequests_eq_ok.mpr ⟨_, normalized, defaultRequestPairs_eq, hnormalized, rfl⟩⟩

end Typed

/-! ## Refinement -/

section Refinement

variable {F : Type} [PyFloat F] [LawfulPyFloat F] {tables : CaseTables}
  {digest : List Char → List Char}

/-- The place of a request among the merged ones: MA first, then by type and key. -/
def rank (digest : List Char → List Char) (request : Request F) : ℕ ×ₗ List Char ×ₗ List Char :=
  toLex (if request.indicatorType = "MA".toList then 0 else 1,
    toLex (request.indicatorType, requestKey digest request))

theorem rank_injective (hdigest : DigestInjective F digest) {request request' : Request F}
    (h : Merged tables request) (h' : Merged tables request')
    (hrank : rank digest request = rank digest request') : request = request' := by
  have hrest := toLex.injective (Prod.mk.inj (toLex.injective hrank)).2
  exact h.requestKey_injective hdigest h' (Prod.mk.inj hrest).2

omit [LawfulPyFloat F] in
theorem rank_le_of_ma {request request' : Request F} (h : request.indicatorType = "MA".toList)
    (h' : request'.indicatorType = "MA".toList)
    (hkey : requestKey digest request ≤ requestKey digest request') :
    rank digest request ≤ rank digest request' := by
  rw [rank, rank, if_pos h, if_pos h', h, h']
  exact Prod.Lex.toLex_le_toLex.mpr (.inr ⟨rfl, Prod.Lex.toLex_le_toLex.mpr (.inr ⟨rfl, hkey⟩)⟩)

omit [LawfulPyFloat F] in
theorem rank_le_of_other {request request' : Request F} (h : request.indicatorType ≠ "MA".toList)
    (h' : request'.indicatorType ≠ "MA".toList)
    (hkey : toLex (request.indicatorType, requestKey digest request) ≤
      toLex (request'.indicatorType, requestKey digest request')) :
    rank digest request ≤ rank digest request' := by
  rw [rank, rank, if_neg h, if_neg h']
  exact Prod.Lex.toLex_le_toLex.mpr (.inr ⟨rfl, hkey⟩)

omit [LawfulPyFloat F] in
theorem rank_le_of_ma_of_other {request request' : Request F}
    (h : request.indicatorType = "MA".toList) (h' : request'.indicatorType ≠ "MA".toList) :
    rank digest request ≤ rank digest request' := by
  rw [rank, rank, if_pos h, if_neg h']
  exact Prod.Lex.toLex_le_toLex.mpr (.inl Nat.zero_lt_one)

theorem collect_sorted (hdigest : DigestInjective F digest) {requests : List (Request F)}
    (hmerged : ∀ request ∈ requests, Merged tables request) :
    (collect (keyed digest requests)).Pairwise fun a b => rank digest a ≤ rank digest b := by
  have hma : Std.Total fun a b : Keyed F => a.key ≤ b.key := ⟨fun a b => le_total _ _⟩
  have hma' : IsTrans (Keyed F) fun a b => a.key ≤ b.key := ⟨fun a b c => le_trans⟩
  have hother : Std.Total fun a b : Keyed F => toLex (a.request.indicatorType, a.key) ≤
      toLex (b.request.indicatorType, b.key) := ⟨fun a b => le_total _ _⟩
  have hother' : IsTrans (Keyed F) fun a b => toLex (a.request.indicatorType, a.key) ≤
      toLex (b.request.indicatorType, b.key) := ⟨fun a b c => le_trans⟩
  rw [collect, List.pairwise_map, List.pairwise_append]
  refine ⟨?_, ?_, fun k hk k' hk' => ?_⟩
  · refine (List.pairwise_insertionSort _ _).imp_of_mem fun {k k'} hk hk' hle => ?_
    rw [List.mem_insertionSort, Table.mem_ofList_map (periods_injective hmerged),
      List.mem_filter] at hk hk'
    refine rank_le_of_ma (of_decide_eq_true hk.2) (of_decide_eq_true hk'.2) ?_
    rwa [← (mem_keyed.mp hk.1).2, ← (mem_keyed.mp hk'.1).2]
  · refine (List.pairwise_insertionSort _ _).imp_of_mem fun {k k'} hk hk' hle => ?_
    rw [List.mem_insertionSort, Table.mem_ofList_map (keys_injective hdigest hmerged),
      List.mem_filter] at hk hk'
    refine rank_le_of_other (of_decide_eq_true hk.2) (of_decide_eq_true hk'.2) ?_
    rwa [← (mem_keyed.mp hk.1).2, ← (mem_keyed.mp hk'.1).2]
  · rw [List.mem_insertionSort, Table.mem_ofList_map (periods_injective hmerged),
      List.mem_filter] at hk
    rw [List.mem_insertionSort, Table.mem_ofList_map (keys_injective hdigest hmerged),
      List.mem_filter] at hk'
    exact rank_le_of_ma_of_other (of_decide_eq_true hk.2) (of_decide_eq_true hk'.2)

variable [Arith F] [LinearOrder (IndicatorRequest F)]

/-- The order of the typed requests is that of their keys. -/
def OrderedByKey (F : Type) [PyFloat F] [LinearOrder (IndicatorRequest F)]
    (digest : List Char → List Char) : Prop :=
  ∀ a b : IndicatorRequest F, Accepted a → Accepted b →
    (a ≤ b ↔ requestKey digest (mapping a) ≤ requestKey digest (mapping b))

omit [LawfulPyFloat F] in
theorem mergeIndicatorRequests_sorted (horder : OrderedByKey F digest)
    {typed : List (IndicatorRequest F)} (haccepted : ∀ request ∈ defaultRequests ++ typed,
      Accepted request) :
    ((Apanel.mergeIndicatorRequests typed).map mapping).Pairwise fun a b =>
      rank digest a ≤ rank digest b := by
  have hma (request : IndicatorRequest F) :
      (mapping request).indicatorType = typeName .ma ↔ request.isMa := by
    rw [mapping_indicatorType, typeName_injective.eq_iff, IndicatorRequest.isMa, decide_eq_true_iff]
  have hother (request : IndicatorRequest F) (h : !request.isMa) :
      (mapping request).indicatorType ≠ typeName .ma := fun heq => by
    rw [(hma request).mp heq] at h
    cases h
  rw [Apanel.mergeIndicatorRequests, List.pairwise_map, List.pairwise_append]
  refine ⟨?_, ?_, fun a ha b hb => ?_⟩
  · have hid (a b : IndicatorRequest F) : id a = id b → a = b := id
    refine (Table.sorted_ofList_map fun a _ b _ => hid a b).imp_of_mem fun {a b} ha hb hlt => ?_
    obtain ⟨ha, hma_a⟩ := List.mem_filter.mp
      ((mem_requestTable_rows Function.injective_id _ _).mp ha)
    obtain ⟨hb, hma_b⟩ := List.mem_filter.mp
      ((mem_requestTable_rows Function.injective_id _ _).mp hb)
    exact rank_le_of_ma ((hma a).mpr hma_a) ((hma b).mpr hma_b)
      ((horder a b (haccepted a ha) (haccepted b hb)).mp hlt.le)
  · refine (Table.sorted_ofList_map fun a _ b _ h => rankedKey_injective h).imp_of_mem
      fun {a b} ha hb hlt => ?_
    obtain ⟨ha, hother_a⟩ := List.mem_filter.mp
      ((mem_requestTable_rows rankedKey_injective _ _).mp ha)
    obtain ⟨hb, hother_b⟩ := List.mem_filter.mp
      ((mem_requestTable_rows rankedKey_injective _ _).mp hb)
    refine rank_le_of_other (hother a hother_a) (hother b hother_b) ?_
    rw [mapping_indicatorType, mapping_indicatorType, Prod.Lex.toLex_le_toLex']
    rcases Prod.Lex.toLex_lt_toLex.mp hlt with hlt | ⟨heq, hlt⟩
    · exact ⟨(typeName_le_iff _ _).mpr hlt.le, fun heq =>
        absurd (congrArg IndicatorType.nameRank (typeName_injective heq)) hlt.ne⟩
    · exact ⟨(typeName_le_iff _ _).mpr heq.le, fun _ =>
        (horder a b (haccepted a ha) (haccepted b hb)).mp hlt.le⟩
  · obtain ⟨ha, hma_a⟩ := List.mem_filter.mp
      ((mem_requestTable_rows Function.injective_id _ _).mp ha)
    obtain ⟨hb, hother_b⟩ := List.mem_filter.mp
      ((mem_requestTable_rows rankedKey_injective _ _).mp hb)
    exact rank_le_of_ma_of_other ((hma a).mpr hma_a) (hother b hother_b)

omit [PyFloat F] [LawfulPyFloat F] in
theorem nodup_mergeIndicatorRequests (typed : List (IndicatorRequest F)) :
    (Apanel.mergeIndicatorRequests typed).Nodup := by
  have hid (a b : IndicatorRequest F) : id a = id b → a = b := id
  refine List.nodup_append'.mpr ⟨Table.nodup_ofList_map fun a _ b _ => hid a b,
    Table.nodup_ofList_map fun a _ b _ h => rankedKey_injective h, fun request hma hother => ?_⟩
  have hma' := (List.mem_filter.mp ((mem_requestTable_rows Function.injective_id _ _).mp hma)).2
  have hother' := (List.mem_filter.mp ((mem_requestTable_rows rankedKey_injective _ _).mp hother)).2
  rw [hma'] at hother'
  cases hother'

omit [LawfulPyFloat F] [LinearOrder (IndicatorRequest F)] in
theorem defaultRequests_eq (htwo : (Arith.ofNat 2 : F) = PyFloat.two) :
    (defaultRequests : List (IndicatorRequest F)) = typedDefaults := by
  refine List.map_congr_left fun type _ => ?_
  cases type with
  | boll => exact congrArg (IndicatorRequest.boll _) htwo
  | ma | projectedMa | rsi | kdj | macd => rfl

/-- The merge of accepted requests for indicators with a known formula is the typed merge. -/
theorem mergeIndicatorRequests_mapping (hdigest : DigestInjective F digest)
    (htwo : (Arith.ofNat 2 : F) = PyFloat.two) (horder : OrderedByKey F digest)
    {requests : List (Request F)} {typed : List (IndicatorRequest F)}
    (haccepted : ∀ request ∈ typed, Accepted request)
    (hrequests : requests.mapM (normalizeRequest tables) = .ok (typed.map mapping)) :
    mergeIndicatorRequests tables digest requests =
      .ok ((Apanel.mergeIndicatorRequests typed).map mapping) := by
  have hall : ∀ request ∈ typedDefaults ++ typed, Accepted request := fun request hrequest =>
    (List.mem_append.mp hrequest).elim (accepted_typedDefaults request) (haccepted request)
  have hnormalized : (typedDefaults.map mapping ++ requests).mapM (normalizeRequest tables) =
      .ok ((typedDefaults ++ typed).map mapping) := by
    rw [List.mapM_append, mapM_normalizeRequest_mapping accepted_typedDefaults, hrequests,
      List.map_append]
    rfl
  have hmerged : ∀ request ∈ (typedDefaults ++ typed).map mapping, Merged tables request := by
    intro request hrequest
    obtain ⟨typed, htyped, rfl⟩ := List.mem_map.mp hrequest
    exact merged_mapping (hall typed htyped)
  have hmem (request : Request F) :
      request ∈ collect (keyed digest ((typedDefaults ++ typed).map mapping)) ↔
        request ∈ (Apanel.mergeIndicatorRequests typed).map mapping := by
    rw [mem_collect hdigest hmerged]
    simp only [List.mem_map, Apanel.mem_mergeIndicatorRequests, defaultRequests_eq htwo,
      List.mem_append]
  have hperm := (List.perm_ext_iff_of_nodup (nodup_collect hdigest hmerged)
    ((nodup_mergeIndicatorRequests typed).map mapping_injective)).mpr hmem
  have hdefaults : ∀ request ∈ defaultRequests ++ typed, Accepted request := by
    rwa [defaultRequests_eq htwo]
  have hsorted := mergeIndicatorRequests_sorted horder hdefaults
  refine mergeIndicatorRequests_eq_ok.mpr ⟨_, _, defaultRequestPairs_eq, hnormalized, ?_⟩
  refine (hperm.eq_of_pairwise (fun a b ha hb hle hge => ?_) (collect_sorted hdigest hmerged)
    hsorted).symm
  exact rank_injective hdigest (hmerged a ((mem_collect hdigest hmerged).mp ha))
    (hmerged b ((mem_collect hdigest hmerged).mp ((hmem b).mpr hb))) (le_antisymm hle hge)

/-- Accepted requests for indicators with a known formula are typed requests, and the merge of the
code is the merge of these. -/
theorem exists_typedRequests (hdigest : DigestInjective F digest)
    (htwo : (Arith.ofNat 2 : F) = PyFloat.two) (horder : OrderedByKey F digest)
    {requests : List (Request F)} (hrequests : ∀ request ∈ requests, ∃ known c,
      normalizeIndicatorType tables request.indicatorType = .ok (typeName known) ∧
        canonicalizeParameters tables true request.indicatorType (.object request.parameters) =
          .ok c) :
    ∃ typed : List (IndicatorRequest F), (∀ request ∈ typed, Accepted request) ∧
      requests.mapM (normalizeRequest tables) = .ok (typed.map mapping) ∧
        mergeIndicatorRequests tables digest requests =
          .ok ((Apanel.mergeIndicatorRequests typed).map mapping) := by
  have hlookup (known : IndicatorType) : typeNames.lookup (typeName known) = some known := by
    cases known <;> rfl
  obtain ⟨normalized, hnormalized⟩ := exists_mapM_eq_ok.mpr fun request hrequest => by
    obtain ⟨known, c, hname, hc⟩ := hrequests request hrequest
    exact ⟨_, normalizeRequest_eq_ok.mpr ⟨_, c, hname, hc, rfl⟩⟩
  have hrange : normalized ∈ Set.range
      (List.map fun typed : {r : IndicatorRequest F // Accepted r} => mapping typed.1) := by
    rw [Set.range_list_map]
    intro kept hkept
    obtain ⟨request, hrequest, hkept⟩ := (mem_of_mapM hnormalized).mp hkept
    obtain ⟨known, -, hname, -⟩ := hrequests request hrequest
    have hmerged := normalizeRequest_merged hkept
    obtain ⟨name, c, hname', -, rfl⟩ := normalizeRequest_eq_ok.mp hkept
    cases hname.symm.trans hname'
    obtain ⟨typed, haccepted, htyped⟩ := exists_mapping hmerged (hlookup known)
    exact ⟨⟨typed, haccepted⟩, htyped⟩
  obtain ⟨typed, rfl⟩ := hrange
  have haccepted : ∀ request ∈ typed.map (·.1), Accepted request := by
    intro request hrequest
    obtain ⟨typed, -, rfl⟩ := List.mem_map.mp hrequest
    exact typed.2
  have hmap : typed.map (fun typed => mapping typed.1) = (typed.map (·.1)).map mapping := by
    rw [List.map_map]
    rfl
  rw [hmap] at hnormalized
  exact ⟨_, haccepted, hnormalized,
    mergeIndicatorRequests_mapping hdigest htwo horder haccepted hnormalized⟩

end Refinement

/-! ## Whole floats -/

section Concrete

/-- Zero stands for what is no whole float. -/
def clamp (n : ℤ) : WholeFloat := if h : n.natAbs < 10 ^ 16 then ⟨n, h⟩ else ⟨0, by decide⟩

instance : Arith WholeFloat where
  add x y := clamp (x.1 + y.1)
  sub x y := clamp (x.1 - y.1)
  mul x y := clamp (x.1 * y.1)
  div x y := clamp (x.1 / y.1)
  neg x := clamp (-x.1)
  ofRat q := clamp q.floor
  lt x y := x.1 < y.1
  le x y := x.1 ≤ y.1
  eq x y := x.1 = y.1
  isFinite _ := true
  sqrt x := clamp x.1.toNat.sqrt
  abs x := clamp |x.1|
  fsum xs := .ok (clamp (xs.map (·.1)).sum)

theorem hashable_mapping (request : IndicatorRequest WholeFloat) :
    Hashable (mapping request).parameters := by
  have hsorted (names : List (List Char)) {c : Parameters WholeFloat} (h : names.Pairwise (· < ·))
      (hnames : c.map (·.1) = names) : c.Pairwise (·.1 < ·.1) := by
    rw [← hnames] at h
    exact List.pairwise_map.mp h
  have hnumber {n : Number WholeFloat} (h : ValidNumber n) : Json.Canonical ValidNumber (.number n) :=
    .number h
  cases request with
  | ma periods =>
    refine ⟨List.pairwise_singleton _ _, ?_⟩
    simpa only [mapping, List.forall_mem_singleton] using canonical_periodsValue _
  | projectedMa | rsi =>
    refine ⟨List.pairwise_singleton _ _, ?_⟩
    simp only [mapping, List.forall_mem_singleton]
    exact hnumber trivial
  | kdj =>
    refine ⟨hsorted ["d_period".toList, "k_period".toList, "period".toList] (by decide)
      rfl, ?_⟩
    simp only [mapping, List.forall_mem_cons]
    exact ⟨hnumber trivial, hnumber trivial, hnumber trivial, nofun⟩
  | boll =>
    refine ⟨hsorted ["multiplier".toList, "period".toList] (by decide) rfl, ?_⟩
    simp only [mapping, List.forall_mem_cons]
    exact ⟨hnumber rfl, hnumber trivial, nofun⟩
  | macd =>
    refine ⟨hsorted ["fast_period".toList, "signal_period".toList,
      "slow_period".toList] (by decide) rfl, ?_⟩
    simp only [mapping, List.forall_mem_cons]
    exact ⟨hnumber trivial, hnumber trivial, hnumber trivial, nofun⟩

theorem requestKey_mapping_injective :
    Function.Injective fun request : IndicatorRequest WholeFloat =>
      requestKey sha256 (mapping request) := by
  intro request request' h
  obtain ⟨htype, hparameters⟩ := (keyText_injective digestInjective_sha256
    (hashable_mapping request) (hashable_mapping request')).mp h
  refine mapping_injective ?_
  generalize mapping request = kept at htype hparameters ⊢
  generalize mapping request' = kept' at htype hparameters ⊢
  cases kept
  cases kept'
  cases htype
  cases hparameters
  rfl

instance : LinearOrder (IndicatorRequest WholeFloat) :=
  LinearOrder.lift' (fun request => requestKey sha256 (mapping request))
    requestKey_mapping_injective

theorem wholeFloat_exists_typedRequests : ∃ typed : List (IndicatorRequest WholeFloat),
    (∀ request ∈ typed, Accepted request) ∧
      [spelledRequest].mapM (normalizeRequest latinTables) = .ok (typed.map mapping) ∧
        mergeIndicatorRequests latinTables sha256 [spelledRequest] =
          .ok ((Apanel.mergeIndicatorRequests typed).map mapping) := by
  refine exists_typedRequests digestInjective_sha256 (by decide) (fun a b _ _ => Iff.rfl) ?_
  intro request hrequest
  rw [List.mem_singleton.mp hrequest]
  exact ⟨.rsi, wholePeriod 14, rfl, rfl⟩

end Concrete

end Canonical

end Apanel
