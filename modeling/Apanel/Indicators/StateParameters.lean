import Apanel.Indicators.TypedRequests
import Apanel.Backend.StateService

/-!
# State parameters

The parameters of states: those of an indicator, except for MA, where a state compares two of the
periods of a variant. A canonical target is recovered from the indicator request that computes it
(`stateVariantParameters_request`), and its key determines it (`stateParameterKey_eq_iff`).
-/

namespace Apanel

namespace Canonical

/-- The codes of `create_default_definitions`. -/
def stateCodes : List (List Char × StateCode) :=
  [("MA_CROSS_UP".toList, .maCrossUp), ("MA_CROSS_DOWN".toList, .maCrossDown),
    ("MA_GAP_NARROWING".toList, .maGapNarrowing), ("MA_GAP_EXPANDING".toList, .maGapExpanding),
    ("KDJ_K_CROSS_D_UP".toList, .kdjKCrossDUp), ("KDJ_K_CROSS_D_DOWN".toList, .kdjKCrossDDown),
    ("KDJ_ALL_RISING".toList, .kdjAllRising), ("KDJ_ALL_FALLING".toList, .kdjAllFalling),
    ("BOLL_WIDTH_NARROWING".toList, .bollWidthNarrowing),
    ("BOLL_WIDTH_EXPANDING".toList, .bollWidthExpanding),
    ("BOLL_ALL_RISING".toList, .bollAllRising), ("BOLL_ALL_FALLING".toList, .bollAllFalling),
    ("BOLL_BREAK_UPPER".toList, .bollBreakUpper), ("BOLL_BREAK_LOWER".toList, .bollBreakLower),
    ("MACD_DIFF_CROSS_DEA_UP".toList, .macdDiffCrossDeaUp),
    ("MACD_DIFF_CROSS_DEA_DOWN".toList, .macdDiffCrossDeaDown),
    ("MACD_RED_BAR_GROWING".toList, .macdRedBarGrowing),
    ("MACD_RED_BAR_SHRINKING".toList, .macdRedBarShrinking)]

section States

variable {F : Type} [PyFloat F] (tables : CaseTables)

def invalidState (message : String) : ParameterFailure :=
  .api "INVALID_STATE_PARAMETERS" message 400

/-- One iteration of the loop of `canonicalize_state_parameters`. -/
def statePeriod (raw : Parameters F) (name : List Char) (default : ℤ) :
    Except ParameterFailure ℤ :=
  let value := (raw.lookup (name ++ "_period".toList)).getD
    ((raw.lookup name).getD (integerValue default))
  if (raw.lookup (name ++ "_period".toList)).isSome ∧
      (raw.lookup name).any fun earlier => !pyEq earlier value then
    .error (invalidState "MA state aliases conflict.")
  else normalizeInteger "period".toList value

def pairParameters (short long : ℤ) : Parameters F :=
  [("short_period".toList, integerValue short), ("long_period".toList, integerValue long)]

/-- The part of `canonicalize_state_parameters` for MA. -/
def canonicalizeMaState (raw : Parameters F) : Except ParameterFailure (Parameters F) :=
  if ∃ m ∈ raw, m.1 ∉ ["short".toList, "long".toList, "short_period".toList, "long_period".toList] then
    .error (invalidState "Unsupported MA state parameters.")
  else
    statePeriod raw "short".toList 5 >>= fun short =>
      statePeriod raw "long".toList 10 >>= fun long =>
        if long ≤ short then .error (invalidState "MA short period must precede long period.")
        else .ok (pairParameters short long)

def canonicalizeStateParameters (indicatorType : List Char) (parameters : Parameters F) :
    Except ParameterFailure (Parameters F) :=
  normalizeIndicatorType tables indicatorType >>= fun indicator =>
    if indicator ≠ "MA".toList then canonicalizeParameters tables true indicator (.object parameters)
    else canonicalizeMaState parameters

/-- The periods that an MA state compares. -/
def pairPeriods (parameters : Parameters F) : List ℤ :=
  [parameters.lookup "short_period".toList, parameters.lookup "long_period".toList].filterMap
    fun value => value.bind integerOf

def stateIndicatorRequest (indicatorType : List Char) (parameters : Parameters F) :
    Except ParameterFailure (Request F) :=
  canonicalizeStateParameters tables indicatorType parameters >>= fun normalized =>
    normalizeIndicatorType tables indicatorType >>= fun indicator =>
      if indicator = "MA".toList then
        .ok ⟨indicator, [("periods".toList, periodsValue (pairPeriods normalized))]⟩
      else .ok ⟨indicator, normalized⟩

/-- The text that `state_parameter_key` hashes. -/
def stateSerialized (stateCode : List Char) (parameters : Parameters F) : List Char :=
  Json.dumps numberText (.object
    [("state_code".toList, .string stateCode), ("parameters".toList, .object parameters)])

def stateParameterKey (digest : List Char → List Char) (stateCode : List Char)
    (parameters : Parameters F) : List Char :=
  "v1_".toList ++ digest (stateSerialized stateCode parameters)

/-- The periods of an MA variant. -/
def variantPeriods (parameters : Parameters F) : List ℤ :=
  match parameters.lookup "periods".toList with
  | some (.array periods) => periods.filterMap integerOf
  | _ => ((parameters.lookup "period".toList).bind integerOf).toList

/-- The pair of periods for which there are MA states: two periods, or the default ones. -/
def statePair : List ℤ → Option (ℤ × ℤ)
  | [short, long] => some (short, long)
  | periods => if 5 ∈ periods ∧ 10 ∈ periods then some (5, 10) else none

def variantPair (parameters : Parameters F) : Option (ℤ × ℤ) :=
  statePair (sortedSet (variantPeriods parameters))

/-- The part of `_state_variant_pairs` for MA, with the pairs that are already emitted. -/
def maStateParameters (emitted : List (ℤ × ℤ)) : List (Parameters F) → List (Parameters F)
  | [] => []
  | variant :: variants =>
    match variantPair variant with
    | none => maStateParameters emitted variants
    | some (short, long) =>
      if (short, long) ∈ emitted then maStateParameters emitted variants
      else pairParameters short long :: maStateParameters ((short, long) :: emitted) variants

/-- The parameters that `_state_variant_pairs` yields for the variants of a snapshot. -/
def stateVariantParameters (indicatorType : List Char) (variants : List (Parameters F)) :
    List (Parameters F) :=
  if indicatorType = "MA".toList then maStateParameters [] variants else variants

end States

/-! ## Equality of parameters -/

section Equality

variable {F : Type} [PyFloat F] {tables : CaseTables}

theorem pyEqMembers_iff {c c' : Parameters F} :
    pyEqMembers c c' ↔ ∀ m ∈ c, ∃ value', c'.lookup m.1 = some value' ∧ pyEq m.2 value' := by
  induction c with
  | nil => simp [pyEqMembers]
  | cons m c ih =>
    obtain ⟨name, value⟩ := m
    rw [pyEqMembers, Bool.and_eq_true, ih, List.forall_mem_cons]
    cases c'.lookup name with
    | none => simp
    | some value' => simp

theorem pyEq_object {c c' : Parameters F} :
    pyEq (.object c) (.object c') ↔ c.length = c'.length ∧
      ∀ m ∈ c, ∃ value', c'.lookup m.1 = some value' ∧ pyEq m.2 value' := by
  rw [pyEq, Bool.and_eq_true, decide_eq_true_iff, pyEqMembers_iff]

theorem pyEq_integerValue (m n : ℤ) :
    pyEq (integerValue m : Json (Number F)) (integerValue n) ↔ m = n := by
  simp [integerValue, pyEq, asNumber, numberEq]

variable [LawfulPyFloat F]

/-- Normalized values of one name are equal when Python says so. -/
theorem pyEq_normalizeValue {known : IndicatorType} {name : List Char} {value value' : Json (Number F)}
    (h : normalizeValue (some known) (name, value) = .ok (name, value))
    (h' : normalizeValue (some known) (name, value') = .ok (name, value')) :
    pyEq value value' ↔ value = value' := by
  by_cases hkey : name ∈ integerParameterKeys
  · obtain ⟨period, rfl⟩ := exists_periodValue hkey h
    obtain ⟨period', rfl⟩ := exists_periodValue hkey h'
    exact (pyEq_integerValue _ _).trans ⟨congrArg _, integerValue_injective⟩
  · obtain ⟨x, rfl, -, hx⟩ := exists_float hkey h
    obtain ⟨y, rfl, -, -⟩ := exists_float hkey h'
    have heq : pyEq (.number (.float x) : Json (Number F)) (.number (.float y)) ↔
        PyFloat.eq x y := by
      simp [pyEq, asNumber, numberEq]
    rw [heq, Json.number.injEq, Number.float.injEq]
    exact ⟨LawfulPyFloat.eq_of_eq hx, fun hxy => hxy ▸ LawfulPyFloat.eq_self hx⟩

theorem CompleteRows.pyEq_iff {known : IndicatorType} {c c' : Parameters F} (h : CompleteRows known c)
    (hsorted : c.Pairwise (·.1 < ·.1)) (h' : CompleteRows known c')
    (hsorted' : c'.Pairwise (·.1 < ·.1)) : pyEq (.object c) (.object c') ↔ c = c' := by
  have hnodup : (c.map (·.1)).Nodup := List.pairwise_map.mpr (hsorted.imp fun hlt => hlt.ne)
  rw [pyEq_object]
  constructor
  · rintro ⟨hlength, hvalues⟩
    have hsubset : c ⊆ c' := by
      intro m hm
      obtain ⟨value', hlookup, heq⟩ := hvalues m hm
      have hmem : (m.1, value') ∈ c' := mem_of_lookup hlookup
      rwa [← (pyEq_normalizeValue (h.fixed m hm) (h'.fixed _ hmem)).mp heq] at hmem
    have hperm : c.Perm c' :=
      (List.subperm_of_subset hnodup.of_map hsubset).perm_of_length_le hlength.ge
    exact hperm.eq_of_pairwise (fun _ _ _ _ hlt hgt => absurd hgt hlt.asymm) hsorted hsorted'
  · rintro rfl
    refine ⟨rfl, fun m hm => ⟨m.2, (lookup_eq_some_iff_mem hnodup).mpr hm, ?_⟩⟩
    exact (pyEq_normalizeValue (h.fixed m hm) (h.fixed m hm)).mpr rfl

end Equality

/-! ## Canonical state parameters -/

section Form

variable {F : Type} [PyFloat F] [LawfulPyFloat F] {tables : CaseTables}

/-- The parameters of the targets of an indicator. -/
inductive StateForm (tables : CaseTables) (indicator : List Char) : Parameters F → Prop
  | pair {short long : ℤ} (ma : indicator = "MA".toList) (pos : 0 < short) (lt : short < long)
    (le : long ≤ 10000) : StateForm tables indicator (pairParameters short long)
  | request {c : Parameters F} (other : indicator ≠ "MA".toList)
    (merged : Merged tables ⟨indicator, c⟩) : StateForm tables indicator c

omit [LawfulPyFloat F] in
theorem statePeriod_eq_ok {raw : Parameters F} {name : List Char} {default n : ℤ}
    (h : statePeriod raw name default = .ok n) : 0 < n ∧ n ≤ 10000 := by
  rw [statePeriod] at h
  split at h
  · cases h
  · exact (normalizeInteger_eq_ok.mp h).2

theorem stateForm_canonicalizeStateParameters {indicatorType name : List Char}
    {parameters c : Parameters F} (hname : normalizeIndicatorType tables indicatorType = .ok name)
    (h : canonicalizeStateParameters tables indicatorType parameters = .ok c) :
    StateForm tables name c := by
  rw [canonicalizeStateParameters, hname, Except.ok_bind] at h
  split at h
  · next hother =>
    have hself := normalizeIndicatorType_idem hname
    exact .request hother ⟨normalize_isTypeName hname, isCanonical_canonicalizeParameters hself h,
      fun hma => absurd hma hother⟩
  · next hma =>
    rw [canonicalizeMaState] at h
    split at h
    · cases h
    · obtain ⟨short, hshort, h⟩ := Except.bind_eq_ok.mp h
      obtain ⟨long, hlong, h⟩ := Except.bind_eq_ok.mp h
      split at h
      · cases h
      · next hlt =>
        cases h
        exact .pair (not_not.mp hma) (statePeriod_eq_ok hshort).1 (not_le.mp hlt)
          (statePeriod_eq_ok hlong).2

omit [LawfulPyFloat F] in
theorem canonicalizeMaState_pairParameters {short long : ℤ} (hpos : 0 < short) (hlt : short < long)
    (hle : long ≤ 10000) :
    canonicalizeMaState (pairParameters short long : Parameters F) =
      .ok (pairParameters short long) := by
  have hshort : statePeriod (pairParameters short long : Parameters F) "short".toList 5 =
      normalizeInteger "period".toList (integerValue short : Json (Number F)) := rfl
  have hlong : statePeriod (pairParameters short long : Parameters F) "long".toList 10 =
      normalizeInteger "period".toList (integerValue long : Json (Number F)) := rfl
  have hnames : ¬ ∃ m ∈ (pairParameters short long : Parameters F),
      m.1 ∉ ["short".toList, "long".toList, "short_period".toList, "long_period".toList] := by
    simp [pairParameters]
  rw [canonicalizeMaState, if_neg hnames, hshort, hlong,
    normalizeInteger_eq_ok.mpr ⟨rfl, hpos, hlt.le.trans hle⟩,
    normalizeInteger_eq_ok.mpr ⟨rfl, hpos.trans hlt, hle⟩, Except.ok_bind, Except.ok_bind,
    if_neg (not_le.mpr hlt)]

omit [LawfulPyFloat F] in
/-- Canonical state parameters stay as they are. -/
theorem StateForm.canonicalizeStateParameters_eq {indicatorType name : List Char}
    (hname : normalizeIndicatorType tables indicatorType = .ok name) {c : Parameters F}
    (h : StateForm tables name c) :
    canonicalizeStateParameters tables indicatorType c = .ok c := by
  rw [canonicalizeStateParameters, hname, Except.ok_bind]
  cases h with
  | pair hma hpos hlt hle =>
    rw [if_neg (not_not.mpr hma)]
    exact canonicalizeMaState_pairParameters hpos hlt hle
  | request hother hmerged =>
    rw [if_pos hother]
    exact hmerged.canonical.canonicalizeParameters_eq (normalizeIndicatorType_idem hname) id

end Form

/-! ## Keys -/

section Keys

variable {F : Type} [PyFloat F]

/-- The digest is injective on the texts that are hashed for states. -/
def StateDigestInjective (F : Type) [PyFloat F] (digest : List Char → List Char) : Prop :=
  Set.InjOn digest (Set.range fun p : List Char × Parameters F => stateSerialized p.1 p.2)

omit [PyFloat F] in
theorem sortKeys_state (stateCode : List Char) (parameters : Parameters F) :
    Json.sortKeys (.object
      [("state_code".toList, .string stateCode), ("parameters".toList, .object parameters)]) =
      .object [("parameters".toList, Json.sortKeys (.object parameters)),
        ("state_code".toList, .string stateCode)] := by
  have hlt : "parameters".toList < "state_code".toList := by decide
  rw [Json.sortKeys_swap hlt, Json.sortKeys]

omit [PyFloat F] in
theorem sortKeys_pairParameters (short long : ℤ) :
    Json.sortKeys (.object (pairParameters short long : Parameters F)) =
      .object [("long_period".toList, integerValue long), ("short_period".toList, integerValue short)] := by
  have hlt : "long_period".toList < "short_period".toList := by decide
  rw [pairParameters, Json.sortKeys_swap hlt, integerValue, integerValue, Json.sortKeys,
    Json.sortKeys]

variable {tables : CaseTables}

theorem StateForm.canonical {indicator : List Char} {c : Parameters F}
    (h : StateForm tables indicator c) :
    Json.Canonical ValidNumber (Json.sortKeys (.object c)) := by
  cases h with
  | pair =>
    have hlt : ["long_period".toList, "short_period".toList].Pairwise (· < ·) := by decide
    have hnumber (n : ℤ) : Json.Canonical ValidNumber (integerValue n : Json (Number F)) :=
      .number trivial
    rw [sortKeys_pairParameters]
    refine .object (List.pairwise_map.mp hlt) ?_
    simp only [List.forall_mem_cons]
    exact ⟨hnumber _, hnumber _, nofun⟩
  | request _ hmerged =>
    have hcanonical : Json.Canonical ValidNumber (.object c) :=
      .object hmerged.canonical.sorted hmerged.canonical.values
    rwa [hcanonical.sortKeys_eq]

theorem StateForm.eq_of_sortKeys_eq {indicator : List Char} {c c' : Parameters F}
    (h : StateForm tables indicator c) (h' : StateForm tables indicator c')
    (heq : Json.sortKeys (.object c) = Json.sortKeys (.object c')) : c = c' := by
  have hsorted {c : Parameters F} (hmerged : Merged tables ⟨indicator, c⟩) :
      Json.sortKeys (.object c) = .object c :=
    (Json.Canonical.object hmerged.canonical.sorted hmerged.canonical.values).sortKeys_eq
  cases h with
  | pair hma =>
    cases h' with
    | pair =>
      rw [sortKeys_pairParameters, sortKeys_pairParameters] at heq
      cases heq
      rfl
    | request hother => exact absurd hma hother
  | request hother hmerged =>
    cases h' with
    | pair hma => exact absurd hma hother
    | request _ hmerged' =>
      rw [hsorted hmerged, hsorted hmerged'] at heq
      exact Json.object.inj heq

/-- A key determines the code and the parameters of its target, also across indicators. -/
theorem stateParameterKey_eq_iff [LawfulPyFloat F] {digest : List Char → List Char}
    (hdigest : StateDigestInjective F digest) {indicator indicator' stateCode stateCode' : List Char}
    {c c' : Parameters F} (h : StateForm tables indicator c) (h' : StateForm tables indicator' c') :
    stateParameterKey digest stateCode c = stateParameterKey digest stateCode' c' ↔
      stateCode = stateCode' ∧ Json.sortKeys (.object c) = Json.sortKeys (.object c') := by
  have hstate {indicator stateCode : List Char} {c : Parameters F}
      (h : StateForm tables indicator c) : Json.Canonical ValidNumber (Json.sortKeys (.object
        [("state_code".toList, .string stateCode), ("parameters".toList, .object c)])) := by
    have horder : ["parameters".toList, "state_code".toList].Pairwise (· < ·) := by decide
    rw [sortKeys_state]
    refine .object (List.pairwise_map.mp horder) ?_
    simp only [List.forall_mem_cons]
    exact ⟨h.canonical, .string stateCode, nofun⟩
  have hserialized : stateSerialized stateCode c = stateSerialized stateCode' c' ↔
      stateCode = stateCode' ∧ Json.sortKeys (.object c) = Json.sortKeys (.object c') := by
    rw [stateSerialized, stateSerialized, Json.dumps_eq_iff numberTexts (hstate h) (hstate h'),
      sortKeys_state, sortKeys_state]
    simp only [Json.object.injEq, List.cons.injEq, Prod.mk.injEq, true_and, and_true,
      Json.string.injEq]
    exact and_comm
  rw [← hserialized]
  exact ⟨fun hkey => hdigest ⟨(stateCode, c), rfl⟩ ⟨(stateCode', c'), rfl⟩
    (List.append_cancel_left hkey), fun hkey => by rw [stateParameterKey, stateParameterKey, hkey]⟩

end Keys

/-! ## Targets of variants -/

section Targets

variable {F : Type} [PyFloat F] {tables : CaseTables}

omit [PyFloat F] in
/-- The pairs of the variants, each once. -/
theorem mem_maStateParameters {emitted : List (ℤ × ℤ)} {variants : List (Parameters F)}
    {parameters : Parameters F} : parameters ∈ maStateParameters emitted variants ↔
      ∃ short long, parameters = pairParameters short long ∧ (short, long) ∉ emitted ∧
        ∃ variant ∈ variants, variantPair variant = some (short, long) := by
  induction variants generalizing emitted with
  | nil => simp [maStateParameters]
  | cons variant variants ih =>
    have hcons (pair : ℤ × ℤ) : (∃ v ∈ variant :: variants, variantPair v = some pair) ↔
        variantPair variant = some pair ∨ ∃ v ∈ variants, variantPair v = some pair := by
      simp only [List.mem_cons, exists_eq_or_imp]
    rw [maStateParameters]
    cases hpair : variantPair variant with
    | none =>
      simp only [ih, hcons, hpair, reduceCtorEq, false_or]
    | some pair =>
      obtain ⟨short, long⟩ := pair
      dsimp only
      split
      · next hmem =>
        rw [ih]
        refine exists₂_congr fun short' long' => and_congr_right fun _ => and_congr_right fun hnot => ?_
        rw [hcons, hpair]
        refine (or_iff_right fun heq => ?_).symm
        cases heq
        exact hnot hmem
      · next hmem =>
        rw [List.mem_cons, ih]
        constructor
        · rintro (rfl | ⟨short', long', rfl, hnot, variant', hvariant', hpair'⟩)
          · exact ⟨short, long, rfl, hmem, variant, List.mem_cons_self, hpair⟩
          · exact ⟨short', long', rfl, fun h => hnot (List.mem_cons_of_mem _ h), variant',
              List.mem_cons_of_mem _ hvariant', hpair'⟩
        · rintro ⟨short', long', rfl, hnot, hvariant⟩
          rw [hcons, hpair] at hvariant
          by_cases heq : (short, long) = (short', long')
          · cases heq
            exact .inl rfl
          · refine .inr ⟨short', long', rfl, fun h => ?_, hvariant.resolve_left fun h => ?_⟩
            · exact (List.mem_cons.mp h).elim (fun h => heq h.symm) hnot
            · exact heq (Option.some.inj h)

/-- The periods of a merged MA request. -/
theorem Merged.exists_maPeriods {c : Parameters F} (h : Merged tables ⟨"MA".toList, c⟩) :
    ∃ typed : MaPeriods,
      c = [("periods".toList, periodsValue (typed.periods.map fun p => (p.1 : ℤ)))] := by
  obtain ⟨periods, -, hparameters⟩ := h.periods rfl
  obtain ⟨typed, rfl⟩ := Canonical.exists_maPeriods h.canonical.maForm hparameters
  exact ⟨typed, hparameters⟩

theorem sorted_periods (typed : MaPeriods) :
    (typed.periods.map fun p => (p.1 : ℤ)).Pairwise (· < ·) :=
  List.pairwise_map.mpr (typed.sorted.imp fun h => Int.ofNat_lt.mpr h)

omit [PyFloat F] in
theorem variantPair_periodsValue {periods : List ℤ} (hsorted : periods.Pairwise (· < ·)) :
    variantPair ([("periods".toList, periodsValue periods)] : Parameters F) = statePair periods := by
  have hperiods : variantPeriods ([("periods".toList, periodsValue periods)] : Parameters F) =
      periods := by
    change (periods.map fun n => (integerValue n : Json (Number F))).filterMap integerOf = periods
    rw [List.filterMap_map]
    exact List.filterMap_some
  rw [variantPair, hperiods, sortedSet_eq_self hsorted]

theorem statePair_valid {periods : List ℤ} (hsorted : periods.Pairwise (· < ·))
    (hvalid : ∀ n ∈ periods, 0 < n ∧ n ≤ 10000) {short long : ℤ}
    (h : statePair periods = some (short, long)) : 0 < short ∧ short < long ∧ long ≤ 10000 := by
  unfold statePair at h
  split at h
  · cases h
    simp only [List.forall_mem_cons, List.pairwise_cons] at hvalid hsorted
    exact ⟨hvalid.1.1, hsorted.1.1, hvalid.2.1.2⟩
  · split at h
    · cases h
      decide
    · cases h

/-- The targets of the variants of a snapshot are canonical. -/
theorem stateForm_stateVariantParameters {indicator : List Char} {variants : List (Parameters F)}
    (hmerged : ∀ variant ∈ variants, Merged tables ⟨indicator, variant⟩) {parameters : Parameters F}
    (h : parameters ∈ stateVariantParameters indicator variants) :
    StateForm tables indicator parameters := by
  rw [stateVariantParameters] at h
  split at h
  · next hma =>
    obtain ⟨short, long, rfl, -, variant, hvariant, hpair⟩ := mem_maStateParameters.mp h
    obtain ⟨typed, rfl⟩ := Merged.exists_maPeriods (hma ▸ hmerged variant hvariant)
    rw [variantPair_periodsValue (sorted_periods typed)] at hpair
    have hvalid : ∀ n ∈ typed.periods.map fun p => (p.1 : ℤ), 0 < n ∧ n ≤ 10000 := by
      intro n hn
      obtain ⟨p, -, rfl⟩ := List.mem_map.mp hn
      have := p.2
      omega
    obtain ⟨hpos, hlt, hle⟩ := statePair_valid (sorted_periods typed) hvalid hpair
    exact .pair hma hpos hlt hle
  · next hother => exact .request hother (hmerged parameters h)

/-- The request for a target is computed as a variant whose only target is this one. -/
theorem stateVariantParameters_request [LawfulPyFloat F] {indicatorType : List Char}
    {parameters : Parameters F} {request : Request F}
    (h : stateIndicatorRequest tables indicatorType parameters = .ok request) :
    ∃ c, canonicalizeStateParameters tables indicatorType parameters = .ok c ∧
      normalizeRequest tables request = .ok request ∧
        stateVariantParameters request.indicatorType [request.parameters] = [c] := by
  obtain ⟨c, hc, h⟩ := Except.bind_eq_ok.mp h
  obtain ⟨name, hname, h⟩ := Except.bind_eq_ok.mp h
  refine ⟨c, hc, ?_⟩
  cases stateForm_canonicalizeStateParameters hname hc with
  | @pair short long hma hpos hlt hle =>
    rw [if_pos hma] at h
    cases h
    have hsorted : [short, long].Pairwise (· < ·) := by simp [hlt]
    have hvalid : ∀ n ∈ [short, long], 0 < n ∧ n ≤ 10000 := by
      simp only [List.forall_mem_cons]
      exact ⟨⟨hpos, by omega⟩, ⟨by omega, hle⟩, nofun⟩
    have hperiods : pairPeriods (pairParameters short long : Parameters F) = [short, long] := rfl
    have hmerged : Merged tables
        (⟨name, [("periods".toList, periodsValue [short, long])]⟩ : Request F) := by
      rw [hma] at hname ⊢
      exact ⟨normalize_isTypeName hname,
        (MaForm.periods hsorted (List.cons_ne_nil _ _) hvalid (by simp)).isCanonical,
        fun _ => ⟨_, hsorted, rfl⟩⟩
    rw [hperiods]
    refine ⟨hmerged.normalizeRequest_eq, ?_⟩
    rw [stateVariantParameters, if_pos hma, maStateParameters, variantPair_periodsValue hsorted]
    rfl
  | request hother hmerged =>
    rw [if_neg hother] at h
    cases h
    exact ⟨hmerged.normalizeRequest_eq, if_neg hother⟩

end Targets

end Canonical

end Apanel
