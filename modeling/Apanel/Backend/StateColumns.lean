import Apanel.Indicators.StateParameters

/-!
# The states of a column

`_state_matches_column` (`app/services/watch_table_service.py`) relates the current states of a
security to the columns of a watch table. Columns with a state of their own find the active state
with its code and key. Columns of an indicator find the active states that `_state_variant_pairs`
makes for a variant with their parameters (`stateMatchesColumn_iff`).
-/

namespace Apanel

namespace Canonical

inductive ColumnType
  | price
  | indicator
  | state
  deriving DecidableEq

inductive ViewMode
  | number
  | delta
  | status
  | composite
  deriving DecidableEq

/-- What a row of `table_columns` shows. -/
structure Column (F : Type) where
  columnType : ColumnType
  indicatorType : Option (List Char)
  stateCode : Option (List Char)
  parameters : Parameters F
  viewMode : ViewMode

/-- A row of `state_current`, as far as columns are concerned. -/
structure CurrentState (F : Type) where
  stateCode : List Char
  indicatorType : List Char
  status : StateStatus
  parameters : Parameters F
  parameterKey : List Char

section Matching

variable {F : Type} [PyFloat F] (tables : CaseTables) (digest : List Char → List Char)

/-- `str.upper`. -/
def upperText (text : List Char) : List Char := text.flatMap tables.upper

/-- `_calculation_parameters`. -/
def calculationParameters (parameters : Parameters F) : Parameters F :=
  parameters.filter fun m => tables.lower (strip m.1) ≠ "field".toList

/-- The code that a column with a state of its own shows; an empty one counts as none. -/
def columnCode (column : Column F) : Option (List Char) :=
  (column.stateCode.filter (· ≠ [])).map (upperText tables)

/-- The pair of periods whose states an MA column shows. -/
def columnPair (own : Parameters F) : Option (ℤ × ℤ) :=
  match maPeriods own with
  | [short, long] => some (short, long)
  | periods => if 2 < periods.length ∧ 5 ∈ periods ∧ 10 ∈ periods then some (5, 10) else none

/-- The `except` clause: the errors of the API stand for no match. -/
def orNoMatch : Except ParameterFailure Bool → Except ParameterFailure Bool
  | .error (.api ..) => .ok false
  | result => result

/-- The comparison of the parameters of a column with those of a state. -/
def parametersAgree (indicator : List Char) (own observed : Parameters F) : Bool :=
  if indicator ≠ "MA".toList then pyEq (.object own) (.object observed)
  else (columnPair own).any fun pair =>
    pyEq (.object observed) (.object (pairParameters pair.1 pair.2))

/-- The part of `_state_matches_column` for columns of an indicator. -/
def indicatorMatches (state : CurrentState F) (column : Column F) (indicatorType : List Char) :
    Except ParameterFailure Bool :=
  normalizeIndicatorType tables indicatorType >>= fun indicator =>
    normalizeIndicatorType tables state.indicatorType >>= fun stateIndicator =>
      if indicator ≠ stateIndicator then .ok false
      else orNoMatch
        (canonicalizeParameters tables true indicator
            (.object (calculationParameters tables column.parameters)) >>= fun own =>
          canonicalizeStateParameters tables indicator state.parameters >>= fun observed =>
            .ok (parametersAgree indicator own observed))

/-- `_state_matches_column`. -/
def stateMatchesColumn (state : CurrentState F) (column : Column F) :
    Except ParameterFailure Bool :=
  if state.status ≠ .active then .ok false
  else if column.columnType = .price then .ok false
  else if column.viewMode = .status ∨ column.columnType = .state then
    match columnCode tables column with
    | none => .ok false
    | some code => .ok (upperText tables state.stateCode = code ∧
        state.parameterKey = stateParameterKey digest code column.parameters)
  else
    match column.indicatorType with
    | none => .ok false
    | some indicatorType => indicatorMatches tables state column indicatorType

/-- The current states that `StateService` makes: those of the targets of merged variants. -/
def IsCurrentState (state : CurrentState F) : Prop :=
  ∃ code variants, (state.stateCode, code) ∈ stateCodes ∧
    state.indicatorType = typeName code.indicatorType ∧
    (∀ variant ∈ variants, Merged tables ⟨state.indicatorType, variant⟩) ∧
    state.parameters ∈ stateVariantParameters state.indicatorType variants ∧
    state.parameterKey = stateParameterKey digest state.stateCode state.parameters

/-- The identity of the state that a column with a state of its own shows. -/
def columnIdentity (column : Column F) : Option (List Char × List Char) :=
  (columnCode tables column).map fun code => (code, stateParameterKey digest code column.parameters)

/-- The keys that `_state_variant_pairs` makes for a variant with the parameters of a column, with
the states of its indicator. -/
def IsColumnKey (column : Column F) (key : List Char) : Prop :=
  ∃ indicatorType indicator own stateCode code, column.indicatorType = some indicatorType ∧
    normalizeIndicatorType tables indicatorType = .ok indicator ∧
    canonicalizeParameters tables true indicator
      (.object (calculationParameters tables column.parameters)) = .ok own ∧
    (stateCode, code) ∈ stateCodes ∧ typeName code.indicatorType = indicator ∧
    ∃ parameters ∈ stateVariantParameters indicator [own],
      key = stateParameterKey digest stateCode parameters

end Matching

/-! ## Agreement -/

section Agreement

variable {F : Type} [PyFloat F] [LawfulPyFloat F] {tables : CaseTables}
  {digest : List Char → List Char}

theorem statePair_singleton (n : ℤ) : statePair [n] = none := by
  have hnot : ¬ (5 ∈ [n] ∧ 10 ∈ [n]) := by
    rw [List.mem_singleton, List.mem_singleton]
    omega
  exact if_neg hnot

omit [PyFloat F] [LawfulPyFloat F] in
theorem variantPair_period (n : ℤ) :
    variantPair ([("period".toList, integerValue n)] : Parameters F) = none :=
  statePair_singleton n

omit [PyFloat F] [LawfulPyFloat F] in
/-- A column of MA shows the pair that its own variant emits. -/
theorem columnPair_eq {own : Parameters F} (h : MaForm true own) :
    columnPair own = variantPair own := by
  cases h with
  | @period n =>
    have hperiods : maPeriods ([("period".toList, integerValue n)] : Parameters F) = [n] := rfl
    have hnot : ¬ (2 < [n].length ∧ 5 ∈ [n] ∧ 10 ∈ [n]) := by simp
    rw [variantPair_period, columnPair, hperiods]
    exact if_neg hnot
  | @periods periods hsorted hne =>
    rw [variantPair_periodsValue hsorted, columnPair, maPeriods_periodsValue]
    match periods, hne with
    | [n], _ =>
      have hnot : ¬ (2 < [n].length ∧ 5 ∈ [n] ∧ 10 ∈ [n]) := by simp
      exact (if_neg hnot).trans (statePair_singleton n).symm
    | [short, long], _ => rfl
    | a :: b :: c :: rest, _ =>
      have hlength : 2 < (a :: b :: c :: rest).length := by
        rw [List.length_cons, List.length_cons, List.length_cons]
        omega
      exact if_congr (and_iff_right hlength) rfl rfl
  | none hfalse => cases hfalse

omit [PyFloat F] [LawfulPyFloat F] in
theorem mem_stateVariantParameters {indicator : List Char} {own observed : Parameters F} :
    observed ∈ stateVariantParameters indicator [own] ↔
      if indicator = "MA".toList then
        ∃ short long, observed = pairParameters short long ∧ variantPair own = some (short, long)
      else observed = own := by
  rw [stateVariantParameters]
  split
  · rw [mem_maStateParameters]
    simp
  · exact List.mem_singleton

omit [LawfulPyFloat F] in
theorem pyEq_pairParameters (short long short' long' : ℤ) :
    pyEq (.object (pairParameters short long : Parameters F))
      (.object (pairParameters short' long')) ↔ short = short' ∧ long = long' := by
  have hshort : (pairParameters short' long' : Parameters F).lookup "short_period".toList =
      some (integerValue short') := rfl
  have hlong : (pairParameters short' long' : Parameters F).lookup "long_period".toList =
      some (integerValue long') := rfl
  rw [pyEq_object]
  refine (and_iff_right rfl).trans ?_
  simp only [pairParameters, List.forall_mem_cons] at hshort hlong ⊢
  rw [hshort, hlong]
  simp [pyEq_integerValue]

theorem parametersAgree_iff {indicator : List Char} {known : IndicatorType}
    (hknown : typeNames.lookup indicator = some known) {own observed : Parameters F}
    (hown : IsCanonical tables true (some known) own)
    (hobserved : StateForm tables indicator observed) :
    parametersAgree indicator own observed ↔ observed ∈ stateVariantParameters indicator [own] := by
  rw [parametersAgree, mem_stateVariantParameters]
  cases hobserved with
  | @pair short long hma =>
    have hform : MaForm true own := by
      rw [typeNames_lookup_ma.mpr hma] at hknown
      cases hknown
      exact hown.maForm
    rw [if_neg (not_not.mpr hma), if_pos hma, ← columnPair_eq hform, Option.any_eq_true]
    constructor
    · rintro ⟨pair, hpair, hequal⟩
      obtain ⟨rfl, rfl⟩ := (pyEq_pairParameters short long pair.1 pair.2).mp hequal
      exact ⟨pair.1, pair.2, rfl, hpair⟩
    · rintro ⟨short', long', hparameters, hpair⟩
      exact ⟨(short', long'), hpair, hparameters ▸ (pyEq_pairParameters _ _ _ _).mpr ⟨rfl, rfl⟩⟩
  | request hother hmerged =>
    have hne : known ≠ .ma := fun hma => hother (typeNames_lookup_ma.mp (hma ▸ hknown))
    have hcanonical : IsCanonical tables true (some known) observed := hknown ▸ hmerged.canonical
    rw [if_pos hother, if_neg hother, CompleteRows.pyEq_iff (hown.completeRows hne) hown.sorted
      (hcanonical.completeRows hne) hcanonical.sorted]
    exact eq_comm

theorem IsTypeName.upperText_eq {text : List Char} (h : IsTypeName tables text) :
    upperText tables text = text := by
  rw [upperText, List.flatMap_congr fun c hc => (h.fixed c hc).1, List.flatMap_singleton']

omit [PyFloat F] [LawfulPyFloat F] in
theorem stateCodes_ascii :
    ∀ m ∈ stateCodes, m.1 ≠ [] ∧ m.1.all fun c => c.toNat < 128 ∧ c.toUpper = c := by
  decide

theorem upperText_stateCode {stateCode : List Char} {code : StateCode}
    (h : (stateCode, code) ∈ stateCodes) : upperText tables stateCode = stateCode := by
  have hupper : ∀ c ∈ stateCode, tables.upper c = [c] := by
    intro c hc
    obtain ⟨hascii, hfixed⟩ := List.all_iff_forall_prop.mp (stateCodes_ascii _ h).2 c hc
    rw [tables.upper_ascii hascii, hfixed]
  rw [upperText, List.flatMap_congr hupper, List.flatMap_singleton']

theorem stateCodes_injective : ∀ m ∈ stateCodes, ∀ m' ∈ stateCodes, m.1 = m'.1 → m = m' := by
  decide +kernel

theorem typeNames_lookup_typeName (type : IndicatorType) :
    typeNames.lookup (typeName type) = some type := by
  cases type <;> decide

theorem orNoMatch_eq_ok_true {result : Except ParameterFailure Bool} :
    orNoMatch result = .ok true ↔ result = .ok true := by
  cases result with
  | ok matched => exact Iff.rfl
  | error failure => cases failure <;> exact ⟨nofun, nofun⟩

omit [LawfulPyFloat F] in
theorem stateForm_of_mem {indicator : List Char} (hname : IsTypeName tables indicator)
    {own parameters : Parameters F}
    (hown : IsCanonical tables true (typeNames.lookup indicator) own)
    (h : parameters ∈ stateVariantParameters indicator [own]) :
    StateForm tables indicator parameters := by
  rw [mem_stateVariantParameters] at h
  split at h
  · next hma =>
    obtain ⟨short, long, rfl, hpair⟩ := h
    rw [typeNames_lookup_ma.mpr hma] at hown
    cases hown.maForm with
    | period =>
      rw [variantPair_period] at hpair
      cases hpair
    | periods hsorted _ hvalid =>
      rw [variantPair_periodsValue hsorted] at hpair
      obtain ⟨hpos, hlt, hle⟩ := statePair_valid hsorted hvalid hpair
      exact .pair hma hpos hlt hle
    | none hfalse => cases hfalse
  · next hother =>
    exact h ▸ .request hother ⟨hname, hown, fun hma => absurd hma hother⟩

/-- The columns of an indicator find the states with the keys of their own variant. -/
theorem indicatorMatches_iff (hdigest : StateDigestInjective F digest) {state : CurrentState F}
    (hstate : IsCurrentState tables digest state) {column : Column F} {indicatorType : List Char}
    (hcolumn : column.indicatorType = some indicatorType) :
    indicatorMatches tables state column indicatorType = .ok true ↔
      IsColumnKey tables digest column state.parameterKey := by
  obtain ⟨code, variants, hcode, htype, hmerged, hparameters, hkey⟩ := hstate
  have hname : IsTypeName tables state.indicatorType := htype ▸ isTypeName_typeName _
  have hform : StateForm tables state.indicatorType state.parameters :=
    stateForm_stateVariantParameters hmerged hparameters
  have hknown : typeNames.lookup state.indicatorType = some code.indicatorType :=
    htype ▸ typeNames_lookup_typeName _
  have hobserved := hform.canonicalizeStateParameters_eq hname.normalize_eq
  constructor
  · intro h
    obtain ⟨indicator, hindicator, h⟩ := Except.bind_eq_ok.mp h
    rw [hname.normalize_eq, Except.ok_bind] at h
    split at h
    · cases h
    · next heq =>
      obtain rfl := not_not.mp heq
      obtain ⟨own, hown, h⟩ := Except.bind_eq_ok.mp (orNoMatch_eq_ok_true.mp h)
      rw [hobserved, Except.ok_bind, Except.ok.injEq] at h
      have hcanonical := isCanonical_canonicalizeParameters hname.normalize_eq hown
      rw [hknown] at hcanonical
      have hmem := (parametersAgree_iff hknown hcanonical hform).mp h
      exact ⟨indicatorType, state.indicatorType, own, state.stateCode, code, hcolumn, hindicator,
        hown, hcode, htype.symm, state.parameters, hmem, hkey⟩
  · rintro ⟨_, indicator, own, stateCode, code', hcolumn', hindicator, hown, hcode', htype',
      parameters, hmem, hkey'⟩
    obtain rfl := Option.some.inj (hcolumn.symm.trans hcolumn')
    subst htype'
    have hself : normalizeIndicatorType tables (typeName code'.indicatorType) = .ok _ :=
      (isTypeName_typeName _).normalize_eq
    have hlookup := typeNames_lookup_typeName code'.indicatorType
    have hcanonical := isCanonical_canonicalizeParameters hself hown
    -- the key gives the code of the state, the code its indicator and both the parameters
    have hform' := stateForm_of_mem (isTypeName_typeName _) hcanonical hmem
    obtain ⟨rfl, hsort⟩ :=
      (stateParameterKey_eq_iff hdigest hform hform').mp (hkey.symm.trans hkey')
    cases stateCodes_injective _ hcode _ hcode' rfl
    rw [htype] at hform
    obtain rfl := hform.eq_of_sortKeys_eq hform' hsort
    rw [hlookup] at hcanonical
    rw [indicatorMatches, hindicator, Except.ok_bind, hname.normalize_eq, Except.ok_bind,
      if_neg (not_not.mpr htype.symm), hown, Except.ok_bind, ← htype, hobserved, Except.ok_bind,
      (parametersAgree_iff hknown hcanonical (htype ▸ hform)).mpr (htype ▸ hmem)]
    rfl

/-- A column shows the active states with its own identity, or with the keys of its variant. -/
theorem stateMatchesColumn_iff (hdigest : StateDigestInjective F digest) {state : CurrentState F}
    (hstate : IsCurrentState tables digest state) (column : Column F) :
    (column.viewMode = .status ∨ column.columnType = .state →
      (stateMatchesColumn tables digest state column = .ok true ↔ state.status = .active ∧
        column.columnType ≠ .price ∧
          columnIdentity tables digest column = some (state.stateCode, state.parameterKey))) ∧
    (column.viewMode ≠ .status → column.columnType = .indicator →
      (stateMatchesColumn tables digest state column = .ok true ↔ state.status = .active ∧
        IsColumnKey tables digest column state.parameterKey)) := by
  have hactive : state.status ≠ .active → stateMatchesColumn tables digest state column = .ok false :=
    fun hstatus => if_pos hstatus
  constructor
  · intro hown
    by_cases hstatus : state.status = .active
    · rw [stateMatchesColumn, if_neg (not_not.mpr hstatus), and_iff_right hstatus]
      split
      · next hprice => exact iff_of_false nofun fun h => h.1 hprice
      · next hprice =>
        rw [and_iff_right hprice, columnIdentity]
        obtain ⟨code, -, hcode, -⟩ := hstate
        cases columnCode tables column with
        | none => exact iff_of_false nofun nofun
        | some columnCode =>
          simp only [upperText_stateCode hcode, Except.ok.injEq, decide_eq_true_eq,
            Option.map_some, Option.some.injEq, Prod.mk.injEq]
          exact and_congr eq_comm eq_comm
    · rw [hactive hstatus]
      exact iff_of_false nofun fun h => hstatus h.1
  · intro hmode htype
    by_cases hstatus : state.status = .active
    · have hprice : column.columnType ≠ .price := by simp [htype]
      have hown : ¬ (column.viewMode = .status ∨ column.columnType = .state) := by
        simp [hmode, htype]
      rw [stateMatchesColumn, if_neg (not_not.mpr hstatus), if_neg hprice, if_neg hown,
        and_iff_right hstatus]
      cases hcolumn : column.indicatorType with
      | none =>
        refine iff_of_false nofun ?_
        rintro ⟨indicatorType, _, _, _, _, hindicator, -⟩
        cases hcolumn.symm.trans hindicator
      | some indicatorType => exact indicatorMatches_iff hdigest hstate hcolumn
    · rw [hactive hstatus]
      exact iff_of_false nofun fun h => hstatus h.1

end Agreement

section Concrete

/-- The SHA-256 of the texts that are hashed below. -/
def stateSha256Rows : List (List Char × List Char) :=
  [(stateSerialized "MA_CROSS_UP".toList (pairParameters 5 10 : Parameters WholeFloat),
    "5b4dfd65c043d1901ab2ac78a3b2472a804def26c78914f1a716c7a7ef190c16".toList)]

def stateSha256 (text : List Char) : List Char := (stateSha256Rows.lookup text).getD ('x' :: text)

theorem stateDigestInjective_stateSha256 : StateDigestInjective WholeFloat stateSha256 :=
  Function.Injective.injOn (getD_lookup_injective (by decide +kernel) (by decide +kernel))

/-- The state of the default periods of MA. -/
def crossUp (status : StateStatus) : CurrentState WholeFloat :=
  ⟨"MA_CROSS_UP".toList, "MA".toList, status, pairParameters 5 10,
    stateParameterKey stateSha256 "MA_CROSS_UP".toList
      (pairParameters 5 10 : Parameters WholeFloat)⟩

/-- A column of MA whose periods embed the default ones. -/
def wideColumn : Column WholeFloat :=
  ⟨.indicator, some "MA".toList, none, [("periods".toList, periodsValue [5, 10, 20])], .composite⟩

def statusColumn : Column WholeFloat :=
  ⟨.indicator, some "MA".toList, some "MA_CROSS_UP".toList, pairParameters 5 10, .status⟩

theorem isCurrentState_crossUp (status : StateStatus) :
    IsCurrentState latinTables stateSha256 (crossUp status) := by
  have hsorted : [(5 : ℤ), 10].Pairwise (· < ·) := by decide
  refine ⟨.maCrossUp, [[("periods".toList, periodsValue [5, 10])]], List.mem_cons_self, rfl, ?_,
    List.mem_cons_self, rfl⟩
  intro variant hvariant
  rw [List.mem_singleton.mp hvariant]
  exact ⟨isTypeName_typeName .ma,
    (MaForm.periods hsorted (List.cons_ne_nil _ _) (by decide) (by decide)).isCanonical,
    fun _ => ⟨_, hsorted, rfl⟩⟩

theorem crossUp_stateMatchesColumn_iff :
    IsColumnKey latinTables stateSha256 wideColumn (crossUp .active).parameterKey ∧
      columnIdentity latinTables stateSha256 statusColumn =
        some ((crossUp .active).stateCode, (crossUp .active).parameterKey) := by
  obtain ⟨-, hindicator⟩ := stateMatchesColumn_iff stateDigestInjective_stateSha256
    (isCurrentState_crossUp .active) wideColumn
  obtain ⟨hstatus, -⟩ := stateMatchesColumn_iff stateDigestInjective_stateSha256
    (isCurrentState_crossUp .active) statusColumn
  have hwide : stateMatchesColumn latinTables stateSha256 (crossUp .active) wideColumn = .ok true := by
    decide +kernel
  have hown : stateMatchesColumn latinTables stateSha256 (crossUp .active) statusColumn =
      .ok true := by
    decide +kernel
  exact ⟨((hindicator nofun rfl).mp hwide).2, ((hstatus (.inl rfl)).mp hown).2.2⟩

/-- An inactive state has the identity of a column that does not show it. -/
theorem not_stateMatchesColumn_iff_identity :
    ¬ ∀ (state : CurrentState WholeFloat) (column : Column WholeFloat),
      IsCurrentState latinTables stateSha256 state →
      column.viewMode = .status ∨ column.columnType = .state →
        (stateMatchesColumn latinTables stateSha256 state column = .ok true ↔
          columnIdentity latinTables stateSha256 column =
            some (state.stateCode, state.parameterKey)) := by
  intro h
  have hmatch := (h (crossUp .inactive) statusColumn (isCurrentState_crossUp _) (.inl rfl)).mpr rfl
  cases hmatch

end Concrete

end Canonical

end Apanel
