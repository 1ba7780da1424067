import Apanel.Backend.StateColumns
import Apanel.Backend.Recognition
import Mathlib.Data.Sum.Order

/-!
# The demand for states

`collect_indicator_requests` (`app/services/analysis_demand.py`) asks for the indicators of all
columns and alert rules on a security. `_condition_fields` (`app/services/alert_service.py`) and
`_validate_column_request` (`app/services/watch_table_service.py`) accept the rules and columns of
a state; once the series these ask for has a value, `StateService` emits exactly one state with
their code and key (`exists_emitted_state`).
-/

namespace Apanel

namespace Canonical

inductive ConditionType
  | state
  | value
  deriving DecidableEq

/-- A row of `alert_rules`, as far as the demand is concerned. -/
structure RuleRow (F : Type) where
  conditionType : ConditionType
  indicatorType : Option (List Char)
  stateCode : Option (List Char)
  parameters : Parameters F
  parameterKey : List Char
  field : Option (List Char)
  adjustType : List Char

/-- What a STATE condition reads of the request of an alert rule. -/
structure StateCondition (F : Type) where
  stateId : Option (List Char)
  stateCode : Option (List Char)
  parameters : Parameters F
  adjustType : Option (List Char)

/-- What a STATUS column reads of the request of a column. -/
structure StatusRequest (F : Type) where
  columnType : ColumnType
  stateCode : Option (List Char)
  parameters : Parameters F

section Accepting

variable {F : Type} [PyFloat F] (tables : CaseTables) (digest : List Char → List Char)

/-- `value.strip().upper()`. -/
def stripValue (value : List Char) : List Char := upperText tables (strip value)

/-- `DEFAULT_REGISTRY.get`. -/
def getState (code : List Char) : Option (List Char × StateCode) :=
  stateCodes.find? fun m => m.1 = stripValue tables code

def invalidAlertRule (message : String) : ParameterFailure := .api "INVALID_ALERT_RULE" message 400

def validatedStateCode (stateCode : Option (List Char)) :
    Except ParameterFailure (List Char × StateCode) :=
  match getState tables (stateCode.getD []) with
  | none => .error (invalidAlertRule "State condition is invalid.")
  | some definition => .ok definition

/-- `selected_adjustment`; an empty one counts as none. -/
def selectedAdjustment (adjustType : Option (List Char)) : List Char :=
  tables.lower (strip ((adjustType.filter (· ≠ [])).getD "qfq".toList))

/-- The part of `_condition_fields` for STATE. -/
def conditionFields (condition : StateCondition F) : Except ParameterFailure (RuleRow F) :=
  if selectedAdjustment tables condition.adjustType ∉ ["qfq".toList, "none".toList] then
    .error (invalidAlertRule "Adjustment must be qfq or none.")
  else if condition.stateId.any fun stateId => condition.stateCode.any fun stateCode =>
      stripValue tables stateId ≠ stripValue tables stateCode then
    .error (invalidAlertRule "State condition fields do not match.")
  else
    validatedStateCode tables ((condition.stateId.filter (· ≠ [])).or condition.stateCode) >>=
      fun resolved =>
        canonicalizeStateParameters tables (typeName resolved.2.indicatorType) condition.parameters >>=
          fun parameters => .ok
            { conditionType := .state
              indicatorType := some (typeName resolved.2.indicatorType)
              stateCode := some resolved.1
              parameters
              parameterKey := stateParameterKey digest resolved.1 parameters
              field := none
              adjustType := selectedAdjustment tables condition.adjustType }

/-- `add_column` with the part of `_validate_column_request` for STATUS. The code of the request has
been through `strip_values`. -/
def addStatusColumn (request : StatusRequest F) : Except ParameterFailure (Column F) :=
  match (request.stateCode.map (stripValue tables)).filter (· ≠ []) with
  | none => .error (.api "STATE_TARGET_REQUIRED" "STATUS columns require state_code." 400)
  | some stateCode =>
    match getState tables (stripValue tables stateCode) with
    | none => .error (.api "INVALID_STATE_CODE" "State code is invalid." 400)
    | some definition =>
      canonicalizeStateParameters tables (typeName definition.2.indicatorType) request.parameters >>=
        fun parameters => .ok
          { columnType := request.columnType
            indicatorType := some (typeName definition.2.indicatorType)
            stateCode := some (stripValue tables stateCode)
            parameters
            viewMode := .status }

end Accepting

section Collecting

variable {F : Type} [PyFloat F] (tables : CaseTables) (digest : List Char → List Char)

/-- Rows without an indicator and those of dividends ask for nothing. -/
def demandedType (indicatorType : Option (List Char)) : Option (List Char) :=
  indicatorType.filter fun type => type ≠ [] ∧ upperText tables type ≠ "DIVIDEND_YIELD".toList

/-- The request of a row, for a state or for the values of an indicator. -/
def rowRequest (ofState : Bool) (indicatorType : List Char) (raw : Parameters F) :
    Except ParameterFailure (Request F) :=
  (fun canonical => ⟨indicatorType, canonical⟩) <$>
    if ofState then (·.parameters) <$> stateIndicatorRequest tables indicatorType raw
    else canonicalizeParameters tables true indicatorType (.object raw)

def columnRequest (column : Column F) : Option (Except ParameterFailure (Request F)) :=
  (demandedType tables column.indicatorType).map fun indicatorType =>
    rowRequest tables (column.viewMode = .status) indicatorType
      (calculationParameters tables column.parameters)

def ruleRequest (rule : RuleRow F) : Option (Except ParameterFailure (Request F)) :=
  (demandedType tables rule.indicatorType).map fun indicatorType =>
    rowRequest tables (rule.conditionType = .state) indicatorType rule.parameters

/-- The `except` clauses: an error of the API skips its row. -/
def skipInvalid :
    List (Except ParameterFailure (Request F)) → Except ParameterFailure (List (Request F))
  | [] => .ok []
  | .ok request :: results => (request :: ·) <$> skipInvalid results
  | .error (.api ..) :: results => skipInvalid results
  | .error .overflow :: _ => .error .overflow

/-- `collect_indicator_requests` of one symbol, for its columns and its enabled rules. -/
def collectIndicatorRequests (columns : List (Column F)) (rules : List (RuleRow F)) :
    Except ParameterFailure (List (Request F)) :=
  skipInvalid (columns.filterMap (columnRequest tables) ++ rules.filterMap (ruleRequest tables)) >>=
    mergeIndicatorRequests tables digest

end Collecting

/-! ## Accepted rules and columns -/

section Accepted

variable {F : Type} [PyFloat F] {tables : CaseTables} {digest : List Char → List Char}

theorem upperText_upperText (text : List Char) :
    upperText tables (upperText tables text) = upperText tables text := by
  rw [upperText, upperText, List.flatMap_assoc]
  refine List.flatMap_congr fun c _ => ?_
  rw [List.flatMap_congr fun d hd => tables.upper_upper hd, List.flatMap_singleton']

theorem strip_upperText {text : List Char} (h : strip text = text) :
    strip (upperText tables text) = upperText tables text := by
  obtain ⟨hfirst, hlast⟩ := strip_eq_self_iff.mp h
  refine strip_eq_self_iff.mpr ⟨fun c hc => ?_, fun c hc => ?_⟩
  · obtain ⟨d, hd, hcd⟩ := head?_flatMap tables.upper_ne_nil hc
    exact tables.isspace_upper (hfirst d hd) hcd
  · obtain ⟨d, hd, hcd⟩ := getLast?_flatMap tables.upper_ne_nil hc
    exact tables.isspace_upper (hlast d hd) hcd

/-- The validators and the services may both strip a value. -/
@[simp] theorem stripValue_stripValue (value : List Char) :
    stripValue tables (stripValue tables value) = stripValue tables value := by
  rw [stripValue, stripValue, strip_upperText (strip_strip value), upperText_upperText]

theorem mem_of_getState {code : List Char} {definition : List Char × StateCode}
    (h : getState tables code = some definition) :
    definition ∈ stateCodes ∧ definition.1 = stripValue tables code := by
  rw [getState] at h
  have hcode := List.find?_some h
  exact ⟨List.mem_of_find?_eq_some h, of_decide_eq_true hcode⟩

/-- What an accepted rule or column stores: a code of the registry and canonical parameters. -/
structure StoredState (tables : CaseTables) (stateCode : List Char) (code : StateCode)
    (parameters : Parameters F) : Prop where
  mem : (stateCode, code) ∈ stateCodes
  form : StateForm tables (typeName code.indicatorType) parameters

theorem conditionFields_stored [LawfulPyFloat F] {condition : StateCondition F} {rule : RuleRow F}
    (h : conditionFields tables digest condition = .ok rule) :
    ∃ stateCode code, StoredState tables stateCode code rule.parameters ∧
      rule.conditionType = .state ∧ rule.indicatorType = some (typeName code.indicatorType) ∧
        rule.stateCode = some stateCode ∧
          rule.parameterKey = stateParameterKey digest stateCode rule.parameters := by
  rw [conditionFields] at h
  split_ifs at h
  obtain ⟨⟨stateCode, code⟩, hresolved, h⟩ := Except.bind_eq_ok.mp h
  obtain ⟨parameters, hparameters, h⟩ := Except.bind_eq_ok.mp h
  cases h
  have hmem : (stateCode, code) ∈ stateCodes := by
    rw [validatedStateCode] at hresolved
    split at hresolved
    · cases hresolved
    · next hget =>
      cases hresolved
      exact (mem_of_getState hget).1
  exact ⟨stateCode, code, ⟨hmem, stateForm_canonicalizeStateParameters
    (isTypeName_typeName _).normalize_eq hparameters⟩, rfl, rfl, rfl, rfl⟩

theorem addStatusColumn_stored [LawfulPyFloat F] {request : StatusRequest F} {column : Column F}
    (h : addStatusColumn tables request = .ok column) :
    ∃ stateCode code, StoredState tables stateCode code column.parameters ∧
      column.viewMode = .status ∧ column.indicatorType = some (typeName code.indicatorType) ∧
        columnIdentity tables digest column =
          some (stateCode, stateParameterKey digest stateCode column.parameters) := by
  rw [addStatusColumn] at h
  split at h
  · cases h
  · next value hvalue =>
    split at h
    · cases h
    · next definition hget =>
      obtain ⟨parameters, hparameters, h⟩ := Except.bind_eq_ok.mp h
      cases h
      obtain ⟨hmem, hcode⟩ := mem_of_getState hget
      obtain ⟨stateCode, code⟩ := definition
      rw [stripValue_stripValue] at hcode
      refine ⟨stateCode, code, ⟨hmem, stateForm_canonicalizeStateParameters
        (isTypeName_typeName _).normalize_eq hparameters⟩, rfl, rfl, ?_⟩
      have hne : stripValue tables value ≠ [] := hcode ▸ (stateCodes_ascii _ hmem).1
      have hupper : upperText tables (stripValue tables value) = stateCode := by
        rw [← hcode]
        exact upperText_stateCode hmem
      simp [columnIdentity, columnCode, Option.filter, hne, hupper]

end Accepted

/-! ## What they ask for -/

section Demand

variable {F : Type} [PyFloat F] [LawfulPyFloat F] {tables : CaseTables}
  {digest : List Char → List Char}

omit [PyFloat F] [LawfulPyFloat F] in
theorem mem_skipInvalid {results : List (Except ParameterFailure (Request F))}
    {requests : List (Request F)} (h : skipInvalid results = .ok requests) {request : Request F}
    (hmem : .ok request ∈ results) : request ∈ requests := by
  induction results generalizing requests with
  | nil => cases hmem
  | cons result results ih =>
    cases result with
    | ok first =>
      rw [skipInvalid] at h
      obtain ⟨rest, hrest, rfl⟩ := Except.map_eq_ok.mp h
      rcases List.mem_cons.mp hmem with heq | hmem
      · cases heq
        exact List.mem_cons_self
      · exact List.mem_cons_of_mem _ (ih hrest hmem)
    | error failure =>
      have hrest : .ok request ∈ results := (List.mem_cons.mp hmem).resolve_left nofun
      cases failure with
      | api => exact ih h hrest
      | overflow => cases h

theorem demandedType_typeName (type : IndicatorType) :
    demandedType tables (some (typeName type)) = some (typeName type) := by
  have hne : typeName type ≠ [] ∧ typeName type ≠ "DIVIDEND_YIELD".toList := by
    cases type <;> decide
  rw [demandedType, Option.filter_some, (isTypeName_typeName type).upperText_eq, if_pos]
  exact decide_eq_true hne

omit [LawfulPyFloat F] in
/-- A stored state has a request, and asks for it. -/
theorem StoredState.rowRequest_eq {stateCode : List Char} {code : StateCode} {c : Parameters F}
    (h : StoredState tables stateCode code c) :
    ∃ request, stateIndicatorRequest tables (typeName code.indicatorType) c = .ok request ∧
      rowRequest tables true (typeName code.indicatorType) c = .ok request := by
  have hname : normalizeIndicatorType tables (typeName code.indicatorType) = .ok _ :=
    (isTypeName_typeName _).normalize_eq
  have hrequest : ∃ parameters, stateIndicatorRequest tables (typeName code.indicatorType) c =
      .ok ⟨typeName code.indicatorType, parameters⟩ := by
    rw [stateIndicatorRequest, h.form.canonicalizeStateParameters_eq hname, Except.ok_bind, hname,
      Except.ok_bind]
    split
    · exact ⟨_, rfl⟩
    · exact ⟨_, rfl⟩
  obtain ⟨parameters, hrequest⟩ := hrequest
  refine ⟨_, hrequest, ?_⟩
  rw [rowRequest, if_pos rfl, hrequest]
  rfl

omit [LawfulPyFloat F] in
/-- The parameters of a stored state have no field. -/
theorem StoredState.calculationParameters_eq {stateCode : List Char} {code : StateCode}
    {c : Parameters F} (h : StoredState tables stateCode code c) :
    calculationParameters tables c = c := by
  have hascii : ∀ name ∈ ["short_period".toList, "long_period".toList] ++
      [IndicatorType.ma, .projectedMa, .rsi, .kdj, .boll, .macd].flatMap parameterKeys,
      strip name = name ∧ (name.all fun c => c.toNat < 128 ∧ c.toLower = c) ∧
        name ≠ "field".toList := by
    decide
  have hnames : ∀ m ∈ c, m.1 ∈ ["short_period".toList, "long_period".toList] ++
      [IndicatorType.ma, .projectedMa, .rsi, .kdj, .boll, .macd].flatMap parameterKeys := by
    intro m hm
    cases h.form with
    | pair =>
      refine List.mem_append_left _ ?_
      simp only [pairParameters, List.mem_cons, List.not_mem_nil, or_false] at hm ⊢
      exact hm.imp (congrArg Prod.fst) (congrArg Prod.fst)
    | request hother hmerged =>
      have hne : code.indicatorType ≠ .ma := fun hma => hother (hma ▸ rfl)
      have hcanonical := hmerged.canonical
      rw [typeNames_lookup_typeName] at hcanonical
      refine List.mem_append_right _ (List.mem_flatMap.mpr ⟨code.indicatorType, ?_,
        ((hcanonical.completeRows hne).names _).mp (List.mem_map_of_mem hm)⟩)
      cases code.indicatorType <;> decide
  refine List.filter_eq_self.mpr fun m hm => decide_eq_true ?_
  obtain ⟨hstrip, hlower, hne⟩ := hascii m.1 (hnames m hm)
  have hfixed := List.all_iff_forall_prop.mp hlower
  rw [hstrip, tables.lower_ascii _ fun c hc => (hfixed c hc).1,
    List.map_congr_left fun c hc => (hfixed c hc).2, List.map_id']
  exact hne

/-- What is asked for is kept by the merge, in the form that is hashed. -/
theorem mem_collectIndicatorRequests (hdigest : DigestInjective F digest)
    {columns : List (Column F)} {rules : List (RuleRow F)} {out : List (Request F)}
    (hcollect : collectIndicatorRequests tables digest columns rules = .ok out)
    {asked request : Request F} (hnormalized : normalizeRequest tables asked = .ok request)
    (hmem : (∃ column ∈ columns, columnRequest tables column = some (.ok asked)) ∨
      ∃ rule ∈ rules, ruleRequest tables rule = some (.ok asked)) : request ∈ out := by
  obtain ⟨requests, hrequests, hmerge⟩ := Except.bind_eq_ok.mp hcollect
  have hasked : asked ∈ requests := by
    refine mem_skipInvalid hrequests (List.mem_append.mpr (hmem.imp ?_ ?_))
    · exact List.mem_filterMap.mpr
    · exact List.mem_filterMap.mpr
  obtain ⟨defaults, -, hout⟩ := mem_mergeIndicatorRequests hdigest hmerge
  exact (hout request).mpr ⟨asked, List.mem_append_right _ hasked, hnormalized⟩

end Demand

/-! ## What is emitted -/

section Emitting

variable {F : Type} [PyFloat F]

/-- The code of a state in the registry. -/
def stateName (code : StateCode) : List Char :=
  ((stateCodes.find? fun m => m.2 = code).map (·.1)).getD []

/-- The parameters of a target, as rows of states hold them. -/
def stateMapping : StateParameters F → Parameters F
  | .maPair short long => pairParameters short long
  | .request request => (mapping request).parameters

/-- The `(state_code, parameter_key)` of a target. -/
def targetIdentity (digest : List Char → List Char) (target : Target F) : List Char × List Char :=
  (stateName target.code,
    stateParameterKey digest (stateName target.code) (stateMapping target.parameters))

theorem stateName_eq {stateCode : List Char} {code : StateCode} (h : (stateCode, code) ∈ stateCodes) :
    stateName code = stateCode := by
  have hall : ∀ m ∈ stateCodes, stateName m.2 = m.1 := by decide
  exact hall _ h

theorem stateName_mem (code : StateCode) : (stateName code, code) ∈ stateCodes := by
  cases code <;> decide

omit [PyFloat F] in
theorem statePair_cast (request : IndicatorRequest F) :
    statePair ((request.maPeriods.map (·.1)).map Nat.cast) =
      (Apanel.statePair request).map fun pair => ((pair.1 : ℤ), (pair.2 : ℤ)) := by
  rw [Apanel.statePair]
  generalize request.maPeriods.map (·.1) = periods
  have hdefault (periods : List ℕ) :
      (if (5 : ℤ) ∈ periods.map Nat.cast ∧ (10 : ℤ) ∈ periods.map Nat.cast then
        some ((5 : ℤ), (10 : ℤ)) else none) =
      (if 5 ∈ periods ∧ 10 ∈ periods then some (5, 10) else none).map
        fun pair : ℕ × ℕ => ((pair.1 : ℤ), (pair.2 : ℤ)) := by
    have hmem (n : ℕ) : (n : ℤ) ∈ periods.map Nat.cast ↔ n ∈ periods :=
      List.mem_map_of_injective Nat.cast_injective
    rw [apply_ite (Option.map _)]
    exact if_congr (and_congr (hmem 5) (hmem 10)) rfl rfl
  rcases periods with _ | ⟨short, _ | ⟨long, _ | ⟨next, periods⟩⟩⟩
  · rfl
  · exact hdefault [short]
  · rfl
  · exact hdefault (short :: long :: next :: periods)

omit [PyFloat F] in
/-- The targets of a variant, in the two models of its parameters. -/
theorem stateVariantParameters_mapping (request : IndicatorRequest F) :
    stateVariantParameters (mapping request).indicatorType [(mapping request).parameters] =
      (request.stateParameters?.map stateMapping).toList := by
  have hma : (mapping request).indicatorType = "MA".toList ↔ request.indicatorType = .ma := by
    rw [mapping_indicatorType]
    exact typeName_injective.eq_iff (b := .ma)
  rw [stateVariantParameters, IndicatorRequest.stateParameters?]
  split_ifs with hname htype htype
  · cases request with
    | ma periods =>
      have hpair : variantPair (mapping (.ma periods : IndicatorRequest F)).parameters =
          (Apanel.statePair (.ma periods : IndicatorRequest F)).map
            fun pair => ((pair.1 : ℤ), (pair.2 : ℤ)) := by
        rw [← statePair_cast, mapping, variantPair_periodsValue (sorted_periods periods)]
        simp [IndicatorRequest.maPeriods]
      rw [maStateParameters, hpair]
      cases Apanel.statePair (.ma periods : IndicatorRequest F) with
      | none => rfl
      | some pair => rfl
    | projectedMa | rsi | kdj | boll | macd => cases htype
  · exact absurd (hma.mp hname) htype
  · exact absurd (hma.mpr htype) hname
  · rfl

omit [PyFloat F] in
/-- The targets of a variant of one indicator differ in their parameters. -/
theorem stateMapping_injective {request request' : IndicatorRequest F}
    (htype : request.indicatorType = request'.indicatorType) {parameters parameters' : StateParameters F}
    (h : request.stateParameters? = some parameters)
    (h' : request'.stateParameters? = some parameters')
    (heq : stateMapping parameters = stateMapping parameters') : parameters = parameters' := by
  rw [IndicatorRequest.stateParameters?] at h h'
  rw [← htype] at h'
  split at h
  · next hma =>
    rw [if_pos hma] at h'
    obtain ⟨pair, -, rfl⟩ := Option.map_eq_some_iff.mp h
    obtain ⟨pair', -, rfl⟩ := Option.map_eq_some_iff.mp h'
    have hpair : (pair.1 : ℤ) = pair'.1 ∧ (pair.2 : ℤ) = pair'.2 := by
      simpa [stateMapping, pairParameters, integerValue] using heq
    rw [Nat.cast_inj.mp hpair.1, Nat.cast_inj.mp hpair.2]
  · next hother =>
    rw [if_neg hother] at h'
    cases h
    cases h'
    have htypes : (mapping request).indicatorType = (mapping request').indicatorType := by
      rw [mapping_indicatorType, mapping_indicatorType, htype]
    refine congrArg StateParameters.request (mapping_injective ?_)
    calc mapping request = ⟨(mapping request).indicatorType, (mapping request).parameters⟩ := rfl
      _ = ⟨(mapping request').indicatorType, (mapping request').parameters⟩ :=
        congrArg₂ Request.mk htypes heq
      _ = mapping request' := rfl

variable [LawfulPyFloat F] {tables : CaseTables} {digest : List Char → List Char}

/-- The targets of an accepted variant are canonical. -/
theorem stateForm_stateMapping {request : IndicatorRequest F} (h : Accepted request)
    {parameters : StateParameters F} (hparameters : request.stateParameters? = some parameters) :
    StateForm tables (typeName request.indicatorType) (stateMapping parameters) := by
  have hmerged : ∀ variant ∈ [(mapping request).parameters],
      Merged tables ⟨(mapping request).indicatorType, variant⟩ := by
    intro variant hvariant
    rw [List.mem_singleton.mp hvariant]
    exact merged_mapping h
  rw [← mapping_indicatorType]
  refine stateForm_stateVariantParameters hmerged ?_
  rw [stateVariantParameters_mapping, hparameters]
  exact List.mem_singleton_self _

/-- The request of a stored state, and the target of its variant. -/
theorem StoredState.exists_request {stateCode : List Char} {code : StateCode} {c : Parameters F}
    (h : StoredState tables stateCode code c) :
    ∃ request parameters, Accepted request ∧
      rowRequest tables true (typeName code.indicatorType) c = .ok (mapping request) ∧
        request.indicatorType = code.indicatorType ∧
          request.stateParameters? = some parameters ∧ stateMapping parameters = c := by
  obtain ⟨raw, hraw, hrow⟩ := h.rowRequest_eq
  obtain ⟨c', hc, hnormalized, htargets⟩ := stateVariantParameters_request hraw
  have hself := h.form.canonicalizeStateParameters_eq (isTypeName_typeName _).normalize_eq
  cases hself.symm.trans hc
  have htype : raw.indicatorType = typeName code.indicatorType := by
    obtain ⟨_, -, heq⟩ := Except.map_eq_ok.mp hrow
    rw [← heq]
  have hknown : typeNames.lookup raw.indicatorType = some code.indicatorType := by
    rw [htype]
    exact typeNames_lookup_typeName _
  obtain ⟨request, haccepted, rfl⟩ := exists_mapping (normalizeRequest_merged hnormalized) hknown
  rw [stateVariantParameters_mapping] at htargets
  cases hparameters : request.stateParameters? with
  | none =>
    rw [hparameters] at htargets
    cases htargets
  | some parameters =>
    rw [hparameters] at htargets
    rw [mapping_indicatorType] at htype
    exact ⟨request, parameters, haccepted, hrow, typeName_injective htype, hparameters,
      List.singleton_inj.mp htargets⟩

variable [Arith F] [LinearOrder (IndicatorRequest F)] [LinearOrder (Target F)]

/-- Once the series of a request has values, its snapshot makes exactly one state with this
identity, whatever else is requested. -/
def Emits (digest : List Char → List Char) (request : IndicatorRequest F)
    (identity : List Char × List Char) : Prop :=
  ∀ (requests : List (IndicatorRequest F)) (bars : Bars) (t : Table Date (Variants F)) (day : Date)
    (values : Values F), request ∈ requests → (∀ other ∈ requests, Accepted other) →
      recompute requests bars = .ok t → ValueOn request bars day values →
        ∃ variants, t.get? day = some variants ∧ ∀ (h : History F) (row : SnapshotRow F),
          h.snapshots.get? day = some row → row.variants = variants →
            ∃! state, state ∈ h.rows day ∧ targetIdentity digest state.target = identity

theorem StoredState.emits (hdigest : StateDigestInjective F digest) {stateCode : List Char}
    {code : StateCode} {c : Parameters F} (h : StoredState tables stateCode code c)
    {request : IndicatorRequest F} {parameters : StateParameters F}
    (htype : request.indicatorType = code.indicatorType)
    (hparameters : request.stateParameters? = some parameters)
    (hmapping : stateMapping parameters = c) :
    Emits digest request (stateCode, stateParameterKey digest stateCode c) := by
  intro requests bars t day values hmem haccepted ht hvalues
  obtain ⟨variants, variant, hvariants, hvariant, -⟩ := (mem_recompute ht).mpr ⟨hmem, hvalues⟩
  have hrequest : request ∈ variants.keys := Table.mem_keys.mpr ⟨variant, hvariant⟩
  refine ⟨variants, hvariants, fun history row hrow heqv => ?_⟩
  subst heqv
  have htarget : row.HasTarget ⟨code, parameters⟩ := ⟨request, hrequest, htype, hparameters⟩
  have hitems := History.mem_items_targets.mpr ⟨row, hrow, htarget⟩
  rw [← History.rows_targets] at hitems
  obtain ⟨state, hstate, heq⟩ := List.mem_map.mp hitems
  refine ⟨state, ⟨hstate, ?_⟩, ?_⟩
  · rw [heq, targetIdentity, stateName_eq h.mem, hmapping]
  · rintro state' ⟨hstate', hidentity⟩
    have hitems' := List.mem_map_of_mem (f := (·.target)) hstate'
    rw [History.rows_targets, History.mem_items_targets] at hitems'
    obtain ⟨_, hrow', other, hother, htype', hparameters'⟩ := hitems'
    cases hrow.symm.trans hrow'
    -- the code gives the indicator, and the key the parameters of this indicator
    obtain ⟨hcode, hkey⟩ := Prod.mk.inj hidentity
    have hsame : state'.target.code = code := by
      have hmem := stateName_mem state'.target.code
      rw [hcode] at hmem
      exact congrArg Prod.snd (stateCodes_injective _ hmem _ h.mem rfl)
    rw [hsame] at htype'
    obtain ⟨variant', hvariant'⟩ := Table.mem_keys.mp hother
    have hmem' := ((mem_recompute ht).mp ⟨_, variant', hvariants, hvariant', rfl⟩).1
    have hform' : StateForm tables _ _ := stateForm_stateMapping (haccepted other hmem') hparameters'
    rw [htype'] at hform'
    obtain ⟨-, hsort⟩ := (stateParameterKey_eq_iff hdigest hform' h.form).mp hkey
    have hc : stateMapping state'.target.parameters = stateMapping parameters :=
      (hform'.eq_of_sortKeys_eq h.form hsort).trans hmapping.symm
    have hsame' :=
      stateMapping_injective (htype'.trans htype.symm) hparameters' hparameters hc
    refine List.inj_on_of_nodup_map (history.rows_nodup day) hstate' hstate ?_
    rw [heq, ← hsame, ← hsame']

/-- The accepted rules and columns of states have a request of their indicator in the demand, whose
variant emits exactly the state with their identity. -/
theorem exists_emitted_state (hdigest : DigestInjective F digest)
    (hstates : StateDigestInjective F digest) {columns : List (Column F)} {rules : List (RuleRow F)}
    {out : List (Request F)}
    (hcollect : collectIndicatorRequests tables digest columns rules = .ok out) :
    (∀ condition, ∀ rule ∈ rules, conditionFields tables digest condition = .ok rule →
      ∃ stateCode request, rule.stateCode = some stateCode ∧
        rule.indicatorType = some (typeName request.indicatorType) ∧ Accepted request ∧
        mapping request ∈ out ∧ Emits digest request (stateCode, rule.parameterKey)) ∧
    ∀ status, ∀ column ∈ columns, addStatusColumn tables status = .ok column →
      ∃ identity request, columnIdentity tables digest column = some identity ∧
        column.indicatorType = some (typeName request.indicatorType) ∧ Accepted request ∧
        mapping request ∈ out ∧ Emits digest request identity := by
  constructor
  · intro condition rule hrule hfields
    obtain ⟨stateCode, code, hstored, hcondition, htype, hcode, hkey⟩ :=
      conditionFields_stored hfields
    obtain ⟨request, parameters, haccepted, hrow, hsame, hparameters, hmapping⟩ :=
      hstored.exists_request
    have hrequest : ruleRequest tables rule = some (.ok (mapping request)) := by
      rw [ruleRequest, htype, demandedType_typeName, Option.map_some, hcondition,
        decide_eq_true rfl, hrow]
    refine ⟨stateCode, request, hcode, hsame ▸ htype, haccepted,
      mem_collectIndicatorRequests hdigest hcollect (merged_mapping haccepted).normalizeRequest_eq
        (.inr ⟨rule, hrule, hrequest⟩), ?_⟩
    rw [hkey]
    exact hstored.emits hstates hsame hparameters hmapping
  · intro status column hcolumn hadd
    obtain ⟨stateCode, code, hstored, hmode, htype, hidentity⟩ := addStatusColumn_stored hadd
    obtain ⟨request, parameters, haccepted, hrow, hsame, hparameters, hmapping⟩ :=
      hstored.exists_request
    have hrequest : columnRequest tables column = some (.ok (mapping request)) := by
      rw [columnRequest, htype, demandedType_typeName, Option.map_some, hmode, decide_eq_true rfl,
        hstored.calculationParameters_eq, hrow]
    exact ⟨_, request, hidentity, hsame ▸ htype, haccepted, mem_collectIndicatorRequests hdigest
      hcollect (merged_mapping haccepted).normalizeRequest_eq (.inl ⟨column, hcolumn, hrequest⟩),
      hstored.emits hstates hsame hparameters hmapping⟩

end Emitting

section Concrete

/-- The two lists of digests. -/
def demandSha256 (text : List Char) : List Char :=
  ((sha256Rows ++ stateSha256Rows).lookup text).getD ('x' :: text)

theorem demandSha256_injective : Function.Injective demandSha256 :=
  getD_lookup_injective (by decide +kernel) (by decide +kernel)

def targetKey (target : Target WholeFloat) :
    ℕ ×ₗ ((ℕ ×ₗ ℕ) ⊕ₗ IndicatorRequest WholeFloat) :=
  toLex (target.code.ctorIdx, toLex (match target.parameters with
    | .maPair short long => .inl (toLex (short, long))
    | .request request => .inr request))

theorem targetKey_injective : Function.Injective targetKey := by
  rintro ⟨code, parameters⟩ ⟨code', parameters'⟩ h
  obtain ⟨hcode, hparameters⟩ := Prod.mk.inj (toLex_inj.mp h)
  cases StateCode.ctorIdx_injective hcode
  cases parameters <;> cases parameters' <;> cases hparameters <;> rfl

instance : LinearOrder (Target WholeFloat) := LinearOrder.lift' targetKey targetKey_injective

/-- A rule on the default periods of MA. -/
def crossUpRule : RuleRow WholeFloat :=
  { conditionType := .state
    indicatorType := some "MA".toList
    stateCode := some "MA_CROSS_UP".toList
    parameters := pairParameters 5 10
    parameterKey := stateParameterKey demandSha256 "MA_CROSS_UP".toList
      (pairParameters 5 10 : Parameters WholeFloat)
    field := none
    adjustType := "qfq".toList }

/-- A column of a state of KDJ, with the default periods. -/
def allRisingColumn : Column WholeFloat :=
  ⟨.indicator, some "KDJ".toList, some "KDJ_ALL_RISING".toList,
    [("d_period".toList, integerValue 3), ("k_period".toList, integerValue 3),
      ("period".toList, integerValue 9)], .status⟩

/-- The requests that are collected for the rule and the column, which ask for default ones. -/
def demandedDefaults : List (IndicatorRequest WholeFloat) :=
  [IndicatorType.ma, .boll, .kdj, .macd, .projectedMa, .rsi].map defaultParameters

set_option maxRecDepth 4000 in
theorem collectIndicatorRequests_defaults :
    collectIndicatorRequests latinTables demandSha256 [allRisingColumn] [crossUpRule] =
      .ok (demandedDefaults.map mapping) := rfl

theorem eq_defaultParameters (type : IndicatorType) {request : IndicatorRequest WholeFloat}
    (hmem : mapping request ∈ demandedDefaults.map mapping)
    (htype : some (typeName type) = some (typeName request.indicatorType)) :
    request = defaultParameters type := by
  obtain ⟨other, hother, heq⟩ := List.mem_map.mp hmem
  cases mapping_injective heq
  obtain ⟨type', -, rfl⟩ := List.mem_map.mp hother
  rw [defaultParameters_indicatorType] at htype
  rw [typeName_injective (Option.some.inj htype)]

/-- A bar for each day from 0 on, at one price. -/
def flatDays (days : ℕ) : Bars :=
  .ofList ((List.range days).map fun day : ℕ => ((day : ℤ), ⟨10, 10, 10, 10, 1, none⟩))

/-- The history that a recomputation leaves. -/
def recomputedHistory (bars : Bars) (t : Table Date (Variants WholeFloat)) :
    History WholeFloat where
  snapshots := t.filterMap fun _ variants => some ⟨none, variants⟩
  bars := bars
  calendar := ∅

theorem exists_valueOn {request : IndicatorRequest WholeFloat} {bars : Bars} {day : Date} (i : ℕ)
    (hday : bars.rows[i]?.map (·.1) = some day)
    (h : (((bars.rows.map (·.2)).mapM Candle.ofBar >>= seriesForRequest request).map
      fun out => out[i]?.join.isSome) = .ok true) : ∃ values, ValueOn request bars day values := by
  obtain ⟨⟨_, bar⟩, hbar, rfl⟩ := Option.map_eq_some_iff.mp hday
  obtain ⟨out, hout, hsome⟩ := Except.map_eq_ok.mp h
  obtain ⟨candles, hcandles, hout⟩ := Except.bind_eq_ok.mp hout
  obtain ⟨values, hvalues⟩ := Option.isSome_iff_exists.mp hsome
  exact ⟨values, candles, i, bar, hcandles, hbar, out, hout, Option.join_eq_some_iff.mp hvalues⟩

/-- On the tenth of ten days, the rule and the column have their states. -/
theorem crossUp_exists_emitted_state :
    ∃ t, recompute [defaultParameters .ma, defaultParameters .kdj] (flatDays 10) = .ok t ∧
      (∃! state, state ∈ (recomputedHistory (flatDays 10) t).rows 9 ∧
        targetIdentity demandSha256 state.target =
          ("MA_CROSS_UP".toList, crossUpRule.parameterKey)) ∧
      ∃ identity, columnIdentity latinTables demandSha256 allRisingColumn = some identity ∧
        ∃! state, state ∈ (recomputedHistory (flatDays 10) t).rows 9 ∧
          targetIdentity demandSha256 state.target = identity := by
  obtain ⟨hrules, hcolumns⟩ := exists_emitted_state demandSha256_injective.injOn
    demandSha256_injective.injOn collectIndicatorRequests_defaults
  have haccepted : ∀ other ∈ [defaultParameters .ma, defaultParameters .kdj],
      Accepted (other : IndicatorRequest WholeFloat) := by
    simp only [List.forall_mem_cons]
    exact ⟨trivial, trivial, nofun⟩
  obtain ⟨t, ht⟩ : ∃ t, recompute [(defaultParameters .ma : IndicatorRequest WholeFloat),
      defaultParameters .kdj] (flatDays 10) = .ok t :=
    Except.exists_of_isOk (by decide +kernel)
  have hsnapshot (variants : Variants WholeFloat) (hvariants : t.get? 9 = some variants) :
      (recomputedHistory (flatDays 10) t).snapshots.get? 9 = some ⟨none, variants⟩ := by
    simp [recomputedHistory, hvariants]
  refine ⟨t, ht, ?_, ?_⟩
  · have hfields : conditionFields latinTables demandSha256
        (⟨none, some " ma_cross_up".toList, [("short".toList, integerValue 5)], none⟩ :
          StateCondition WholeFloat) = .ok crossUpRule := rfl
    obtain ⟨stateCode, request, hcode, htype, -, hmem, hemits⟩ :=
      hrules _ crossUpRule List.mem_cons_self hfields
    cases hcode
    cases eq_defaultParameters .ma hmem htype
    obtain ⟨values, hvalues⟩ : ∃ values, ValueOn (defaultParameters .ma) (flatDays 10) 9 values :=
      exists_valueOn 9 (by decide +kernel) (by decide +kernel)
    obtain ⟨variants, hvariants, hunique⟩ :=
      hemits _ _ t 9 values List.mem_cons_self haccepted ht hvalues
    exact hunique _ _ (hsnapshot variants hvariants) rfl
  · have hadd : addStatusColumn latinTables
        (⟨.indicator, some " kdj_all_rising".toList, []⟩ : StatusRequest WholeFloat) =
          .ok allRisingColumn := rfl
    obtain ⟨identity, request, hidentity, htype, -, hmem, hemits⟩ :=
      hcolumns _ allRisingColumn List.mem_cons_self hadd
    cases eq_defaultParameters .kdj hmem htype
    obtain ⟨values, hvalues⟩ : ∃ values, ValueOn (defaultParameters .kdj) (flatDays 10) 9 values :=
      exists_valueOn 9 (by decide +kernel) (by decide +kernel)
    obtain ⟨variants, hvariants, hunique⟩ := hemits _ _ t 9 values
      (List.mem_cons_of_mem _ List.mem_cons_self) haccepted ht hvalues
    exact ⟨identity, hidentity, hunique _ _ (hsnapshot variants hvariants) rfl⟩

end Concrete

end Canonical

end Apanel
