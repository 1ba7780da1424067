import Apanel.Backend.StateDemand
import Apanel.Backend.AlertRules
import Apanel.Indicators.Fields

/-!
# The demand for values

Conditions on the values of an indicator name one of its fields (`canonical_indicator_field`,
`app/indicators/metadata.py`) and are accepted by `_condition_fields`
(`app/services/alert_service.py`). What `collect_indicator_requests` asks for is stored under their
key, and `resolve_value` reads their field from the bars on that it needs (`exists_resolved_value`).
-/

namespace Apanel

namespace Canonical

/-! ## Fields -/

section Names

variable {F : Type} [PyFloat F] (tables : CaseTables) (casefold : List Char → List Char)

def invalidField (message : String) : ParameterFailure := .api "INVALID_INDICATOR_FIELD" message 400

/-- `allowed` of `canonical_indicator_field`. -/
def allowedFields (known : IndicatorType) (params : Parameters F) : List (List Char) :=
  if known = .ma then (maPeriods params).map fun period => "MA".toList ++ integerText period
  else (staticFields known).map fieldName

/-- The given field, or the only one there is. -/
def selectField (allowed : List (List Char)) (fold : List Char → List Char)
    (field : Option (List Char)) (message : String) : Except ParameterFailure (List Char) :=
  if field.isNone ∧ allowed.length = 1 then .ok (allowed.headD [])
  else if fold (strip (field.getD [])) ∈ allowed then .ok (fold (strip (field.getD [])))
  else .error (invalidField message)

def canonicalIndicatorField (indicatorType : List Char) (parameters : Parameters F)
    (field : Option (List Char)) : Except ParameterFailure (List Char) :=
  normalizeIndicatorType tables indicatorType >>= fun indicator =>
    if indicator = "DIVIDEND_YIELD".toList then
      if field.all fun field => casefold (strip field) = "value".toList then .ok "value".toList
      else .error (invalidField "Dividend yield only exposes value.")
    else
      canonicalizeParameters tables true indicator (.object parameters) >>= fun params =>
        match typeNames.lookup indicator with
        | none => .error (.api "INVALID_INDICATOR" "Indicator is not supported." 400)
        | some known =>
          if known = .ma then
            selectField (allowedFields known params) (upperText tables) field
              "MA alert requires a specific MA period field."
          else
            selectField (allowedFields known params) casefold field "Indicator field is invalid."

omit [PyFloat F] in
theorem mem_of_selectField {allowed : List (List Char)} {fold : List Char → List Char}
    {field : Option (List Char)} {message : String} {name : List Char}
    (h : selectField allowed fold field message = .ok name) : name ∈ allowed := by
  rw [selectField] at h
  split_ifs at h with hnone hmem
  · cases h
    obtain ⟨only, rfl⟩ := List.length_eq_one_iff.mp hnone.2
    exact List.mem_singleton_self _
  · cases h
    exact hmem

variable {tables casefold}

/-- An accepted field of an indicator that is materialized is one that is allowed. -/
theorem canonicalIndicatorField_eq_ok {indicatorType indicator : List Char}
    (hname : normalizeIndicatorType tables indicatorType = .ok indicator)
    (hother : indicator ≠ "DIVIDEND_YIELD".toList) {parameters : Parameters F}
    {field : Option (List Char)} {name : List Char}
    (h : canonicalIndicatorField tables casefold indicatorType parameters field = .ok name) :
    ∃ known params, typeNames.lookup indicator = some known ∧
      canonicalizeParameters tables true indicator (.object parameters) = .ok params ∧
        name ∈ allowedFields known params := by
  rw [canonicalIndicatorField, hname, Except.ok_bind, if_neg hother] at h
  obtain ⟨params, hparams, h⟩ := Except.bind_eq_ok.mp h
  split at h
  · cases h
  · next known hknown =>
    refine ⟨known, params, hknown, hparams, ?_⟩
    split at h
    · exact mem_of_selectField h
    · exact mem_of_selectField h

/-- The names that are allowed are those of the fields of the request. -/
theorem exists_field {request : IndicatorRequest F} {c : Parameters F}
    (hc : IsCanonical tables true (some request.indicatorType) c)
    (hrequest : (mapping request).parameters = keyForm (typeName request.indicatorType) c)
    {name : List Char} (hname : name ∈ allowedFields request.indicatorType c) :
    ∃ field ∈ request.fields, fieldName field = name := by
  rw [allowedFields] at hname
  split at hname
  · next hma =>
    cases request with
    | ma periods =>
      obtain ⟨n, hn, rfl⟩ := List.mem_map.mp hname
      have hperiods := congrArg maPeriods hrequest
      change maPeriods [("periods".toList, periodsValue _)] = maPeriods (keyForm "MA".toList c)
        at hperiods
      rw [maPeriods_periodsValue, hc.maForm.keyForm_eq, maPeriods_periodsValue] at hperiods
      rw [← mem_sortedSet, ← hperiods] at hn
      obtain ⟨period, hperiod, rfl⟩ := List.mem_map.mp hn
      exact ⟨.ma period, List.mem_map_of_mem hperiod, rfl⟩
    | projectedMa | rsi | kdj | boll | macd => cases hma
  · next hother =>
    obtain ⟨field, hfield, rfl⟩ := List.mem_map.mp hname
    refine ⟨field, ?_, rfl⟩
    rw [IndicatorRequest.fields, if_neg]
    · exact hfield
    · exact fun hma => hother (of_decide_eq_true hma)

end Names

/-! ## Accepted conditions -/

/-- What a VALUE condition reads of the request of an alert rule, apart from the operator and the
threshold. -/
structure ValueCondition (F : Type) where
  indicator : Option (List Char)
  parameters : Parameters F
  field : Option (List Char)
  adjustType : Option (List Char)

section Accepting

variable {F : Type} [PyFloat F] (tables : CaseTables) (casefold digest : List Char → List Char)

/-- The part of `_condition_fields` for VALUE. -/
def valueConditionFields (condition : ValueCondition F) : Except ParameterFailure (RuleRow F) :=
  if selectedAdjustment tables condition.adjustType ∉ ["qfq".toList, "none".toList] then
    .error (invalidAlertRule "Adjustment must be qfq or none.")
  else
    match condition.indicator.filter (· ≠ []) with
    | none =>
      .error (invalidAlertRule "Value condition requires indicator, operator, and threshold.")
    | some indicator =>
      normalizeIndicatorType tables indicator >>= fun normalizedIndicator =>
        if normalizedIndicator = "DIVIDEND_YIELD".toList then
          parameterKey tables digest "DIVIDEND_YIELD".toList (.object ([] : Parameters F)) >>=
            fun selectedKey => .ok
              { conditionType := .value
                indicatorType := some normalizedIndicator
                stateCode := none
                parameters := []
                parameterKey := selectedKey
                field := some "value".toList
                adjustType := "none".toList }
        else
          canonicalizeParameters tables true normalizedIndicator (.object condition.parameters) >>=
            fun parameters =>
              canonicalIndicatorField tables casefold normalizedIndicator parameters
                condition.field >>= fun selectedField =>
                  parameterKey tables digest normalizedIndicator (.object parameters) >>=
                    fun selectedKey => .ok
                      { conditionType := .value
                        indicatorType := some normalizedIndicator
                        stateCode := none
                        parameters
                        parameterKey := selectedKey
                        field := some selectedField
                        adjustType := selectedAdjustment tables condition.adjustType }

end Accepting

section Accepted

variable {F : Type} [PyFloat F] [LawfulPyFloat F] {tables : CaseTables}
  {casefold digest : List Char → List Char}

/-- The request for an accepted condition, with the key and the field that its rule stores. -/
structure StoredValue (tables : CaseTables) (digest : List Char → List Char) (rule : RuleRow F)
    (request : IndicatorRequest F) (field : Field) : Prop where
  accepted : Accepted request
  asked : ∃ asked, ruleRequest tables rule = some (.ok asked) ∧
    normalizeRequest tables asked = .ok (mapping request)
  key : rule.parameterKey = requestKey digest (mapping request)
  mem : field ∈ request.fields
  name : rule.field = some (fieldName field)

theorem valueConditionFields_stored {condition : ValueCondition F} {rule : RuleRow F}
    (h : valueConditionFields tables casefold digest condition = .ok rule)
    (hother : rule.indicatorType ≠ some "DIVIDEND_YIELD".toList) :
    ∃ request field, StoredValue tables digest rule request field := by
  rw [valueConditionFields] at h
  split at h
  · cases h
  split at h
  · cases h
  obtain ⟨indicator, hindicator, h⟩ := Except.bind_eq_ok.mp h
  split at h
  · next hdividend =>
    obtain ⟨_, -, h⟩ := Except.bind_eq_ok.mp h
    cases h
    exact absurd (congrArg some hdividend) hother
  next hne =>
  obtain ⟨c, hc, h⟩ := Except.bind_eq_ok.mp h
  obtain ⟨name, hname, h⟩ := Except.bind_eq_ok.mp h
  obtain ⟨key, hkey, h⟩ := Except.bind_eq_ok.mp h
  cases h
  have hself := normalizeIndicatorType_idem hindicator
  have hcanonical := isCanonical_canonicalizeParameters hself hc
  obtain ⟨known, params, hknown, hparams, hallowed⟩ :=
    canonicalIndicatorField_eq_ok hself hne hname
  have hsame := hcanonical.canonicalizeParameters_eq hself id
  cases hsame.symm.trans hparams
  have hunfilled : canonicalizeParameters tables false indicator (.object c) = .ok c :=
    hcanonical.canonicalizeParameters_eq hself nofun
  -- the request as the merge keeps it
  have hnormalized : normalizeRequest tables ⟨indicator, c⟩ = .ok ⟨indicator, keyForm indicator c⟩ :=
    normalizeRequest_eq_ok.mpr ⟨indicator, c, hself, hsame, rfl⟩
  obtain ⟨request, haccepted, hmapping⟩ := exists_mapping (normalizeRequest_merged hnormalized) hknown
  obtain rfl : indicator = typeName request.indicatorType := by
    rw [← mapping_indicatorType, hmapping]
  rw [typeNames_lookup_typeName] at hknown hcanonical
  cases hknown
  obtain ⟨field, hfield, hfieldName⟩ :=
    exists_field hcanonical (congrArg Request.parameters hmapping) hallowed
  refine ⟨request, field, haccepted, ⟨_, ?_, hnormalized.trans (congrArg _ hmapping.symm)⟩, ?_, hfield,
    congrArg some hfieldName.symm⟩
  · have hvalue : ¬decide (ConditionType.value = ConditionType.state) = true := by decide
    rw [ruleRequest, demandedType_typeName, Option.map_some, rowRequest, if_neg hvalue, hsame]
    rfl
  · obtain ⟨c', hc', hkey⟩ := (parameterKey_eq_ok hself).mp hkey
    cases hunfilled.symm.trans hc'
    rw [hkey, requestKey, hmapping]

end Accepted

/-! ## Reading the value -/

section Reading

variable {F : Type} [Arith F]

variable [LinearOrder (IndicatorRequest F)]

/-- Where the series of the request is calculated and there are the bars that the field needs, the
snapshot holds its value under the key of the request, whatever else is requested. -/
def Resolves (request : IndicatorRequest F) (field : Field) : Prop :=
  ∀ (requests : List (IndicatorRequest F)) (bars : Bars) (t : Table Date (Variants F))
    (candles : List (Candle F)) (i : ℕ) (day : Date) (bar : DailyBar), request ∈ requests →
      recompute requests bars = .ok t → (bars.rows.map (·.2)).mapM Candle.ofBar = .ok candles →
        Calculates request candles → bars.rows[i]? = some (day, bar) →
          fieldBars request field ≤ i + 1 → ∃ variants, t.get? day = some variants ∧
            ∀ row : SnapshotRow F, row.variants = variants →
              (snapshotValue row request field).isSome

theorem resolves {request : IndicatorRequest F} {field : Field} (hfield : field ∈ request.fields) :
    Resolves request field := by
  intro requests bars t candles i day bar hmem ht hcandles hcalculates hbar hbars
  obtain ⟨out, hout⟩ := hcalculates
  have hi : i < out.length := by
    rw [(calculateSeries_causal request).length hout, (Causal.mapM _).length hcandles,
      List.length_map]
    exact (List.getElem?_eq_some_iff.mp hbar).1
  obtain ⟨values, hvalues, hfields⟩ := calculateSeries_field hfield hout hi hbars
  obtain ⟨variants, variant, hvariants, hvariant, rfl⟩ := (mem_recompute ht).mpr
    ⟨hmem, candles, i, bar, hcandles, hbar, out, seriesForRequest_of_ok hout, hvalues⟩
  refine ⟨variants, hvariants, fun row hrow => ?_⟩
  subst hrow
  obtain ⟨x, hx, hfinite⟩ := hfields field (List.mem_singleton_self _)
  have hvalue : fieldValue variant.values field = some x := by
    rw [fieldValue, hx]
    exact Option.filter_eq_some_iff.mpr ⟨rfl, hfinite⟩
  rw [snapshotValue, selectSnapshotVariant, hvariant]
  simp [hvalue]

end Reading

section Chain

variable {F : Type} [PyFloat F] [LawfulPyFloat F] [Arith F] [LinearOrder (IndicatorRequest F)]
  {tables : CaseTables} {casefold digest : List Char → List Char}

/-- The accepted rules on values of a materialized indicator have a request in the demand, the only
one with their key, and its snapshots hold their field. -/
theorem exists_resolved_value (hdigest : DigestInjective F digest) {columns : List (Column F)}
    {rules : List (RuleRow F)} {out : List (Request F)}
    (hcollect : collectIndicatorRequests tables digest columns rules = .ok out) :
    ∀ condition, ∀ rule ∈ rules, valueConditionFields tables casefold digest condition = .ok rule →
      rule.indicatorType ≠ some "DIVIDEND_YIELD".toList →
        ∃ request field, Accepted request ∧ mapping request ∈ out ∧
          (∀ other, Accepted other →
            (requestKey digest (mapping other) = rule.parameterKey ↔ other = request)) ∧
          rule.field = some (fieldName field) ∧ Resolves request field := by
  intro condition rule hrule hfields hother
  obtain ⟨request, field, h⟩ := valueConditionFields_stored hfields hother
  obtain ⟨asked, hasked, hnormalized⟩ := h.asked
  refine ⟨request, field, h.accepted, mem_collectIndicatorRequests hdigest hcollect hnormalized
    (.inr ⟨rule, hrule, hasked⟩), fun other haccepted => ?_, h.name, resolves h.mem⟩
  have hmerged : Merged tables (mapping other) := merged_mapping haccepted
  rw [h.key]
  constructor
  · intro hkey
    exact mapping_injective (hmerged.requestKey_injective hdigest (merged_mapping h.accepted) hkey)
  · rintro rfl
    rfl

end Chain

section Concrete

/-- A rule on the default RSI. -/
def rsiRule : RuleRow WholeFloat :=
  { conditionType := .value
    indicatorType := some "RSI".toList
    stateCode := none
    parameters := wholePeriod 14
    parameterKey := keyText sha256 "RSI".toList (wholePeriod 14)
    field := some "value".toList
    adjustType := "qfq".toList }

/-- On the fifteenth day, the rule reads the value of the request that has its key. -/
theorem rsiRule_exists_resolved_value :
    let request : IndicatorRequest WholeFloat := defaultParameters .rsi
    requestKey sha256 (mapping request) = rsiRule.parameterKey ∧
      ∃ t variants, recompute [request] (flatDays 15) = .ok t ∧ t.get? 14 = some variants ∧
        (snapshotValue ⟨none, variants⟩ request .value).isSome := by
  intro request
  obtain ⟨out, hout⟩ : ∃ out, collectIndicatorRequests latinTables sha256 [] [rsiRule] = .ok out :=
    Except.exists_of_isOk (by decide +kernel)
  have hfields : valueConditionFields latinTables latinTables.lower sha256
      (⟨some " rsi".toList, [(" Period ".toList, .number (.float ⟨14, by decide⟩))], none, none⟩ :
        ValueCondition WholeFloat) = .ok rsiRule := rfl
  obtain ⟨found, field, -, -, hunique, hname, hresolves⟩ :=
    exists_resolved_value digestInjective_sha256 hout _ rsiRule List.mem_cons_self hfields
      (by decide)
  have hkey : requestKey sha256 (mapping request) = rsiRule.parameterKey := rfl
  obtain rfl := (hunique request trivial).mp hkey
  have hfield : field = .value := by
    cases field with
    | value => rfl
    | _ => cases hname
  subst hfield
  obtain ⟨t, ht⟩ : ∃ t, recompute [request] (flatDays 15) = .ok t :=
    Except.exists_of_isOk (by decide +kernel)
  obtain ⟨series, hseries⟩ : ∃ series, (((flatDays 15).rows.map (·.2)).mapM Candle.ofBar >>=
      calculateSeries request) = .ok series :=
    Except.exists_of_isOk (by decide +kernel)
  obtain ⟨candles, hcandles, hseries⟩ := Except.bind_eq_ok.mp hseries
  have hday : (flatDays 15).rows[14]?.map (·.1) = some 14 := by decide +kernel
  obtain ⟨⟨_, bar⟩, hbar, rfl⟩ := Option.map_eq_some_iff.mp hday
  obtain ⟨variants, hvariants, hvalue⟩ := hresolves _ _ t candles 14 _ bar List.mem_cons_self ht
    hcandles ⟨series, hseries⟩ hbar (by decide)
  exact ⟨hkey, t, variants, ht, hvariants, hvalue _ rfl⟩

end Concrete

end Canonical

end Apanel
