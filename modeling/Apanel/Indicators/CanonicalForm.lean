import Apanel.Indicators.Canonical
import Mathlib.Data.List.Dedup
import Mathlib.Data.Bool.AllAny

/-!
# Canonical parameters stay as they are

What the canonicalization returns has sorted names and values that another pass leaves alone
(`isCanonical_canonicalizeParameters`), so canonicalizing twice is canonicalizing once.
-/

namespace Apanel

namespace Canonical

/-! ## Names -/

section Names

variable {tables : CaseTables}

theorem mem_of_lookup {α β : Type} [BEq α] [LawfulBEq α] {l : List (α × β)} {a : α} {b : β}
    (h : l.lookup a = some b) : (a, b) ∈ l := by
  obtain ⟨front, back, rfl, -⟩ := List.lookup_eq_some_iff.mp h
  exact List.mem_append_right _ List.mem_cons_self

theorem isspace_underscore {c : Char} (h : isspace c = false) : isspace (underscore c) = false := by
  rw [underscore]
  split
  · decide
  · exact h

theorem strip_eq_self_iff {text : List Char} :
    strip text = text ↔
      (∀ c ∈ text.head?, isspace c = false) ∧ ∀ c ∈ text.getLast?, isspace c = false := by
  have hfront : (∀ c ∈ text.head?, isspace c = false) ↔ text.dropWhile isspace = text := by
    rw [List.dropWhile_eq_self_iff]
    cases text <;> simp
  have hback : (∀ c ∈ text.getLast?, isspace c = false) ↔ text.rdropWhile isspace = text := by
    rw [List.rdropWhile_eq_self_iff]
    cases text with
    | nil => simp
    | cons c text => simp [List.getLast?_eq_some_getLast]
  rw [hfront, hback, strip]
  constructor
  · intro h
    have hlength : (text.dropWhile isspace).length = text.length := by
      refine le_antisymm (List.dropWhile_suffix _).length_le ?_
      conv_lhs => rw [← h]
      exact (List.rdropWhile_prefix _ _).length_le
    have hdrop := (List.dropWhile_suffix isspace).eq_of_length hlength
    rw [hdrop] at h
    exact ⟨hdrop, h⟩
  · rintro ⟨hdrop, hrdrop⟩
    rw [hdrop, hrdrop]

theorem head?_flatMap {α β : Type} {f : α → List β} (hf : ∀ a, f a ≠ []) {l : List α} {b : β}
    (h : b ∈ (l.flatMap f).head?) : ∃ a ∈ l.head?, b ∈ f a := by
  cases l with
  | nil => cases h
  | cons a l =>
    refine ⟨a, rfl, ?_⟩
    rw [List.flatMap_cons, List.head?_append_of_ne_nil _ (hf a)] at h
    exact List.mem_of_mem_head? h

theorem getLast?_flatMap {α β : Type} {f : α → List β} (hf : ∀ a, f a ≠ []) {l : List α} {b : β}
    (h : b ∈ (l.flatMap f).getLast?) : ∃ a ∈ l.getLast?, b ∈ f a := by
  rcases List.eq_nil_or_concat l with rfl | ⟨front, a, rfl⟩
  · cases h
  · rw [List.concat_eq_append] at h ⊢
    refine ⟨a, List.getLast?_concat, ?_⟩
    rw [List.flatMap_append, List.flatMap_singleton, List.getLast?_append_of_ne_nil _ (hf a)] at h
    exact List.mem_of_getLast? h

/-- The type names that stay as they are. -/
structure IsTypeName (tables : CaseTables) (text : List Char) : Prop where
  strip_eq : strip text = text
  ne_nil : text ≠ []
  fixed : ∀ c ∈ text, tables.upper c = [c] ∧ underscore c = c
  notAlias : indicatorAliases.lookup text = none

theorem IsTypeName.normalize_eq {text : List Char} (h : IsTypeName tables text) :
    normalizeIndicatorType tables text = .ok text := by
  have hupper : text.flatMap tables.upper = text := by
    rw [List.flatMap_congr fun c hc => (h.fixed c hc).1, List.flatMap_singleton']
  have hunderscore : text.map underscore = text := by
    rw [List.map_congr_left fun c hc => (h.fixed c hc).2, List.map_id']
  have hname : upperName tables text = text := by rw [upperName, h.strip_eq, hupper, hunderscore]
  rw [normalizeIndicatorType, h.strip_eq, if_neg h.ne_nil, hname, h.notAlias]
  rfl

theorem isTypeName_of_ascii {text : List Char} (hstrip : strip text = text) (hne : text ≠ [])
    (hfixed : text.all fun c => (c.toNat < 128 ∧ c.toUpper = c) ∧ underscore c = c)
    (halias : indicatorAliases.lookup text = none) : IsTypeName tables text where
  strip_eq := hstrip
  ne_nil := hne
  fixed c hc := by
    obtain ⟨⟨hascii, hupper⟩, hunderscore⟩ := List.all_iff_forall_prop.mp hfixed c hc
    exact ⟨by rw [tables.upper_ascii hascii, hupper], hunderscore⟩
  notAlias := halias

theorem isTypeName_typeName (type : IndicatorType) : IsTypeName tables (typeName type) := by
  cases type <;> exact isTypeName_of_ascii (by decide) (by decide) (by decide) (by decide)

theorem normalize_isTypeName {value type : List Char}
    (h : normalizeIndicatorType tables value = .ok type) : IsTypeName tables type := by
  rw [normalizeIndicatorType] at h
  split at h
  · cases h
  · next hne =>
    cases halias : indicatorAliases.lookup (upperName tables value) with
    | some target =>
      rw [halias] at h
      cases h
      have htarget := mem_of_lookup halias
      have hnames : target ∈ [IndicatorType.ma, .projectedMa, .boll].map typeName := by
        revert htarget
        generalize upperName tables value = name
        simp only [indicatorAliases, List.mem_cons, Prod.mk.injEq, List.not_mem_nil, or_false]
        rintro (⟨-, rfl⟩ | ⟨-, rfl⟩ | ⟨-, rfl⟩ | ⟨-, rfl⟩) <;> decide
      obtain ⟨type, -, rfl⟩ := List.mem_map.mp hnames
      exact isTypeName_typeName type
    | none =>
      rw [halias] at h
      cases h
      have hends := strip_eq_self_iff.mp (strip_strip value)
      have hspace {c d : Char} (hc : isspace c = false) (hd : d ∈ tables.upper c) :
          isspace (underscore d) = false :=
        isspace_underscore (tables.isspace_upper hc hd)
      refine ⟨strip_eq_self_iff.mpr ⟨fun c hc => ?_, fun c hc => ?_⟩, ?_, fun c hc => ?_, halias⟩
      · rw [Option.getD_none, upperName, List.head?_map] at hc
        obtain ⟨d, hd, rfl⟩ := Option.map_eq_some_iff.mp hc
        obtain ⟨e, he, hde⟩ := head?_flatMap tables.upper_ne_nil hd
        exact hspace (hends.1 e he) hde
      · rw [Option.getD_none, upperName, List.getLast?_map] at hc
        obtain ⟨d, hd, rfl⟩ := Option.map_eq_some_iff.mp hc
        obtain ⟨e, he, hde⟩ := getLast?_flatMap tables.upper_ne_nil hd
        exact hspace (hends.2 e he) hde
      · obtain ⟨c, rest, hvalue⟩ := List.exists_cons_of_ne_nil hne
        rw [Option.getD_none, upperName, hvalue, List.flatMap_cons, ne_eq, List.map_eq_nil_iff,
          List.append_eq_nil_iff]
        exact fun hnil => tables.upper_ne_nil c hnil.1
      · rw [Option.getD_none, upperName] at hc
        obtain ⟨d, hd, rfl⟩ := List.mem_map.mp hc
        obtain ⟨e, -, hde⟩ := List.mem_flatMap.mp hd
        rw [underscore]
        split
        · exact ⟨tables.upper_ascii (by decide), by decide⟩
        · next hne => exact ⟨tables.upper_upper hde, if_neg hne⟩

theorem normalizeIndicatorType_idem {value type : List Char}
    (h : normalizeIndicatorType tables value = .ok type) :
    normalizeIndicatorType tables type = .ok type :=
  (normalize_isTypeName h).normalize_eq

end Names

section Raw

variable {F : Type} {tables : CaseTables} {type : Option IndicatorType}

/-- The parameter names that stay as they are. -/
structure IsName (tables : CaseTables) (type : Option IndicatorType) (name : List Char) : Prop where
  nonblank : strip name ≠ []
  fixed : parameterName tables type name = name

theorem isName_of_ascii {name : List Char} (hstrip : strip name = name) (hne : name ≠ [])
    (hascii : ∀ c ∈ name, c.toNat < 128 ∧ c.toLower = c)
    (halias : name ∉ ["std".toList, "stddev".toList, "std_dev".toList]) :
    IsName tables type name where
  nonblank := hstrip.symm ▸ hne
  fixed := by
    have hlower : tables.lower (strip name) = name := by
      rw [hstrip, tables.lower_ascii _ fun c hc => (hascii c hc).1,
        List.map_congr_left fun c hc => (hascii c hc).2, List.map_id']
    rw [parameterName, hlower, if_neg fun h => halias h.2]

theorem isName_parameterKeys {known : IndicatorType} {name : List Char}
    (h : name ∈ parameterKeys known) : IsName tables type name := by
  have hall : ∀ known : IndicatorType, ∀ name ∈ parameterKeys known, strip name = name ∧ name ≠ [] ∧
      (name.all fun c => c.toNat < 128 ∧ c.toLower = c) ∧
        name ∉ ["std".toList, "stddev".toList, "std_dev".toList] := by
    intro known
    cases known <;> decide
  obtain ⟨hstrip, hne, hascii, halias⟩ := hall known name h
  exact isName_of_ascii hstrip hne (List.all_iff_forall_prop.mp hascii) halias

theorem isName_parameterName {key : List Char} (h : strip key ≠ []) :
    IsName tables type (parameterName tables type key) := by
  have hstrip : strip (tables.lower (strip key)) = tables.lower (strip key) :=
    tables.strip_lower _ (strip_strip key)
  by_cases halias : type = some .boll ∧
      tables.lower (strip key) ∈ ["std".toList, "stddev".toList, "std_dev".toList]
  · rw [parameterName, if_pos halias]
    have hkey : "multiplier".toList ∈ parameterKeys .boll := by decide
    exact isName_parameterKeys hkey
  · rw [parameterName, if_neg halias]
    refine ⟨?_, ?_⟩
    · rw [hstrip]
      exact tables.lower_ne_nil h
    · rw [parameterName, hstrip, tables.lower_lower, if_neg halias]

theorem setItem_names (raw : Parameters F) (key : List Char) (value : Json (Number F)) :
    (setItem raw key value).map (·.1) =
      if key ∈ raw.map (·.1) then raw.map (·.1) else raw.map (·.1) ++ [key] := by
  induction raw with
  | nil => rfl
  | cons m raw ih =>
    rw [setItem]
    by_cases h : m.1 = key
    · simp [h]
    · have hne : key ≠ m.1 := fun e => h e.symm
      rw [if_neg h, List.map_cons, ih, List.map_cons]
      simp only [List.mem_cons, hne, false_or]
      split <;> rfl

theorem lookup_cons_ite {β : Type} (m : List Char × β) (l : List (List Char × β)) (a : List Char) :
    (m :: l).lookup a = if a = m.1 then some m.2 else l.lookup a := by
  rw [List.lookup_cons]
  by_cases h : a = m.1
  · rw [beq_iff_eq.mpr h, if_pos h]
  · rw [beq_eq_false_iff_ne.mpr h, if_neg h]

theorem lookup_setItem (raw : Parameters F) (key name : List Char) (value : Json (Number F)) :
    (setItem raw key value).lookup name = if name = key then some value else raw.lookup name := by
  induction raw with
  | nil => rw [setItem, lookup_cons_ite]
  | cons m raw ih =>
    rw [setItem]
    by_cases h : m.1 = key
    · rw [if_pos h, lookup_cons_ite, lookup_cons_ite, h]
      by_cases hname : name = key
      · rw [if_pos hname, if_pos hname]
      · rw [if_neg hname, if_neg hname, if_neg hname]
    · rw [if_neg h, lookup_cons_ite, lookup_cons_ite, ih]
      by_cases hname : name = m.1
      · have hne : name ≠ key := hname ▸ h
        rw [if_pos hname, if_neg hne, if_pos hname]
      · rw [if_neg hname, if_neg hname]

variable [PyFloat F]

/-- The names of the loop are different, and stay as they are. -/
theorem rawParameters_names {parameters raw out : Parameters F}
    (h : rawParameters tables type parameters raw = .ok out) (hnodup : (raw.map (·.1)).Nodup)
    (hnames : ∀ name ∈ raw.map (·.1), IsName tables type name) :
    (out.map (·.1)).Nodup ∧ ∀ name ∈ out.map (·.1), IsName tables type name := by
  induction parameters generalizing raw with
  | nil => cases h; exact ⟨hnodup, hnames⟩
  | cons m parameters ih =>
    rw [rawParameters] at h
    split_ifs at h with hblank hconflict
    refine ih h ?_ ?_
    · rw [setItem_names]
      split
      · exact hnodup
      · next hmem => exact List.nodup_append'.mpr ⟨hnodup, List.nodup_singleton _, by simpa using hmem⟩
    · intro name hname
      rw [setItem_names] at hname
      split at hname
      · exact hnames name hname
      · rcases List.mem_append.mp hname with hname | hname
        · exact hnames name hname
        · rw [List.mem_singleton.mp hname]
          exact isName_parameterName hblank

/-- The value that a mapping gives a name: that of its last spelling. -/
def given (tables : CaseTables) (type : Option IndicatorType) (parameters : Parameters F)
    (name : List Char) : Option (Json (Number F)) :=
  (parameters.filter fun m => parameterName tables type m.1 = name).getLast?.map (·.2)

theorem lookup_rawParameters {parameters raw out : Parameters F}
    (h : rawParameters tables type parameters raw = .ok out) (name : List Char) :
    out.lookup name = (given tables type parameters name).or (raw.lookup name) := by
  induction parameters generalizing raw with
  | nil => cases h; rfl
  | cons m parameters ih =>
    rw [rawParameters] at h
    split_ifs at h with hblank hconflict
    rw [ih h, lookup_setItem, given, given, List.filter_cons]
    by_cases hname : parameterName tables type m.1 = name
    · rw [if_pos hname.symm, if_pos (decide_eq_true hname), List.getLast?_cons]
      cases (parameters.filter _).getLast? <;> rfl
    · rw [if_neg (Ne.symm hname), if_neg (by simpa using hname)]

/-- Parameters whose names stay as they are pass the loop as they are. -/
theorem rawParameters_eq_self {parameters raw : Parameters F}
    (hnodup : ((raw ++ parameters).map (·.1)).Nodup)
    (hnames : ∀ m ∈ parameters, IsName tables type m.1) :
    rawParameters tables type parameters raw = .ok (raw ++ parameters) := by
  induction parameters generalizing raw with
  | nil => rw [rawParameters, List.append_nil]
  | cons m parameters ih =>
    obtain ⟨hm, hparameters⟩ := List.forall_mem_cons.mp hnames
    have hnew : m.1 ∉ raw.map (·.1) := by
      rw [List.map_append, List.map_cons] at hnodup
      exact fun hmem => (List.disjoint_of_nodup_append hnodup) hmem List.mem_cons_self
    have hset : setItem raw m.1 m.2 = raw ++ [m] := by
      clear ih hnodup
      induction raw with
      | nil => rfl
      | cons r raw ih =>
        rw [List.map_cons, List.mem_cons, not_or] at hnew
        rw [setItem, if_neg (Ne.symm hnew.1), ih hnew.2]
        rfl
    have hlookup : raw.lookup m.1 = none := by
      refine List.lookup_eq_none_iff.mpr fun r hr => ?_
      rw [bne_iff_ne]
      exact fun e => hnew (List.mem_map.mpr ⟨r, hr, e.symm⟩)
    rw [rawParameters, if_neg hm.nonblank, hm.fixed, hlookup, if_neg (by simp), hset,
      ih (by rwa [List.append_assoc, List.singleton_append]) hparameters, List.append_assoc,
      List.singleton_append]

end Raw

/-! ## Values -/

section Values

variable {F : Type} [PyFloat F]

/-- The numbers that stay as they are. -/
def FixedNumber (n : Number F) : Prop := normalizeNumber n = .ok n

theorem normalizeNumber_eq {m n : Number F} (h : normalizeNumber m = .ok n) : m = n := by
  cases m <;> rw [normalizeNumber] at h <;> split at h <;> cases h <;> rfl

theorem normalizeJsonItems_eq (items : List (Json (Number F))) :
    normalizeJsonItems items = items.mapM normalizeJsonValue := by
  induction items with
  | nil => rfl
  | cons item items ih =>
    rw [normalizeJsonItems, List.mapM_cons, ih]
    rfl

theorem normalizeJsonMembers_eq (members : Parameters F) :
    normalizeJsonMembers members = members.map fun m => (m.1, normalizeJsonValue m.2) := by
  induction members with
  | nil => rfl
  | cons m members ih => rw [normalizeJsonMembers, ih, List.map_cons]

theorem mapM_names {ε α β : Type} {f : List Char × α → Except ε (List Char × β)}
    (hf : ∀ x y, f x = .ok y → y.1 = x.1) {xs : List (List Char × α)} {ys : List (List Char × β)}
    (h : xs.mapM f = .ok ys) : ys.map (·.1) = xs.map (·.1) := by
  induction xs generalizing ys with
  | nil => cases h; rfl
  | cons x xs ih =>
    obtain ⟨y, ys, hy, hys, rfl⟩ := mapM_cons_eq_ok.mp h
    rw [List.map_cons, List.map_cons, hf x y hy, ih hys]

/-- What `_normalize_json_value` returns is in the canonical form. Induction on the value. -/
theorem canonical_normalizeJsonValue {value out : Json (Number F)}
    (h : normalizeJsonValue value = .ok out) : Json.Canonical FixedNumber out := by
  induction value using Json.induction generalizing out with
  | null => cases h; exact .null
  | bool value => cases h; exact .bool value
  | number n =>
    obtain ⟨m, hm, rfl⟩ := Except.map_eq_ok.mp h
    refine .number ?_
    cases normalizeNumber_eq hm
    exact hm
  | string text => cases h; exact .string text
  | array items ih =>
    rw [normalizeJsonValue, normalizeJsonItems_eq] at h
    obtain ⟨outs, houts, rfl⟩ := Except.map_eq_ok.mp h
    refine .array fun out hout => ?_
    obtain ⟨item, hitem, hitem'⟩ := (mem_of_mapM houts).mp hout
    exact ih item hitem hitem'
  | object members ih =>
    rw [normalizeJsonValue, normalizeJsonMembers_eq, sortedMembers] at h
    obtain ⟨outs, houts, rfl⟩ := Except.map_eq_ok.mp h
    refine .object ?_ fun out hout => ?_
    · have hsorted := (Table.ofList (members.map fun m => (m.1, normalizeJsonValue m.2))).keys_sorted
      have hnames := mapM_names (fun m out hout => by
        obtain ⟨value, -, rfl⟩ := Except.map_eq_ok.mp hout
        rfl) houts
      rw [Table.keys, ← hnames] at hsorted
      exact List.pairwise_map.mp hsorted
    · obtain ⟨m, hm, hmap⟩ := (mem_of_mapM houts).mp hout
      obtain ⟨value, hvalue, rfl⟩ := Except.map_eq_ok.mp hmap
      rcases Table.of_get?_insertMany (Table.get?_eq_some.mpr hm) with hmem | hmem
      · obtain ⟨m', hm', heq⟩ := List.mem_map.mp hmem
        exact ih m' hm' ((Prod.mk.inj heq).2.trans hvalue)
      · cases hmem

/-- The canonical form stays as it is. -/
theorem normalizeJsonValue_eq_self {value : Json (Number F)}
    (h : Json.Canonical FixedNumber value) : normalizeJsonValue value = .ok value := by
  induction h with
  | null | bool | string => rfl
  | number h =>
    rw [normalizeJsonValue, h]
    rfl
  | array _ ih =>
    rw [normalizeJsonValue, normalizeJsonItems_eq, mapM_eq_ok_map (g := id) ih, List.map_id]
    rfl
  | @object members sorted _ ih =>
    have hpairs : members.map (fun m => (m.1, normalizeJsonValue m.2)) =
        members.map fun m => (m.1, Except.ok m.2) :=
      List.map_congr_left fun m hm => by rw [ih m hm]
    have hpairsSorted : (members.map fun m =>
        (m.1, (Except.ok m.2 : Except ParameterFailure (Json (Number F))))).Pairwise (·.1 < ·.1) :=
      List.pairwise_map.mpr sorted
    have hrows := Table.ofList_rows hpairsSorted
    have hself : members.mapM ((fun m : List Char × Except ParameterFailure (Json (Number F)) =>
        (fun value => (m.1, value)) <$> m.2) ∘ fun m => (m.1, Except.ok m.2)) =
          .ok (members.map id) := mapM_eq_ok_map fun _ _ => rfl
    rw [normalizeJsonValue, normalizeJsonMembers_eq, sortedMembers, hpairs, hrows, List.mapM_map,
      hself, List.map_id]
    rfl

/-- The numbers that the normalization of values accepts. -/
def ValidNumber : Number F → Prop
  | .int _ => True
  | .float x => PyFloat.isFinite x

theorem FixedNumber.valid {n : Number F} (h : FixedNumber n) : ValidNumber n := by
  cases n with
  | int n => trivial
  | float x =>
    rw [FixedNumber, normalizeNumber] at h
    split at h
    · next hfinite => exact hfinite
    · cases h

theorem normalizeInteger_eq_ok {key : List Char} {value : Json (Number F)} {n : ℤ} :
    normalizeInteger key value = .ok n ↔ asInteger value = some n ∧ 0 < n ∧ n ≤ 10000 := by
  rw [normalizeInteger]
  cases asInteger value with
  | none => simp
  | some m =>
    simp only [Option.some.injEq]
    constructor
    · intro h
      split_ifs at h with hpos hmax
      cases h
      exact ⟨rfl, by omega, by omega⟩
    · rintro ⟨rfl, hpos, hmax⟩
      rw [if_neg (by omega), if_neg (by omega)]

theorem normalizeFloat_eq_ok {key : List Char} {value : Json (Number F)} {x : F} :
    normalizeFloat key value = .ok x ↔
      asFloat key value = .ok x ∧ PyFloat.isFinite x ∧ PyFloat.isPositive x := by
  rw [normalizeFloat, Except.bind_eq_ok]
  constructor
  · rintro ⟨y, hy, h⟩
    split at h
    · next hvalid =>
      cases h
      exact ⟨hy, by simpa using hvalid⟩
    · cases h
  · rintro ⟨hx, hfinite, hpos⟩
    exact ⟨x, hx, if_pos (by rw [hfinite, hpos]; rfl)⟩

theorem normalizeParameterValue_idem {key : List Char} {value out : Json (Number F)}
    (h : normalizeParameterValue key value = .ok out) :
    normalizeParameterValue key out = .ok out ∧ Json.Canonical ValidNumber out := by
  rw [normalizeParameterValue] at h ⊢
  split at h
  · next hkey =>
    obtain ⟨n, hn, rfl⟩ := Except.map_eq_ok.mp h
    rw [if_pos hkey]
    exact ⟨Except.map_eq_ok.mpr ⟨n, normalizeInteger_eq_ok.mpr
      ⟨rfl, (normalizeInteger_eq_ok.mp hn).2⟩, rfl⟩, .number trivial⟩
  · next hkey =>
    obtain ⟨x, hx, rfl⟩ := Except.map_eq_ok.mp h
    obtain ⟨-, hfinite, hpos⟩ := normalizeFloat_eq_ok.mp hx
    rw [if_neg hkey]
    exact ⟨Except.map_eq_ok.mpr ⟨x, normalizeFloat_eq_ok.mpr ⟨rfl, hfinite, hpos⟩, rfl⟩,
      .number hfinite⟩

theorem normalizeValue_some (known : IndicatorType) (m : List Char × Json (Number F)) :
    normalizeValue (some known) m = (fun value => (m.1, value)) <$> normalizeParameterValue m.1 m.2 :=
  rfl

theorem normalizeValue_idem {type : Option IndicatorType} {m out : List Char × Json (Number F)}
    (h : normalizeValue type m = .ok out) :
    out.1 = m.1 ∧ normalizeValue type out = .ok out ∧ Json.Canonical ValidNumber out.2 := by
  obtain ⟨value, hvalue, rfl⟩ := Except.map_eq_ok.mp h
  cases type with
  | some type =>
    obtain ⟨hidem, hcanonical⟩ := normalizeParameterValue_idem hvalue
    exact ⟨rfl, Except.map_eq_ok.mpr ⟨value, hidem, rfl⟩, hcanonical⟩
  | none =>
    have hcanonical := canonical_normalizeJsonValue hvalue
    exact ⟨rfl, Except.map_eq_ok.mpr ⟨value, normalizeJsonValue_eq_self hcanonical, rfl⟩,
      hcanonical.mono fun _ => FixedNumber.valid⟩

end Values

/-! ## The canonical form -/

section SortedSet

theorem mem_sortedSet {periods : List ℤ} {n : ℤ} : n ∈ sortedSet periods ↔ n ∈ periods := by
  rw [sortedSet, List.mem_insertionSort, List.mem_dedup]

theorem sortedSet_sorted (periods : List ℤ) : (sortedSet periods).Pairwise (· < ·) := by
  have hle : (sortedSet periods).Pairwise (· ≤ ·) := List.pairwise_insertionSort _ _
  have hne : (sortedSet periods).Nodup :=
    (List.perm_insertionSort _ _).nodup_iff.mpr (List.nodup_dedup periods)
  exact (hle.and hne).imp fun h => lt_of_le_of_ne h.1 h.2

/-- A sorted set is determined by its elements. -/
theorem eq_of_sorted_of_mem {α : Type} [LinearOrder α] {l l' : List α} (hl : l.Pairwise (· < ·))
    (hl' : l'.Pairwise (· < ·)) (hmem : ∀ n, n ∈ l ↔ n ∈ l') : l = l' := by
  have hperm : l.Perm l' := (List.perm_ext_iff_of_nodup (hl.imp ne_of_lt) (hl'.imp ne_of_lt)).mpr hmem
  exact hperm.eq_of_pairwise (fun _ _ _ _ h h' => absurd h' h.asymm) hl hl'

theorem sortedSet_eq_self {periods : List ℤ} (h : periods.Pairwise (· < ·)) :
    sortedSet periods = periods :=
  eq_of_sorted_of_mem (sortedSet_sorted periods) h fun _ => mem_sortedSet

end SortedSet

section Fixed

variable {F : Type} [PyFloat F] {tables : CaseTables} {type : Option IndicatorType}
  {fillDefaults : Bool}

/-- Canonical parameters: sorted names and values that stay as they are, also without defaults. -/
structure IsCanonical (tables : CaseTables) (fillDefaults : Bool) (type : Option IndicatorType)
    (c : Parameters F) : Prop where
  sorted : c.Pairwise (·.1 < ·.1)
  names : ∀ m ∈ c, IsName tables type m.1
  values : ∀ m ∈ c, Json.Canonical ValidNumber m.2
  fixed : ∀ fill : Bool, (fill → fillDefaults) → canonicalizeRaw fill type c = .ok c

/-- What the canonicalization does for MA. -/
inductive MaForm (fillDefaults : Bool) : Parameters F → Prop
  | period {n : ℤ} (valid : 0 < n ∧ n ≤ 10000) : MaForm fillDefaults [("period".toList, integerValue n)]
  | periods {periods : List ℤ} (sorted : periods.Pairwise (· < ·)) (nonempty : periods ≠ [])
    (valid : ∀ n ∈ periods, 0 < n ∧ n ≤ 10000) (length : periods.length ≤ 32) :
    MaForm fillDefaults [("periods".toList, periodsValue periods)]
  | none : fillDefaults = false → MaForm fillDefaults []

theorem mapM_normalizeInteger {key : List Char} {periods : List ℤ}
    (h : ∀ n ∈ periods, 0 < n ∧ n ≤ 10000) :
    (periods.map fun n => (integerValue n : Json (Number F))).mapM (normalizeInteger key) =
      .ok periods := by
  rw [List.mapM_map]
  have hself : periods.mapM (normalizeInteger key ∘ fun n => (integerValue n : Json (Number F))) =
      .ok (periods.map id) :=
    mapM_eq_ok_map fun n hn => normalizeInteger_eq_ok.mpr ⟨rfl, h n hn⟩
  rw [hself, List.map_id]

theorem maForm_canonicalizeMa {raw c : Parameters F} (h : canonicalizeMa fillDefaults raw = .ok c) :
    MaForm fillDefaults c := by
  rw [canonicalizeMa] at h
  split at h
  · cases h
  · next value _ _ =>
    obtain ⟨n, hn, rfl⟩ := Except.map_eq_ok.mp h
    exact .period (normalizeInteger_eq_ok.mp hn).2
  · next item items _ _ =>
    obtain ⟨periods, hperiods, h⟩ := Except.bind_eq_ok.mp h
    split at h
    · cases h
    · next hlength =>
      cases h
      have hvalid : ∀ n ∈ periods, 0 < n ∧ n ≤ 10000 := by
        intro n hn
        obtain ⟨item, -, hitem⟩ := (mem_of_mapM hperiods).mp hn
        exact (normalizeInteger_eq_ok.mp hitem).2
      refine .periods (sortedSet_sorted periods) ?_ (fun n hn => hvalid n (mem_sortedSet.mp hn))
        (Nat.le_of_not_lt hlength)
      obtain ⟨n, periods, -, -, rfl⟩ := mapM_cons_eq_ok.mp hperiods
      exact List.ne_nil_of_mem (mem_sortedSet.mpr List.mem_cons_self)
  · cases h
  · cases h
    cases fillDefaults with
    | true => exact .periods (by decide) (by decide) (by decide) (by decide)
    | false => exact .none rfl

theorem MaForm.canonicalizeMa_eq {c : Parameters F} (h : MaForm fillDefaults c) (fill : Bool)
    (hfill : fill → fillDefaults) : canonicalizeMa fill c = .ok c := by
  cases h with
  | period hvalid =>
    exact Except.map_eq_ok.mpr ⟨_, normalizeInteger_eq_ok.mpr ⟨rfl, hvalid⟩, rfl⟩
  | @periods periods hsorted hne hvalid hlength =>
    cases periods with
    | nil => exact absurd rfl hne
    | cons n periods =>
      refine Except.bind_eq_ok.mpr ⟨n :: periods, mapM_normalizeInteger hvalid, ?_⟩
      rw [sortedSet_eq_self hsorted, if_neg (Nat.not_lt.mpr hlength)]
  | none hfalse =>
    cases fill with
    | true => cases (hfill rfl).symm.trans hfalse
    | false => rfl

theorem canonical_periodsValue (periods : List ℤ) :
    Json.Canonical ValidNumber (periodsValue periods : Json (Number F)) := by
  refine .array fun item hitem => ?_
  obtain ⟨n, -, rfl⟩ := List.mem_map.mp hitem
  exact .number trivial

theorem MaForm.isCanonical {c : Parameters F} (h : MaForm fillDefaults c) :
    IsCanonical tables fillDefaults (some .ma) c := by
  have hkeys : ∀ m ∈ c, m.1 ∈ parameterKeys .ma := by
    cases h with
    | period => simp [parameterKeys]
    | periods => simp [parameterKeys]
    | none => nofun
  refine ⟨?_, fun m hm => isName_parameterKeys (hkeys m hm), ?_, fun fill hfill => ?_⟩
  · cases h with
    | period | periods => exact List.pairwise_singleton _ _
    | none => exact .nil
  · cases h with
    | period =>
      intro m hm
      rw [List.mem_singleton.mp hm]
      exact .number trivial
    | periods =>
      intro m hm
      rw [List.mem_singleton.mp hm]
      exact canonical_periodsValue _
    | none => nofun
  · rw [canonicalizeRaw, if_neg, if_pos rfl, h.canonicalizeMa_eq fill hfill]
    rintro ⟨known, hknown, m, hm, hnot⟩
    cases hknown
    exact hnot (hkeys m hm)

variable [LawfulPyFloat F]

omit [PyFloat F] [LawfulPyFloat F] in
theorem multiplier_notInteger : "multiplier".toList ∉ integerParameterKeys := by decide

theorem defaultMapping_fixed {known : IndicatorType} (hother : known ≠ .ma)
    {m : List Char × Json (Number F)} (hm : m ∈ defaultMapping known) :
    normalizeValue (some known) m = .ok m ∧ Json.Canonical ValidNumber m.2 ∧
      m.1 ∈ parameterKeys known := by
  have hinteger {key : List Char} {n : ℤ} (hkey : key ∈ integerParameterKeys)
      (hn : 0 < n ∧ n ≤ 10000) :
      normalizeValue (some known) (key, (integerValue n : Json (Number F))) =
        .ok (key, integerValue n) := by
    rw [normalizeValue_some, normalizeParameterValue, if_pos hkey,
      normalizeInteger_eq_ok.mpr ⟨rfl, hn⟩]
    rfl
  have hfloat {key : List Char} {x : F} (hkey : key ∉ integerParameterKeys)
      (hx : PyFloat.isFinite x ∧ PyFloat.isPositive x) :
      normalizeValue (some known) (key, (.number (.float x) : Json (Number F))) =
        .ok (key, .number (.float x)) := by
    rw [normalizeValue_some, normalizeParameterValue, if_neg hkey,
      normalizeFloat_eq_ok.mpr ⟨rfl, hx⟩]
    rfl
  have hkey : m.1 ∈ parameterKeys known := by
    have hkeys : (defaultMapping known : Parameters F).map (·.1) = parameterKeys known := by
      cases known with
      | ma => exact absurd rfl hother
      | projectedMa | rsi | kdj | boll | macd => simp only [defaultMapping, parameterKeys, List.map]
    rw [← hkeys]
    exact List.mem_map_of_mem hm
  cases known <;> simp only [defaultMapping, List.mem_cons, List.not_mem_nil, or_false] at hm
  case ma => exact absurd rfl hother
  case projectedMa | rsi =>
    cases hm
    exact ⟨hinteger (by decide) (by decide), .number trivial, hkey⟩
  case kdj | macd =>
    rcases hm with rfl | rfl | rfl <;>
      exact ⟨hinteger (by decide) (by decide), .number trivial, hkey⟩
  case boll =>
    rcases hm with rfl | rfl
    · exact ⟨hinteger (by decide) (by decide), .number trivial, hkey⟩
    · exact ⟨hfloat multiplier_notInteger LawfulPyFloat.two_valid,
        .number LawfulPyFloat.two_valid.1, hkey⟩

/-- A row of the table keeps its name and value in another pass. -/
structure FixedRow (tables : CaseTables) (type : Option IndicatorType)
    (m : List Char × Json (Number F)) : Prop where
  fixed : normalizeValue type m = .ok m
  canonical : Json.Canonical ValidNumber m.2
  name : IsName tables type m.1
  supported : ∀ known ∈ type, m.1 ∈ parameterKeys known

theorem fixedRow_defaults (hother : type ≠ some .ma) {m : List Char × Json (Number F)}
    (hm : m ∈ defaults fillDefaults type) : FixedRow tables type m := by
  cases fillDefaults with
  | false => cases hm
  | true =>
    cases type with
    | none => cases hm
    | some known =>
      have hknown : known ≠ .ma := fun h => hother (congrArg some h)
      obtain ⟨hfixed, hcanonical, hkey⟩ := defaultMapping_fixed hknown hm
      exact ⟨hfixed, hcanonical, isName_parameterKeys hkey, fun _ h => by cases h; exact hkey⟩

theorem isCanonical_canonicalizeOther {raw c : Parameters F} (hother : type ≠ some .ma)
    (h : canonicalizeOther fillDefaults type raw = .ok c)
    (hnames : ∀ m ∈ raw, IsName tables type m.1)
    (hkeys : ∀ known ∈ type, ∀ m ∈ raw, m.1 ∈ parameterKeys known) :
    IsCanonical tables fillDefaults type c := by
  obtain ⟨values, hvalues, h⟩ := Except.bind_eq_ok.mp h
  rw [checkedRows] at h
  split at h
  · cases h
  · next hordered =>
    cases h
    set normalized := (Table.ofList (defaults fillDefaults type)).insertMany values with hnormalized
    have hrow : ∀ m ∈ normalized.rows, FixedRow tables type m := by
      rintro ⟨name, value⟩ hm
      rcases Table.of_get?_insertMany (Table.get?_eq_some.mpr hm) with hmem | hdefault
      · obtain ⟨r, hr, hr'⟩ := (mem_of_mapM hvalues).mp hmem
        obtain ⟨rfl, hfixed, hcanonical⟩ := normalizeValue_idem hr'
        exact ⟨hfixed, hcanonical, hnames r hr, fun known hknown => hkeys known hknown r hr⟩
      · rcases Table.of_get?_insertMany hdefault with hmem | hmem
        · exact fixedRow_defaults hother hmem
        · cases hmem
    refine ⟨normalized.sorted, fun m hm => (hrow m hm).name, fun m hm => (hrow m hm).canonical,
      fun fill hfill => ?_⟩
    have hsame : (Table.ofList (defaults fill type)).insertMany normalized.rows = normalized := by
      refine Table.ext_get? fun name => ?_
      rw [Table.get?_insertMany_table]
      cases hget : normalized.get? name with
      | some value => rfl
      | none =>
        rw [hnormalized, Table.get?_insertMany_getLast?, Option.or_eq_none_iff] at hget
        cases fill with
        | false => rfl
        | true => rw [← hfill rfl]; exact hget.2
    have hself : normalized.rows.mapM (normalizeValue type) = .ok (normalized.rows.map id) :=
      mapM_eq_ok_map fun m hm => (hrow m hm).fixed
    rw [canonicalizeRaw, if_neg, if_neg hother, canonicalizeOther, hself, List.map_id,
      Except.ok_bind, hsame, checkedRows, if_neg hordered]
    rintro ⟨known, hknown, m, hm, hnot⟩
    exact hnot ((hrow m hm).supported known hknown)

theorem isCanonical_canonicalizeRaw {raw c : Parameters F}
    (h : canonicalizeRaw fillDefaults type raw = .ok c)
    (hnames : ∀ m ∈ raw, IsName tables type m.1) : IsCanonical tables fillDefaults type c := by
  rw [canonicalizeRaw] at h
  split_ifs at h with hunsupported hma
  · rw [hma]
    exact (maForm_canonicalizeMa h).isCanonical
  · refine isCanonical_canonicalizeOther hma h hnames fun known hknown m hm => ?_
    by_contra hnot
    exact hunsupported ⟨known, hknown, m, hm, hnot⟩

omit [LawfulPyFloat F] in
theorem canonicalizeParameters_eq_ok {indicatorType : List Char} {parameters : Json (Number F)}
    {c : Parameters F} :
    canonicalizeParameters tables fillDefaults indicatorType parameters = .ok c ↔
      ∃ name mapping raw, normalizeIndicatorType tables indicatorType = .ok name ∧
        mappingOf parameters = .ok mapping ∧
        rawParameters tables (typeNames.lookup name) mapping [] = .ok raw ∧
        canonicalizeRaw fillDefaults (typeNames.lookup name) raw = .ok c := by
  rw [canonicalizeParameters]
  simp only [Except.bind_eq_ok]
  constructor
  · rintro ⟨name, hname, mapping, hmapping, raw, hraw, hc⟩
    exact ⟨name, mapping, raw, hname, hmapping, hraw, hc⟩
  · rintro ⟨name, mapping, raw, hname, hmapping, hraw, hc⟩
    exact ⟨name, hname, mapping, hmapping, raw, hraw, hc⟩

/-- What the canonicalization returns is canonical. -/
theorem isCanonical_canonicalizeParameters {indicatorType name : List Char}
    {parameters : Json (Number F)} {c : Parameters F}
    (hname : normalizeIndicatorType tables indicatorType = .ok name)
    (h : canonicalizeParameters tables fillDefaults indicatorType parameters = .ok c) :
    IsCanonical tables fillDefaults (typeNames.lookup name) c := by
  obtain ⟨name', mapping, raw, hname', -, hraw, hc⟩ := canonicalizeParameters_eq_ok.mp h
  cases hname.symm.trans hname'
  have hnames := (rawParameters_names hraw List.nodup_nil nofun).2
  exact isCanonical_canonicalizeRaw hc fun m hm => hnames _ (List.mem_map_of_mem hm)

omit [LawfulPyFloat F] in
/-- Canonical parameters stay as they are. -/
theorem IsCanonical.canonicalizeParameters_eq {indicatorType name : List Char} {c : Parameters F}
    (hname : normalizeIndicatorType tables indicatorType = .ok name)
    (h : IsCanonical tables fillDefaults (typeNames.lookup name) c) {fill : Bool}
    (hfill : fill → fillDefaults) :
    canonicalizeParameters tables fill indicatorType (.object c) = .ok c := by
  have hnodup : ((([] : Parameters F) ++ c).map (·.1)).Nodup := by
    rw [List.nil_append]
    exact List.pairwise_map.mpr (h.sorted.imp fun hlt => hlt.ne)
  exact canonicalizeParameters_eq_ok.mpr
    ⟨name, c, c, hname, rfl, rawParameters_eq_self hnodup h.names, h.fixed fill hfill⟩

theorem canonicalizeParameters_idem {indicatorType : List Char} {parameters : Json (Number F)}
    {c : Parameters F}
    (h : canonicalizeParameters tables fillDefaults indicatorType parameters = .ok c) :
    canonicalizeParameters tables fillDefaults indicatorType (.object c) = .ok c := by
  obtain ⟨name, -, -, hname, -⟩ := canonicalizeParameters_eq_ok.mp h
  exact (isCanonical_canonicalizeParameters hname h).canonicalizeParameters_eq hname id

end Fixed

end Canonical

end Apanel
