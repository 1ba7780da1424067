import Apanel.Indicators.CanonicalForm

/-!
# Identity of parameters

Spellings of the same parameters have the same canonical form. Two sets of parameters have one key
exactly when they have one canonical form without defaults, up to the two ways to ask for a single
moving average. Merging requests keeps each requested variant once, whatever their order
(`canonicalisation_identity`).
-/

namespace Apanel

namespace Canonical

/-! ## Spellings -/

section Spellings

variable {F : Type} [PyFloat F]

/-- One number. -/
def SameNumber (value value' : Json (Number F)) : Prop :=
  value = value' ∨ ∃ m n, value = .number m ∧ value' = .number n ∧ numberEq m n

/-- One number, or the numbers of two lists, in any order. -/
inductive SameValue : Json (Number F) → Json (Number F) → Prop
  | number {value value' : Json (Number F)} : SameNumber value value' → SameValue value value'
  | array {items items' : List (Json (Number F))} :
    (∀ item ∈ items, ∃ item' ∈ items', SameNumber item item') →
      (∀ item' ∈ items', ∃ item ∈ items, SameNumber item item') →
        SameValue (.array items) (.array items')

/-- The values of a name in two mappings. The numbers of an indicator with a known formula have
several spellings; other parameters are kept as they are. -/
inductive SameGiven (type : Option IndicatorType) :
    Option (Json (Number F)) → Option (Json (Number F)) → Prop
  | none : SameGiven type none none
  | same (value : Json (Number F)) : SameGiven type (some value) (some value)
  | known {value value' : Json (Number F)} : type.isSome → SameValue value value' →
    SameGiven type (some value) (some value')

theorem SameNumber.normalizeInteger_eq_ok [LawfulPyFloat F] {key : List Char}
    {value value' : Json (Number F)} {n : ℤ} (hsame : SameNumber value value')
    (h : normalizeInteger key value = .ok n) : normalizeInteger key value' = .ok n := by
  rw [Canonical.normalizeInteger_eq_ok] at h ⊢
  obtain ⟨hinteger, hpos, hmax⟩ := h
  refine ⟨?_, hpos, hmax⟩
  rcases hsame with rfl | ⟨a, b, rfl, rfl, hnumber⟩
  · exact hinteger
  · cases a with
    | int a =>
      cases b with
      | int b => cases of_decide_eq_true hnumber; exact hinteger
      | float y => cases hinteger; exact of_decide_eq_true hnumber
    | float x =>
      cases b with
      | int b =>
        have hx : PyFloat.toInteger x = some b := of_decide_eq_true hnumber
        exact hx.symm.trans hinteger
      | float y =>
        have hx : PyFloat.isPositive x := (LawfulPyFloat.toInteger_positive hinteger).mpr hpos
        exact LawfulPyFloat.eq_of_eq hx hnumber ▸ hinteger

theorem SameNumber.normalizeFloat_eq_ok [LawfulPyFloat F] {key : List Char}
    {value value' : Json (Number F)} {x : F} (hsame : SameNumber value value')
    (h : normalizeFloat key value = .ok x) : normalizeFloat key value' = .ok x := by
  rw [Canonical.normalizeFloat_eq_ok] at h ⊢
  obtain ⟨hfloat, hfinite, hpos⟩ := h
  refine ⟨?_, hfinite, hpos⟩
  have hint {n : ℤ} : asFloat key (.number (.int n)) = .ok x ↔ PyFloat.ofInteger n = some x := by
    rw [asFloat]
    cases (PyFloat.ofInteger n : Option F) <;> simp
  rcases hsame with rfl | ⟨a, b, rfl, rfl, hnumber⟩
  · exact hfloat
  · cases a with
    | int a =>
      rw [hint] at hfloat
      cases b with
      | int b => cases of_decide_eq_true hnumber; exact hint.mpr hfloat
      | float y =>
        have hy : PyFloat.toInteger y = some a := of_decide_eq_true hnumber
        have hposy : PyFloat.isPositive y := (LawfulPyFloat.toInteger_positive hy).mpr
          ((LawfulPyFloat.ofInteger_positive hfloat).mp hpos)
        have hof := LawfulPyFloat.ofInteger_toInteger hposy hy
        rw [hfloat] at hof
        exact congrArg Except.ok (Option.some.inj hof).symm
    | float y =>
      cases hfloat
      cases b with
      | int b =>
        exact hint.mpr (LawfulPyFloat.ofInteger_toInteger hpos (of_decide_eq_true hnumber))
      | float z => exact congrArg Except.ok (LawfulPyFloat.eq_of_eq hpos hnumber).symm

theorem SameValue.normalizeParameterValue_eq_ok [LawfulPyFloat F] {key : List Char}
    {value value' out : Json (Number F)} (hsame : SameValue value value')
    (h : normalizeParameterValue key value = .ok out) :
    normalizeParameterValue key value' = .ok out := by
  rw [normalizeParameterValue] at h ⊢
  cases hsame with
  | number hsame =>
    split at h
    · next hkey =>
      obtain ⟨n, hn, rfl⟩ := Except.map_eq_ok.mp h
      rw [if_pos hkey]
      exact Except.map_eq_ok.mpr ⟨n, hsame.normalizeInteger_eq_ok hn, rfl⟩
    · next hkey =>
      obtain ⟨x, hx, rfl⟩ := Except.map_eq_ok.mp h
      rw [if_neg hkey]
      exact Except.map_eq_ok.mpr ⟨x, hsame.normalizeFloat_eq_ok hx, rfl⟩
  | array =>
    split at h
    · obtain ⟨n, hn, rfl⟩ := Except.map_eq_ok.mp h
      cases (Canonical.normalizeInteger_eq_ok.mp hn).1
    · obtain ⟨x, hx, rfl⟩ := Except.map_eq_ok.mp h
      cases (Canonical.normalizeFloat_eq_ok.mp hx).1

variable {tables : CaseTables} {type : Option IndicatorType} {fillDefaults : Bool}

/-- Two mappings that give all names the same values. -/
def SameParameters (tables : CaseTables) (type : Option IndicatorType)
    (parameters parameters' : Parameters F) : Prop :=
  ∀ name, SameGiven type (given tables type parameters name) (given tables type parameters' name)

omit [PyFloat F] in
theorem lookup_eq_some_iff_mem {raw : Parameters F} (hnodup : (raw.map (·.1)).Nodup)
    {m : List Char × Json (Number F)} : raw.lookup m.1 = some m.2 ↔ m ∈ raw := by
  refine ⟨mem_of_lookup, fun hm => ?_⟩
  cases hlookup : raw.lookup m.1 with
  | none => exact absurd hm fun hm => by simpa using List.lookup_eq_none_iff.mp hlookup m hm
  | some value =>
    have heq := List.inj_on_of_nodup_map hnodup (mem_of_lookup hlookup) hm rfl
    rw [← heq]

theorem SameGiven.normalizeValue_eq_ok [LawfulPyFloat F] {name : List Char}
    {value : Json (Number F)} {given' : Option (Json (Number F))}
    {out : List Char × Json (Number F)} (hsame : SameGiven type (some value) given')
    (h : normalizeValue type (name, value) = .ok out) :
    ∃ value', given' = some value' ∧ normalizeValue type (name, value') = .ok out := by
  cases hsame with
  | same => exact ⟨value, rfl, h⟩
  | @known _ value' htype hsame =>
    obtain ⟨out, hout, rfl⟩ := Except.map_eq_ok.mp h
    rw [if_pos htype] at hout
    refine ⟨value', rfl, Except.map_eq_ok.mpr ⟨out, ?_, rfl⟩⟩
    rw [if_pos htype]
    exact hsame.normalizeParameterValue_eq_ok hout

/-- Two dictionaries after the loop over the names. -/
structure SameRaw (type : Option IndicatorType) (raw raw' : Parameters F) : Prop where
  nodup : (raw.map (·.1)).Nodup
  nodup' : (raw'.map (·.1)).Nodup
  given (name : List Char) : SameGiven type (raw.lookup name) (raw'.lookup name)

namespace SameRaw

variable {raw raw' : Parameters F} (hsame : SameRaw type raw raw')

include hsame

theorem exists_of_mem {m : List Char × Json (Number F)} (hm : m ∈ raw') :
    ∃ value, (m.1, value) ∈ raw ∧ SameGiven type (some value) (some m.2) := by
  have hgiven := hsame.given m.1
  rw [(lookup_eq_some_iff_mem hsame.nodup').mpr hm] at hgiven
  cases hlookup : raw.lookup m.1 with
  | none =>
    rw [hlookup] at hgiven
    cases hgiven
  | some value =>
    rw [hlookup] at hgiven
    exact ⟨value, mem_of_lookup hlookup, hgiven⟩

theorem exists_of_mem' {m : List Char × Json (Number F)} (hm : m ∈ raw) :
    ∃ value', (m.1, value') ∈ raw' ∧ SameGiven type (some m.2) (some value') := by
  have hgiven := hsame.given m.1
  rw [(lookup_eq_some_iff_mem hsame.nodup).mpr hm] at hgiven
  cases hlookup : raw'.lookup m.1 with
  | none =>
    rw [hlookup] at hgiven
    cases hgiven
  | some value =>
    rw [hlookup] at hgiven
    exact ⟨value, mem_of_lookup hlookup, hgiven⟩

variable [LawfulPyFloat F]

/-- The normalized values are the same, if there are any. -/
theorem mapM_normalizeValue {values : List (List Char × Json (Number F))}
    (h : raw.mapM (normalizeValue type) = .ok values) :
    ∃ values', raw'.mapM (normalizeValue type) = .ok values' ∧ ∀ m, m ∈ values ↔ m ∈ values' := by
  have hgiven {m : List Char × Json (Number F)} {value : Json (Number F)}
      (hg : SameGiven type (some value) (some m.2)) {out : List Char × Json (Number F)}
      (hout : normalizeValue type (m.1, value) = .ok out) : normalizeValue type m = .ok out := by
    obtain ⟨value', heq, hvalue'⟩ := hg.normalizeValue_eq_ok hout
    rwa [← Option.some.inj heq] at hvalue'
  have hvalue : ∀ m ∈ raw', ∃ out ∈ values, normalizeValue type m = .ok out := by
    intro m hm
    obtain ⟨value, hmem, hg⟩ := hsame.exists_of_mem hm
    obtain ⟨out, hout⟩ := exists_mapM_eq_ok.mp ⟨_, h⟩ _ hmem
    exact ⟨out, (mem_of_mapM h).mpr ⟨_, hmem, hout⟩, hgiven hg hout⟩
  obtain ⟨values', hvalues'⟩ := exists_mapM_eq_ok.mpr fun m hm => by
    obtain ⟨out, -, hout⟩ := hvalue m hm
    exact ⟨out, hout⟩
  refine ⟨values', hvalues', fun out => ?_⟩
  rw [mem_of_mapM hvalues']
  constructor
  · intro hout
    obtain ⟨m, hm, hm'⟩ := (mem_of_mapM h).mp hout
    obtain ⟨value', hmem, hg⟩ := hsame.exists_of_mem' hm
    exact ⟨(m.1, value'), hmem, hgiven (m := (m.1, value')) hg hm'⟩
  · rintro ⟨m, hm, hm'⟩
    obtain ⟨out', hmem, hout'⟩ := hvalue m hm
    cases hm'.symm.trans hout'
    exact hmem

theorem canonicalizeOther_eq_ok {c : Parameters F}
    (h : canonicalizeOther fillDefaults type raw = .ok c) :
    canonicalizeOther fillDefaults type raw' = .ok c := by
  obtain ⟨values, hvalues, hrows⟩ := Except.bind_eq_ok.mp h
  obtain ⟨values', hvalues', hmem⟩ := hsame.mapM_normalizeValue hvalues
  have hdistinct {raw values : Parameters F} (hnodup : (raw.map (·.1)).Nodup)
      (hvalues : raw.mapM (normalizeValue type) = .ok values) :
      values.Pairwise fun r s => r.1 ≠ s.1 := by
    have hnames := mapM_names (fun m out hout => (normalizeValue_idem hout).1) hvalues
    exact List.pairwise_map.mp (hnames ▸ hnodup)
  have htable : (Table.ofList (defaults fillDefaults type)).insertMany values' =
      (Table.ofList (defaults fillDefaults type)).insertMany values := by
    refine Table.ext_get? fun name => Option.ext fun value => ?_
    rw [Table.get?_insertMany (hdistinct hsame.nodup' hvalues'),
      Table.get?_insertMany (hdistinct hsame.nodup hvalues)]
    simp only [hmem]
  exact Except.bind_eq_ok.mpr ⟨values', hvalues', htable.symm ▸ hrows⟩

theorem canonicalizeMa_eq_ok {c : Parameters F} (h : canonicalizeMa fillDefaults raw = .ok c) :
    canonicalizeMa fillDefaults raw' = .ok c := by
  have hperiod := hsame.given "period".toList
  have hperiods := hsame.given "periods".toList
  rw [canonicalizeMa] at h ⊢
  generalize raw.lookup "period".toList = period at h hperiod
  generalize raw'.lookup "period".toList = period' at hperiod ⊢
  generalize raw.lookup "periods".toList = periods at h hperiods
  generalize raw'.lookup "periods".toList = periods' at hperiods ⊢
  cases hperiod with
  | none =>
    cases hperiods with
    | none | same => exact h
    | known _ hvalue =>
      cases hvalue with
      | number hnumber =>
        rcases hnumber with rfl | ⟨m, n, rfl, rfl, -⟩
        · exact h
        · cases h
      | @array items items' hitems hitems' =>
        cases items with
        | nil => cases h
        | cons item items =>
          obtain ⟨ns, hns, hsorted⟩ := Except.bind_eq_ok.mp h
          have hvalid : ∀ item' ∈ items', ∃ n ∈ ns,
              normalizeInteger "period".toList item' = .ok n := by
            intro item' hitem'
            obtain ⟨item, hitem, hsame⟩ := hitems' item' hitem'
            obtain ⟨n, hn⟩ := exists_mapM_eq_ok.mp ⟨_, hns⟩ item hitem
            exact ⟨n, (mem_of_mapM hns).mpr ⟨item, hitem, hn⟩, hsame.normalizeInteger_eq_ok hn⟩
          obtain ⟨ns', hns'⟩ := exists_mapM_eq_ok.mpr fun item' hitem' => by
            obtain ⟨n, -, hn⟩ := hvalid item' hitem'
            exact ⟨n, hn⟩
          have hset : sortedSet ns' = sortedSet ns := by
            refine eq_of_sorted_of_mem (sortedSet_sorted _) (sortedSet_sorted _) fun n => ?_
            rw [mem_sortedSet, mem_sortedSet, mem_of_mapM hns']
            constructor
            · rintro ⟨item', hitem', hn⟩
              obtain ⟨n', hmem, hn'⟩ := hvalid item' hitem'
              cases hn.symm.trans hn'
              exact hmem
            · intro hn
              obtain ⟨item, hitem, hn⟩ := (mem_of_mapM hns).mp hn
              obtain ⟨item', hitem', hsame⟩ := hitems item hitem
              exact ⟨item', hitem', hsame.normalizeInteger_eq_ok hn⟩
          obtain ⟨item', hitem', -⟩ := hitems item List.mem_cons_self
          cases items' with
          | nil => cases hitem'
          | cons item' items' => exact Except.bind_eq_ok.mpr ⟨ns', hns', hset.symm ▸ hsorted⟩
  | same value =>
    cases hperiods with
    | none | same => exact h
    | known => cases h
  | @known value value' htype hvalue =>
    cases hperiods with
    | none =>
      obtain ⟨n, hn, rfl⟩ := Except.map_eq_ok.mp h
      cases hvalue with
      | number hnumber =>
        exact Except.map_eq_ok.mpr ⟨n, hnumber.normalizeInteger_eq_ok hn, rfl⟩
      | array => cases (Canonical.normalizeInteger_eq_ok.mp hn).1
    | same | known => cases h

theorem canonicalizeRaw_eq_ok {c : Parameters F} (h : canonicalizeRaw fillDefaults type raw = .ok c) :
    canonicalizeRaw fillDefaults type raw' = .ok c := by
  rw [canonicalizeRaw] at h
  split_ifs at h with hunsupported hma
  all_goals
    have hsupported : ¬ ∃ known ∈ type, ∃ m ∈ raw', m.1 ∉ parameterKeys known := by
      rintro ⟨known, hknown, m, hm, hnot⟩
      obtain ⟨value, hmem, -⟩ := hsame.exists_of_mem hm
      exact hunsupported ⟨known, hknown, _, hmem, hnot⟩
    rw [canonicalizeRaw, if_neg hsupported]
  · rw [if_pos hma]
    exact hsame.canonicalizeMa_eq_ok h
  · rw [if_neg hma]
    exact hsame.canonicalizeOther_eq_ok h

end SameRaw

variable [LawfulPyFloat F]

/-- Spellings of the same parameters have the same canonical form. The second one may spell a name
twice, as long as its values are equal. -/
theorem canonicalizeParameters_eq_of_same {indicatorType indicatorType' name : List Char}
    (hname : normalizeIndicatorType tables indicatorType = .ok name)
    (hname' : normalizeIndicatorType tables indicatorType' = .ok name)
    {parameters parameters' raw' c : Parameters F}
    (hraw' : rawParameters tables (typeNames.lookup name) parameters' [] = .ok raw')
    (hsame : SameParameters tables (typeNames.lookup name) parameters parameters')
    (h : canonicalizeParameters tables fillDefaults indicatorType (.object parameters) = .ok c) :
    canonicalizeParameters tables fillDefaults indicatorType' (.object parameters') = .ok c := by
  obtain ⟨_, _, raw, hsameName, hmapping, hraw, hc⟩ := canonicalizeParameters_eq_ok.mp h
  cases hname.symm.trans hsameName
  cases hmapping
  have hrawSame : SameRaw (typeNames.lookup name) raw raw' := by
    refine ⟨(rawParameters_names hraw List.nodup_nil nofun).1,
      (rawParameters_names hraw' List.nodup_nil nofun).1, fun key => ?_⟩
    rw [lookup_rawParameters hraw, lookup_rawParameters hraw', List.lookup_nil, Option.or_none,
      Option.or_none]
    exact hsame key
  exact canonicalizeParameters_eq_ok.mpr
    ⟨name, parameters', raw', hname', rfl, hraw', hrawSame.canonicalizeRaw_eq_ok hc⟩

omit [LawfulPyFloat F] in
theorem SameGiven.refl (value : Option (Json (Number F))) : SameGiven type value value := by
  cases value with
  | none => exact .none
  | some value => exact .same value

/-- Canonical parameters may come in any order. -/
theorem IsCanonical.canonicalizeParameters_of_perm {indicatorType name : List Char}
    (hname : normalizeIndicatorType tables indicatorType = .ok name) {parameters c : Parameters F}
    (h : IsCanonical tables fillDefaults (typeNames.lookup name) c) (hperm : parameters.Perm c) :
    canonicalizeParameters tables fillDefaults indicatorType (.object parameters) = .ok c := by
  have hnodup : (c.map (·.1)).Nodup := List.pairwise_map.mpr (h.sorted.imp fun hlt => hlt.ne)
  have hnodup' : (parameters.map (·.1)).Nodup := (hperm.map _).nodup_iff.mpr hnodup
  have hraw : rawParameters tables (typeNames.lookup name) c [] = .ok c :=
    rawParameters_eq_self (by rwa [List.nil_append]) h.names
  have hraw' : rawParameters tables (typeNames.lookup name) parameters [] = .ok parameters :=
    rawParameters_eq_self (by rwa [List.nil_append]) fun m hm => h.names m (hperm.mem_iff.mp hm)
  refine canonicalizeParameters_eq_of_same hname hname hraw' (fun key => ?_)
    (h.canonicalizeParameters_eq hname id)
  have hlookup := lookup_rawParameters hraw key
  have hlookup' := lookup_rawParameters hraw' key
  rw [List.lookup_nil, Option.or_none] at hlookup hlookup'
  have heq : c.lookup key = parameters.lookup key := Option.ext fun value => by
    rw [lookup_eq_some_iff_mem (m := (key, value)) hnodup,
      lookup_eq_some_iff_mem (m := (key, value)) hnodup', hperm.mem_iff]
  rw [← hlookup, ← hlookup', heq]
  exact .refl _

end Spellings

/-! ## Keys -/

section Keys

variable {F : Type} [PyFloat F]

theorem integerText_chars {n : ℤ} {c : Char} (h : c ∈ integerText n) : c.isDigit ∨ c = '-' := by
  cases n with
  | ofNat n => exact .inl (Nat.isDigit_of_mem_toDigits (by decide) (by decide) h)
  | negSucc n =>
    rcases List.mem_cons.mp h with h | h
    · exact .inr h
    · exact .inl (Nat.isDigit_of_mem_toDigits (by decide) (by decide) h)

theorem integerText_injective {m n : ℤ} (h : integerText m = integerText n) : m = n := by
  have hdigits {m n : ℕ} (h : Nat.toDigits 10 m = Nat.toDigits 10 n) : m = n := by
    rw [← Nat.ofDigitChars_ten_toDigits (n := m), h, Nat.ofDigitChars_ten_toDigits]
  have hminus {n : ℕ} {text : List Char} : Nat.toDigits 10 n ≠ '-' :: text := fun h => by
    have hmem : '-' ∈ Nat.toDigits 10 n := h ▸ List.mem_cons_self
    exact absurd (Nat.isDigit_of_mem_toDigits (by decide) (by decide) hmem) (by decide)
  cases m with
  | ofNat m =>
    cases n with
    | ofNat n => exact congrArg Int.ofNat (hdigits h)
    | negSucc n => exact absurd h hminus
  | negSucc m =>
    cases n with
    | ofNat n => exact absurd h.symm hminus
    | negSucc n => exact congrArg Int.negSucc (Nat.succ_injective (hdigits (List.cons.inj h).2))

theorem numberTexts [LawfulPyFloat F] : Json.NumberTexts (numberText (F := F)) ValidNumber where
  injective {m n} hm hn h := by
    have hpoint {k : ℤ} {x : F} (hx : PyFloat.isFinite x) : integerText k ≠ PyFloat.repr x := by
      intro heq
      rcases LawfulPyFloat.repr_point hx with hc | hc <;> rw [← heq] at hc <;>
        exact absurd (integerText_chars hc) (by decide)
    cases m with
    | int m =>
      cases n with
      | int n => exact congrArg Number.int (integerText_injective h)
      | float y => exact absurd h (hpoint hn)
    | float x =>
      cases n with
      | int n => exact absurd h.symm (hpoint hm)
      | float y => exact congrArg Number.float (LawfulPyFloat.repr_injective hm hn h)
  ne_nil {n} hn := by
    cases n with
    | int n =>
      cases n with
      | ofNat n => exact Nat.toDigits_ne_nil
      | negSucc n => exact List.cons_ne_nil _ _
    | float x =>
      intro hnil
      have hnone : (PyFloat.repr x) = [] := hnil
      rcases LawfulPyFloat.repr_point hn with hc | hc <;> rw [hnone] at hc <;> cases hc
  chars {n} hn := by
    cases n with
    | int n =>
      intro c hc
      rw [Json.isNumberChar, Bool.or_eq_true]
      rcases integerText_chars hc with h | rfl
      · exact .inl h
      · exact .inr (by decide)
    | float x => exact LawfulPyFloat.repr_chars hn

/-- The parameters that are hashed. -/
structure Hashable (c : Parameters F) : Prop where
  sorted : c.Pairwise (·.1 < ·.1)
  values : ∀ m ∈ c, Json.Canonical ValidNumber m.2

theorem serialized_injective [LawfulPyFloat F] {name name' : List Char} {c c' : Parameters F}
    (hc : Hashable c) (hc' : Hashable c') (h : serialized name c = serialized name' c') :
    name = name' ∧ c = c' := by
  have hcanonical {name : List Char} {c : Parameters F} (hc : Hashable c) :
      Json.Canonical (ValidNumber (F := F)) (.object
        [("indicator_type".toList, .string name), ("parameters".toList, .object c)]) := by
    have horder : ["indicator_type".toList, "parameters".toList].Pairwise (· < ·) := by decide
    refine .object (List.pairwise_map.mp horder) ?_
    simp only [List.forall_mem_cons]
    exact ⟨.string name, .object hc.sorted hc.values, nofun⟩
  have heq := Json.dumps_injective numberTexts (hcanonical hc) (hcanonical hc') h
  simp only [Json.object.injEq, List.cons.injEq, Prod.mk.injEq, true_and, and_true,
    Json.string.injEq] at heq
  exact heq

variable [LawfulPyFloat F] {tables : CaseTables} {digest : List Char → List Char}

omit [LawfulPyFloat F] in
theorem IsCanonical.hashable {fillDefaults : Bool} {type : Option IndicatorType}
    {c : Parameters F} (h : IsCanonical tables fillDefaults type c) : Hashable c :=
  ⟨h.sorted, h.values⟩

omit [LawfulPyFloat F] in
theorem hashable_keyForm {name : List Char} {c : Parameters F} (h : Hashable c) :
    Hashable (keyForm name c) := by
  rw [keyForm]
  split
  · split
    · next period hperiod =>
      refine ⟨List.pairwise_singleton _ _, fun m hm => ?_⟩
      rw [List.mem_singleton.mp hm]
      refine .array fun item hitem => ?_
      rw [List.mem_singleton.mp hitem]
      exact h.values _ (mem_of_lookup hperiod)
    · exact h
  · exact h

/-- The digest is injective on the texts that are hashed. -/
def DigestInjective (F : Type) [PyFloat F] (digest : List Char → List Char) : Prop :=
  Set.InjOn digest (Set.range fun p : List Char × Parameters F => serialized p.1 p.2)

def keyText (digest : List Char → List Char) (name : List Char) (c : Parameters F) : List Char :=
  "v1_".toList ++ digest (serialized name c)

theorem keyText_injective (hdigest : DigestInjective F digest) {name name' : List Char}
    {c c' : Parameters F} (hc : Hashable c) (hc' : Hashable c') :
    keyText digest name c = keyText digest name' c' ↔ name = name' ∧ c = c' := by
  constructor
  · intro h
    have hserialized := hdigest ⟨(name, c), rfl⟩ ⟨(name', c'), rfl⟩ (List.append_cancel_left h)
    exact serialized_injective hc hc' hserialized
  · rintro ⟨rfl, rfl⟩
    rfl

omit [LawfulPyFloat F] in
theorem canonicalizeParameters_normalize {fillDefaults : Bool} {indicatorType name : List Char}
    (hname : normalizeIndicatorType tables indicatorType = .ok name)
    (parameters : Json (Number F)) : canonicalizeParameters tables fillDefaults name parameters =
      canonicalizeParameters tables fillDefaults indicatorType parameters := by
  rw [canonicalizeParameters, canonicalizeParameters, hname, normalizeIndicatorType_idem hname]

omit [LawfulPyFloat F] in
theorem parameterKey_eq_ok {indicatorType name key : List Char} {parameters : Json (Number F)}
    (hname : normalizeIndicatorType tables indicatorType = .ok name) :
    parameterKey tables digest indicatorType parameters = .ok key ↔
      ∃ c, canonicalizeParameters tables false indicatorType parameters = .ok c ∧
        key = keyText digest name (keyForm name c) := by
  rw [parameterKey, hname, Except.ok_bind, Except.bind_eq_ok,
    canonicalizeParameters_normalize hname]
  simp only [Except.ok.injEq, keyText, eq_comm]

/-- Accepted parameters have one key exactly when their canonical forms without defaults agree, up
to the two ways to ask for a single moving average. -/
theorem parameterKey_eq_iff (hdigest : DigestInjective F digest)
    {indicatorType indicatorType' name name' key key' : List Char}
    {parameters parameters' : Json (Number F)} {c c' : Parameters F}
    (hname : normalizeIndicatorType tables indicatorType = .ok name)
    (hname' : normalizeIndicatorType tables indicatorType' = .ok name')
    (hc : canonicalizeParameters tables false indicatorType parameters = .ok c)
    (hc' : canonicalizeParameters tables false indicatorType' parameters' = .ok c')
    (hkey : parameterKey tables digest indicatorType parameters = .ok key)
    (hkey' : parameterKey tables digest indicatorType' parameters' = .ok key') :
    key = key' ↔ name = name' ∧ keyForm name c = keyForm name' c' := by
  obtain ⟨c, hcanonical, rfl⟩ := (parameterKey_eq_ok hname).mp hkey
  obtain ⟨c', hcanonical', rfl⟩ := (parameterKey_eq_ok hname').mp hkey'
  cases hc.symm.trans hcanonical
  cases hc'.symm.trans hcanonical'
  exact keyText_injective hdigest
    (hashable_keyForm (isCanonical_canonicalizeParameters hname hc).hashable)
    (hashable_keyForm (isCanonical_canonicalizeParameters hname' hc').hashable)

end Keys

/-! ## Merging -/

section Merging

variable {F : Type} [PyFloat F] {tables : CaseTables} {digest : List Char → List Char}

theorem typeNames_lookup_ma {name : List Char} :
    typeNames.lookup name = some .ma ↔ name = "MA".toList := by
  constructor
  · intro h
    have hmem := mem_of_lookup h
    simp only [typeNames, List.mem_cons, Prod.mk.injEq, List.not_mem_nil, or_false] at hmem
    rcases hmem with h | h | h | h | h | h
    · exact h.1
    all_goals cases h.2
  · rintro rfl
    rfl

/-- A request as the merge keeps it. -/
structure Merged (tables : CaseTables) (request : Request F) : Prop where
  typeName : IsTypeName tables request.indicatorType
  canonical : IsCanonical tables true (typeNames.lookup request.indicatorType) request.parameters
  periods : request.indicatorType = "MA".toList → ∃ periods : List ℤ, periods.Pairwise (· < ·) ∧
    request.parameters = [("periods".toList, periodsValue periods)]

omit [PyFloat F] in
theorem maPeriods_periodsValue (periods : List ℤ) :
    maPeriods ([("periods".toList, periodsValue periods)] : Parameters F) = periods := by
  change (periods.map fun n => (integerValue n : Json (Number F))).filterMap integerOf = periods
  rw [List.filterMap_map]
  exact List.filterMap_some

/-- The canonical parameters of MA. -/
theorem IsCanonical.maForm {c : Parameters F} (h : IsCanonical tables true (some .ma) c) :
    MaForm true c := by
  have hraw := h.fixed true id
  rw [canonicalizeRaw] at hraw
  split_ifs at hraw with hunsupported hma
  · exact maForm_canonicalizeMa hraw
  · exact absurd rfl hma

omit [PyFloat F] in
theorem MaForm.keyForm_eq {c : Parameters F} (h : MaForm true c) :
    keyForm "MA".toList c = [("periods".toList, periodsValue (sortedSet (maPeriods c)))] := by
  cases h with
  | period => rfl
  | periods hsorted =>
    rw [maPeriods_periodsValue, sortedSet_eq_self hsorted]
    rfl
  | none hfalse => cases hfalse

/-- The merge keeps a request in the form that is hashed. -/
theorem normalizeRequest_eq_ok [LawfulPyFloat F] {request out : Request F} :
    normalizeRequest tables request = .ok out ↔
      ∃ name c, normalizeIndicatorType tables request.indicatorType = .ok name ∧
        canonicalizeParameters tables true request.indicatorType (.object request.parameters) =
          .ok c ∧ out = ⟨name, keyForm name c⟩ := by
  have hkeyForm {name : List Char} {c : Parameters F}
      (hname : normalizeIndicatorType tables request.indicatorType = .ok name)
      (hc : canonicalizeParameters tables true request.indicatorType (.object request.parameters) =
        .ok c) :
      (if name = "MA".toList then
        (.ok ⟨name, [("periods".toList, periodsValue (sortedSet (maPeriods c)))]⟩ :
          Except ParameterFailure (Request F))
      else .ok ⟨name, c⟩) = .ok ⟨name, keyForm name c⟩ := by
    have hcanonical := isCanonical_canonicalizeParameters hname hc
    split
    · next hma =>
      rw [hma] at hcanonical ⊢
      rw [hcanonical.maForm.keyForm_eq]
    · next hother => rw [keyForm, if_neg hother]
  rw [normalizeRequest]
  simp only [Except.bind_eq_ok]
  constructor
  · rintro ⟨name, hname, c, hc, hout⟩
    rw [canonicalizeParameters_normalize hname] at hc
    rw [hkeyForm hname hc] at hout
    exact ⟨name, c, hname, hc, (Except.ok.inj hout).symm⟩
  · rintro ⟨name, c, hname, hc, rfl⟩
    exact ⟨name, hname, c, by rw [canonicalizeParameters_normalize hname, hc], hkeyForm hname hc⟩

theorem normalizeRequest_merged [LawfulPyFloat F] {request out : Request F}
    (h : normalizeRequest tables request = .ok out) : Merged tables out := by
  obtain ⟨name, c, hname, hc, rfl⟩ := normalizeRequest_eq_ok.mp h
  have hcanonical := isCanonical_canonicalizeParameters hname hc
  by_cases hma : name = "MA".toList
  · rw [hma] at hname hcanonical ⊢
    have hform := hcanonical.maForm
    have hperiods : ∃ periods : List ℤ, periods.Pairwise (· < ·) ∧ periods ≠ [] ∧
        (∀ n ∈ periods, 0 < n ∧ n ≤ 10000) ∧ periods.length ≤ 32 ∧
          keyForm "MA".toList c = [("periods".toList, periodsValue periods)] := by
      cases hform with
      | @period n hvalid =>
        exact ⟨[n], List.pairwise_singleton _ _, List.cons_ne_nil _ _,
          fun m hm => List.mem_singleton.mp hm ▸ hvalid, by simp, rfl⟩
      | @periods periods hsorted hne hvalid hlength =>
        exact ⟨periods, hsorted, hne, hvalid, hlength, rfl⟩
      | none hfalse => cases hfalse
    obtain ⟨periods, hsorted, hne, hvalid, hlength, hkeyForm⟩ := hperiods
    rw [hkeyForm]
    exact ⟨normalize_isTypeName hname, (MaForm.periods hsorted hne hvalid hlength).isCanonical,
      fun _ => ⟨periods, hsorted, rfl⟩⟩
  · rw [keyForm, if_neg hma]
    exact ⟨normalize_isTypeName hname, hcanonical, fun h => absurd h hma⟩

theorem Merged.normalizeRequest_eq {request : Request F} (h : Merged tables request) :
    normalizeRequest tables request = .ok request := by
  have hname := h.typeName.normalize_eq
  refine Except.bind_eq_ok.mpr ⟨request.indicatorType, hname, Except.bind_eq_ok.mpr
    ⟨request.parameters, h.canonical.canonicalizeParameters_eq hname id, ?_⟩⟩
  split
  · next hma =>
    obtain ⟨periods, hsorted, hparameters⟩ := h.periods hma
    rw [hparameters, maPeriods_periodsValue, sortedSet_eq_self hsorted, ← hparameters]
  · rfl

theorem Merged.keyForm_eq {request : Request F} (h : Merged tables request) :
    keyForm request.indicatorType request.parameters = request.parameters := by
  rw [keyForm]
  split
  · next hma =>
    obtain ⟨periods, -, hparameters⟩ := h.periods hma
    rw [hparameters]
    rfl
  · rfl

/-- The key of a request that the merge keeps. -/
def requestKey (digest : List Char → List Char) (request : Request F) : List Char :=
  keyText digest request.indicatorType request.parameters

theorem Merged.parameterKey_eq {request : Request F} (h : Merged tables request) :
    parameterKey tables digest request.indicatorType (.object request.parameters) =
      .ok (requestKey digest request) := by
  have hname := h.typeName.normalize_eq
  refine (parameterKey_eq_ok hname).mpr ⟨request.parameters,
    h.canonical.canonicalizeParameters_eq hname nofun, ?_⟩
  rw [h.keyForm_eq, requestKey]

theorem Merged.keyRequest_eq {request : Request F} (h : Merged tables request) :
    keyRequest tables digest request = .ok ⟨requestKey digest request, request⟩ := by
  rw [keyRequest, h.parameterKey_eq]
  rfl

theorem Merged.requestKey_injective [LawfulPyFloat F] (hdigest : DigestInjective F digest)
    {request request' : Request F} (h : Merged tables request) (h' : Merged tables request')
    (heq : requestKey digest request = requestKey digest request') : request = request' := by
  obtain ⟨htype, hparameters⟩ :=
    (keyText_injective hdigest h.canonical.hashable h'.canonical.hashable).mp heq
  cases request
  cases request'
  cases htype
  cases hparameters
  rfl

/-- The requests of a merge before they are collected, with their keys. -/
def keyed (digest : List Char → List Char) (requests : List (Request F)) : List (Keyed F) :=
  requests.map fun request => ⟨requestKey digest request, request⟩

theorem mem_keyed {requests : List (Request F)} {k : Keyed F} :
    k ∈ keyed digest requests ↔
      k.request ∈ requests ∧ k.key = requestKey digest k.request := by
  rw [keyed, List.mem_map]
  constructor
  · rintro ⟨request, hrequest, rfl⟩
    exact ⟨hrequest, rfl⟩
  · rintro ⟨hrequest, hkey⟩
    exact ⟨k.request, hrequest, by rw [← hkey]⟩

section Collect

variable [LawfulPyFloat F] (hdigest : DigestInjective F digest) {requests : List (Request F)}
  (hmerged : ∀ request ∈ requests, Merged tables request)

omit [LawfulPyFloat F] in
theorem keyed_eq {k k' : Keyed F} (hk : k ∈ keyed digest requests)
    (hk' : k' ∈ keyed digest requests) (h : k.request = k'.request) : k = k' := by
  obtain ⟨-, hkey⟩ := mem_keyed.mp hk
  obtain ⟨-, hkey'⟩ := mem_keyed.mp hk'
  cases k
  cases k'
  cases h
  cases hkey.trans hkey'.symm
  rfl

include hmerged

omit [LawfulPyFloat F] in
/-- The MA requests are told apart by their periods. -/
theorem periods_injective :
    ∀ k ∈ (keyed digest requests).filter fun k => k.request.indicatorType = "MA".toList,
      ∀ k' ∈ (keyed digest requests).filter fun k => k.request.indicatorType = "MA".toList,
        maPeriods k.request.parameters = maPeriods k'.request.parameters → k = k' := by
  intro k hk k' hk' h
  obtain ⟨hk, htype⟩ := List.mem_filter.mp hk
  obtain ⟨hk', htype'⟩ := List.mem_filter.mp hk'
  refine keyed_eq hk hk' ?_
  obtain ⟨periods, -, hparameters⟩ :=
    (hmerged _ (mem_keyed.mp hk).1).periods (of_decide_eq_true htype)
  obtain ⟨periods', -, hparameters'⟩ :=
    (hmerged _ (mem_keyed.mp hk').1).periods (of_decide_eq_true htype')
  rw [hparameters, hparameters', maPeriods_periodsValue, maPeriods_periodsValue] at h
  have htypes := (of_decide_eq_true htype).trans (of_decide_eq_true htype').symm
  generalize k.request = request at *
  generalize k'.request = request' at *
  cases request
  cases request'
  cases htypes
  cases hparameters
  cases hparameters'
  cases h
  rfl

include hdigest

/-- The other requests are told apart by their keys. -/
theorem keys_injective :
    ∀ k ∈ (keyed digest requests).filter fun k => k.request.indicatorType ≠ "MA".toList,
      ∀ k' ∈ (keyed digest requests).filter fun k => k.request.indicatorType ≠ "MA".toList,
        toLex (k.request.indicatorType, k.key) = toLex (k'.request.indicatorType, k'.key) →
          k = k' := by
  intro k hk k' hk' h
  obtain ⟨hmem, hkey⟩ := mem_keyed.mp (List.mem_filter.mp hk).1
  obtain ⟨hmem', hkey'⟩ := mem_keyed.mp (List.mem_filter.mp hk').1
  have heq : k.key = k'.key := (Prod.mk.inj (toLex.injective h)).2
  rw [hkey, hkey'] at heq
  exact keyed_eq (List.mem_filter.mp hk).1 (List.mem_filter.mp hk').1
    ((hmerged _ hmem).requestKey_injective hdigest (hmerged _ hmem') heq)

theorem mem_collect {request : Request F} :
    request ∈ collect (keyed digest requests) ↔ request ∈ requests := by
  simp only [collect, List.mem_map, List.mem_append, List.mem_insertionSort,
    Table.mem_ofList_map (periods_injective hmerged),
    Table.mem_ofList_map (keys_injective hdigest hmerged), List.mem_filter, decide_eq_true_eq]
  constructor
  · rintro ⟨k, hk | hk, rfl⟩ <;> exact (mem_keyed.mp hk.1).1
  · intro hrequest
    refine ⟨⟨requestKey digest request, request⟩, ?_, rfl⟩
    rw [← and_or_left]
    exact ⟨mem_keyed.mpr ⟨hrequest, rfl⟩, em _⟩

theorem nodup_collect : (collect (keyed digest requests)).Nodup := by
  rw [collect]
  refine List.Nodup.map_on (fun k hk k' hk' h => ?_) (List.nodup_append'.mpr ⟨?_, ?_, ?_⟩)
  · simp only [List.mem_append, List.mem_insertionSort,
      Table.mem_ofList_map (periods_injective hmerged),
      Table.mem_ofList_map (keys_injective hdigest hmerged), List.mem_filter] at hk hk'
    exact keyed_eq (hk.elim And.left And.left) (hk'.elim And.left And.left) h
  · exact (List.perm_insertionSort _ _).nodup_iff.mpr
      (Table.nodup_ofList_map (periods_injective hmerged))
  · exact (List.perm_insertionSort _ _).nodup_iff.mpr
      (Table.nodup_ofList_map (keys_injective hdigest hmerged))
  · intro k hk hk'
    rw [List.mem_insertionSort, Table.mem_ofList_map (periods_injective hmerged),
      List.mem_filter] at hk
    rw [List.mem_insertionSort, Table.mem_ofList_map (keys_injective hdigest hmerged),
      List.mem_filter] at hk'
    exact absurd (of_decide_eq_true hk.2) (of_decide_eq_true hk'.2)

/-- What is collected depends only on which requests there are. -/
theorem collect_congr {requests' : List (Request F)}
    (hmem : ∀ request, request ∈ requests ↔ request ∈ requests') :
    collect (keyed digest requests) = collect (keyed digest requests') := by
  have hkeyed (k : Keyed F) : k ∈ keyed digest requests ↔ k ∈ keyed digest requests' := by
    rw [mem_keyed, mem_keyed, hmem]
  have hfilter (p : Keyed F → Bool) (k : Keyed F) :
      k ∈ (keyed digest requests).filter p ↔ k ∈ (keyed digest requests').filter p := by
    rw [List.mem_filter, List.mem_filter, hkeyed]
  rw [collect, collect, Table.ofList_map_congr (periods_injective hmerged) (hfilter _),
    Table.ofList_map_congr (keys_injective hdigest hmerged) (hfilter _)]

end Collect

section Merge

variable [LawfulPyFloat F] {requests out : List (Request F)}

/-- The requests of a merge, canonical, before they are collected. -/
theorem mergeIndicatorRequests_eq_ok :
    mergeIndicatorRequests tables digest requests = .ok out ↔
      ∃ defaults normalized, defaultRequestPairs tables = .ok defaults ∧
        (defaults ++ requests).mapM (normalizeRequest tables) = .ok normalized ∧
          out = collect (keyed digest normalized) := by
  have hkeys {requests normalized : List (Request F)}
      (h : requests.mapM (normalizeRequest tables) = .ok normalized) :
      normalized.mapM (keyRequest tables digest) = .ok (keyed digest normalized) := by
    refine mapM_eq_ok_map fun request hrequest => ?_
    obtain ⟨raw, -, hraw⟩ := (mem_of_mapM h).mp hrequest
    exact (normalizeRequest_merged hraw).keyRequest_eq
  rw [mergeIndicatorRequests]
  simp only [Except.bind_eq_ok, Except.map_eq_ok]
  constructor
  · rintro ⟨defaults, hdefaults, normalized, hnormalized, keys, hkeyed, rfl⟩
    cases (hkeys hnormalized).symm.trans hkeyed
    exact ⟨defaults, normalized, hdefaults, hnormalized, rfl⟩
  · rintro ⟨defaults, normalized, hdefaults, hnormalized, rfl⟩
    exact ⟨defaults, hdefaults, normalized, hnormalized, _, hkeys hnormalized, rfl⟩

theorem mapM_merged {normalized : List (Request F)}
    (h : requests.mapM (normalizeRequest tables) = .ok normalized) :
    ∀ request ∈ normalized, Merged tables request := by
  intro request hrequest
  obtain ⟨raw, -, hraw⟩ := (mem_of_mapM h).mp hrequest
  exact normalizeRequest_merged hraw

/-- The merge keeps the requested variants and the defaults, each once. -/
theorem mem_mergeIndicatorRequests (hdigest : DigestInjective F digest)
    (h : mergeIndicatorRequests tables digest requests = .ok out) :
    ∃ defaults, defaultRequestPairs tables = .ok defaults ∧
      ∀ request, request ∈ out ↔
        ∃ raw ∈ defaults ++ requests, normalizeRequest tables raw = .ok request := by
  obtain ⟨defaults, normalized, hdefaults, hnormalized, rfl⟩ := mergeIndicatorRequests_eq_ok.mp h
  refine ⟨defaults, hdefaults, fun request => ?_⟩
  rw [mem_collect hdigest (mapM_merged hnormalized), mem_of_mapM hnormalized]

theorem mergeIndicatorRequests_nodup (hdigest : DigestInjective F digest)
    (h : mergeIndicatorRequests tables digest requests = .ok out) : out.Nodup := by
  obtain ⟨defaults, normalized, -, hnormalized, rfl⟩ := mergeIndicatorRequests_eq_ok.mp h
  exact nodup_collect hdigest (mapM_merged hnormalized)

/-- The order of the requests, and how often one is made, do not matter. -/
theorem mergeIndicatorRequests_congr (hdigest : DigestInjective F digest)
    {requests' : List (Request F)} (hmem : ∀ request, request ∈ requests ↔ request ∈ requests')
    (h : mergeIndicatorRequests tables digest requests = .ok out) :
    mergeIndicatorRequests tables digest requests' = .ok out := by
  obtain ⟨defaults, normalized, hdefaults, hnormalized, rfl⟩ := mergeIndicatorRequests_eq_ok.mp h
  have happend (request : Request F) : request ∈ defaults ++ requests' ↔
      request ∈ defaults ++ requests := by
    rw [List.mem_append, List.mem_append, hmem]
  obtain ⟨normalized', hnormalized'⟩ := exists_mapM_eq_ok.mpr fun request hrequest =>
    exists_mapM_eq_ok.mp ⟨_, hnormalized⟩ request ((happend request).mp hrequest)
  refine mergeIndicatorRequests_eq_ok.mpr ⟨defaults, normalized', hdefaults, hnormalized', ?_⟩
  refine collect_congr hdigest (mapM_merged hnormalized) fun request => ?_
  rw [mem_of_mapM hnormalized, mem_of_mapM hnormalized']
  simp only [happend]

/-- Merging what a merge returned changes nothing. -/
theorem mergeIndicatorRequests_idem (hdigest : DigestInjective F digest)
    (h : mergeIndicatorRequests tables digest requests = .ok out) :
    mergeIndicatorRequests tables digest out = .ok out := by
  obtain ⟨defaults, normalized, hdefaults, hnormalized, hout⟩ := mergeIndicatorRequests_eq_ok.mp h
  have hmerged := mapM_merged hnormalized
  have hmem (request : Request F) : request ∈ out ↔ request ∈ normalized := by
    rw [hout, mem_collect hdigest hmerged]
  have hnormal : ∀ raw ∈ defaults ++ out, ∃ request ∈ normalized,
      normalizeRequest tables raw = .ok request := by
    intro raw hraw
    rcases List.mem_append.mp hraw with hdefault | hkept
    · obtain ⟨request, hrequest⟩ := exists_mapM_eq_ok.mp ⟨_, hnormalized⟩ raw
        (List.mem_append_left _ hdefault)
      exact ⟨request, (mem_of_mapM hnormalized).mpr ⟨raw, List.mem_append_left _ hdefault, hrequest⟩,
        hrequest⟩
    · exact ⟨raw, (hmem raw).mp hkept, (hmerged raw ((hmem raw).mp hkept)).normalizeRequest_eq⟩
  obtain ⟨normalized', hnormalized'⟩ := exists_mapM_eq_ok.mpr fun raw hraw => by
    obtain ⟨request, -, hrequest⟩ := hnormal raw hraw
    exact ⟨request, hrequest⟩
  refine mergeIndicatorRequests_eq_ok.mpr ⟨defaults, normalized', hdefaults, hnormalized', ?_⟩
  rw [hout]
  refine collect_congr hdigest hmerged fun request => ?_
  rw [mem_of_mapM hnormalized']
  constructor
  · intro hrequest
    exact ⟨request, List.mem_append_right _ ((hmem request).mpr hrequest),
      (hmerged request hrequest).normalizeRequest_eq⟩
  · rintro ⟨raw, hraw, hrequest⟩
    obtain ⟨request', hmem', hrequest'⟩ := hnormal raw hraw
    cases hrequest.symm.trans hrequest'
    exact hmem'

/-- Each requested variant is there once, under the key of its canonical parameters. -/
theorem existsUnique_mergeIndicatorRequests (hdigest : DigestInjective F digest)
    (h : mergeIndicatorRequests tables digest requests = .ok out) {request : Request F}
    (hrequest : request ∈ requests) :
    ∃ c key, canonicalizeParameters tables true request.indicatorType (.object request.parameters) =
        .ok c ∧ parameterKey tables digest request.indicatorType (.object c) = .ok key ∧
          ∃! kept, kept ∈ out ∧
            parameterKey tables digest kept.indicatorType (.object kept.parameters) = .ok key := by
  obtain ⟨defaults, normalized, -, hnormalized, hout⟩ := mergeIndicatorRequests_eq_ok.mp h
  have hmerged := mapM_merged hnormalized
  have hmem (kept : Request F) : kept ∈ out ↔ kept ∈ normalized := by
    rw [hout, mem_collect hdigest hmerged]
  obtain ⟨kept, hkept⟩ := exists_mapM_eq_ok.mp ⟨_, hnormalized⟩ request
    (List.mem_append_right _ hrequest)
  have hkeptOut : kept ∈ normalized :=
    (mem_of_mapM hnormalized).mpr ⟨request, List.mem_append_right _ hrequest, hkept⟩
  obtain ⟨name, c, hname, hc, heq⟩ := normalizeRequest_eq_ok.mp hkept
  have hagain : canonicalizeParameters tables false request.indicatorType (.object c) = .ok c :=
    (isCanonical_canonicalizeParameters hname hc).canonicalizeParameters_eq hname nofun
  refine ⟨c, requestKey digest kept, hc, (parameterKey_eq_ok hname).mpr ⟨c, hagain, ?_⟩, kept,
    ⟨(hmem kept).mpr hkeptOut, (hmerged kept hkeptOut).parameterKey_eq⟩, fun other hother => ?_⟩
  · rw [heq]
    rfl
  · have hother' := hmerged other ((hmem other).mp hother.1)
    have hkey : parameterKey tables digest other.indicatorType (.object other.parameters) =
      .ok (requestKey digest other) := hother'.parameterKey_eq
    rw [hother.2] at hkey
    exact hother'.requestKey_injective hdigest (hmerged kept hkeptOut) (Except.ok.inj hkey).symm

end Merge

end Merging

/-! ## Identity -/

section Identity

variable {F : Type} [PyFloat F] [LawfulPyFloat F] {tables : CaseTables}
  {digest : List Char → List Char}

/-- Canonical forms have keys, and one key exactly when they are one form. -/
theorem exists_parameterKey (hdigest : DigestInjective F digest) {fillDefaults : Bool}
    {indicatorType indicatorType' name name' : List Char} {parameters parameters' : Json (Number F)}
    {c c' : Parameters F} (hname : normalizeIndicatorType tables indicatorType = .ok name)
    (hname' : normalizeIndicatorType tables indicatorType' = .ok name')
    (hc : canonicalizeParameters tables fillDefaults indicatorType parameters = .ok c)
    (hc' : canonicalizeParameters tables fillDefaults indicatorType' parameters' = .ok c') :
    ∃ key key', parameterKey tables digest indicatorType (.object c) = .ok key ∧
      parameterKey tables digest indicatorType' (.object c') = .ok key' ∧
        (key = key' ↔ name = name' ∧ keyForm name c = keyForm name' c') := by
  have hself : canonicalizeParameters tables false indicatorType (.object c) = .ok c :=
    (isCanonical_canonicalizeParameters hname hc).canonicalizeParameters_eq hname nofun
  have hself' : canonicalizeParameters tables false indicatorType' (.object c') = .ok c' :=
    (isCanonical_canonicalizeParameters hname' hc').canonicalizeParameters_eq hname' nofun
  have hkey : parameterKey tables digest indicatorType (.object c) =
      .ok (keyText digest name (keyForm name c)) := (parameterKey_eq_ok hname).mpr ⟨c, hself, rfl⟩
  have hkey' : parameterKey tables digest indicatorType' (.object c') =
      .ok (keyText digest name' (keyForm name' c')) :=
    (parameterKey_eq_ok hname').mpr ⟨c', hself', rfl⟩
  exact ⟨_, _, hkey, hkey', parameterKey_eq_iff hdigest hname hname' hself hself' hkey hkey'⟩

/-- The key of a mapping is that of its canonical form without defaults. -/
theorem parameterKey_canonicalizeParameters {indicatorType : List Char}
    {parameters : Json (Number F)} {c : Parameters F}
    (hc : canonicalizeParameters tables false indicatorType parameters = .ok c) :
    parameterKey tables digest indicatorType (.object c) =
      parameterKey tables digest indicatorType parameters := by
  obtain ⟨name, -, -, hname, -⟩ := canonicalizeParameters_eq_ok.mp hc
  rw [(parameterKey_eq_ok hname).mpr ⟨c, hc, rfl⟩,
    (parameterKey_eq_ok hname).mpr ⟨c, canonicalizeParameters_idem hc, rfl⟩]

/-- Canonicalization is idempotent and forgets how parameters are spelled; keys tell canonical forms
apart, for mappings those without defaults; and merging is idempotent, takes the requests in any
order and keeps each requested variant once. -/
theorem canonicalisation_identity (hdigest : DigestInjective F digest) :
    (∀ (fill : Bool) (indicatorType : List Char) (parameters : Json (Number F)) (c : Parameters F),
      canonicalizeParameters tables fill indicatorType parameters = .ok c →
        canonicalizeParameters tables fill indicatorType (.object c) = .ok c) ∧
    (∀ (fill : Bool) (indicatorType indicatorType' name : List Char)
      (parameters parameters' raw' c : Parameters F),
      normalizeIndicatorType tables indicatorType = .ok name →
      normalizeIndicatorType tables indicatorType' = .ok name →
      rawParameters tables (typeNames.lookup name) parameters' [] = .ok raw' →
      SameParameters tables (typeNames.lookup name) parameters parameters' →
      canonicalizeParameters tables fill indicatorType (.object parameters) = .ok c →
        canonicalizeParameters tables fill indicatorType' (.object parameters') = .ok c) ∧
    (∀ (fill : Bool) (indicatorType indicatorType' name name' : List Char)
      (parameters parameters' : Json (Number F)) (c c' : Parameters F),
      normalizeIndicatorType tables indicatorType = .ok name →
      normalizeIndicatorType tables indicatorType' = .ok name' →
      canonicalizeParameters tables fill indicatorType parameters = .ok c →
      canonicalizeParameters tables fill indicatorType' parameters' = .ok c' →
        ∃ key key', parameterKey tables digest indicatorType (.object c) = .ok key ∧
          parameterKey tables digest indicatorType' (.object c') = .ok key' ∧
            (key = key' ↔ name = name' ∧ keyForm name c = keyForm name' c')) ∧
    (∀ (indicatorType : List Char) (parameters : Json (Number F)) (c : Parameters F),
      canonicalizeParameters tables false indicatorType parameters = .ok c →
        parameterKey tables digest indicatorType (.object c) =
          parameterKey tables digest indicatorType parameters) ∧
    ∀ requests out : List (Request F), mergeIndicatorRequests tables digest requests = .ok out →
      mergeIndicatorRequests tables digest out = .ok out ∧
      (∀ requests', requests'.Perm requests →
        mergeIndicatorRequests tables digest requests' = .ok out) ∧
      out.Nodup ∧
      ∀ request ∈ requests, ∃ c key,
        canonicalizeParameters tables true request.indicatorType (.object request.parameters) =
          .ok c ∧ parameterKey tables digest request.indicatorType (.object c) = .ok key ∧
            ∃! kept, kept ∈ out ∧
              parameterKey tables digest kept.indicatorType (.object kept.parameters) = .ok key := by
  refine ⟨fun fill indicatorType parameters c => canonicalizeParameters_idem, ?_, ?_, ?_, ?_⟩
  · intro fill indicatorType indicatorType' name parameters parameters' raw' c hname hname' hraw'
      hsame hc
    exact canonicalizeParameters_eq_of_same hname hname' hraw' hsame hc
  · intro fill indicatorType indicatorType' name name' parameters parameters' c c' hname hname' hc hc'
    exact exists_parameterKey hdigest hname hname' hc hc'
  · intro indicatorType parameters c hc
    exact parameterKey_canonicalizeParameters hc
  · intro requests out hout
    refine ⟨mergeIndicatorRequests_idem hdigest hout, fun requests' hperm => ?_,
      mergeIndicatorRequests_nodup hdigest hout, fun request hrequest => ?_⟩
    · exact mergeIndicatorRequests_congr hdigest (fun request => hperm.symm.mem_iff) hout
    · exact existsUnique_mergeIndicatorRequests hdigest hout hrequest

end Identity

/-! ## A concrete digest -/

section Concrete

/-- The whole floats whose text has no exponent. -/
abbrev WholeFloat := {n : ℤ // n.natAbs < 10 ^ 16}

instance : PyFloat WholeFloat where
  isFinite _ := true
  isPositive x := 0 < x.1
  toInteger x := some x.1
  ofInteger n := if h : n.natAbs < 10 ^ 16 then some ⟨n, h⟩ else none
  eq x y := x = y
  repr x := integerText x.1 ++ ".0".toList
  two := ⟨2, by decide⟩

theorem wholeFloat_ofInteger {n : ℤ} {x : WholeFloat} (h : PyFloat.ofInteger n = some x) :
    x.1 = n := by
  change (if h : n.natAbs < 10 ^ 16 then some ⟨n, h⟩ else none) = some x at h
  split at h
  · cases h
    rfl
  · cases h

instance : LawfulPyFloat WholeFloat where
  toInteger_positive h := by
    cases h
    exact decide_eq_true_iff
  ofInteger_toInteger _ h := by
    cases h
    exact dif_pos _
  ofInteger_positive h := by
    rw [← wholeFloat_ofInteger h]
    exact decide_eq_true_iff
  eq_self _ := decide_eq_true rfl
  eq_of_eq _ h := of_decide_eq_true h
  repr_injective _ _ h := Subtype.ext (integerText_injective (List.append_cancel_right h))
  repr_chars _ c hc := by
    rw [Json.isNumberChar, Bool.or_eq_true]
    rcases List.mem_append.mp hc with hc | hc
    · rcases integerText_chars hc with hc | rfl
      · exact .inl hc
      · exact .inr (by decide)
    · have hall : ∀ c ∈ ".0".toList, Json.isNumberChar c := List.all_eq_true.mp (by decide)
      rw [← Bool.or_eq_true]
      exact hall c hc
  repr_point _ := .inl (List.mem_append_right _ (by decide))
  two_valid := ⟨rfl, rfl⟩

/-- The tables of the Latin letters alone. -/
def latinTables : CaseTables where
  toLowercase := Lowercase.latin
  upper c := [c.toUpper]
  lower_ascii _ _ := rfl
  lower_ne_nil h := fun hnil => h (List.map_eq_nil_iff.mp hnil)
  upper_ascii _ := rfl
  upper_ne_nil _ := List.cons_ne_nil _ _
  upper_upper h := by
    rw [List.mem_singleton.mp h, UnicodeTables.toUpper_toUpper]
  isspace_upper hspace h := by
    rw [List.mem_singleton.mp h, UnicodeTables.isspace_toUpper, hspace]

def wholePeriod (n : ℤ) : Parameters WholeFloat := [("period".toList, integerValue n)]

/-- The SHA-256 of the texts that are hashed below. -/
def sha256Rows : List (List Char × List Char) :=
  [(serialized "MA".toList [("periods".toList, (periodsValue [5, 10] : Json (Number WholeFloat)))],
      "08131d27695f4b4708197a559211138b8860338d3734e59654ff2923cdc05fa1".toList),
    (serialized "PROJECTED_MA".toList (wholePeriod 5),
      "6fd1c28bc0cd982c90703851e3b0498b97ae2f88b268cb2699ccfe8e511caf33".toList),
    (serialized "RSI".toList (wholePeriod 14),
      "3896618a9e4a7eaa1d59531d21e9226eb337aba3edc55ef7221b838f9304516f".toList),
    (serialized "RSI".toList ([] : Parameters WholeFloat),
      "2b787216e3d7b6dd79706a33b57a1bd3d1f573f179d0e9177dbb6ee6417449bf".toList),
    (serialized "KDJ".toList ([("d_period".toList, integerValue 3),
        ("k_period".toList, integerValue 3), ("period".toList, integerValue 9)] :
          Parameters WholeFloat),
      "ed8542ebcf1908c24e4f8ce15ab450bb2f43b558cec2317d81e229a0c800c1b3".toList),
    (serialized "BOLL".toList (("multiplier".toList, .number (.float PyFloat.two)) :: wholePeriod 20),
      "4110d0ebb000eef66506b663c61edd3c394a043b5c11adad044f223e009930dd".toList),
    (serialized "MACD".toList ([("fast_period".toList, integerValue 12),
        ("signal_period".toList, integerValue 9), ("slow_period".toList, integerValue 26)] :
          Parameters WholeFloat),
      "1009c516b56dbebe1201025c1ba960891ccf9011362b32a95b87d043f60a8e93".toList)]

/-- Other texts are not hashed below. -/
def sha256 (text : List Char) : List Char := (sha256Rows.lookup text).getD ('x' :: text)

/-- A table of digests in which no other text stands. -/
theorem getD_lookup_injective {rows : List (List Char × List Char)}
    (hhead : ∀ m ∈ rows, m.2.head? ≠ some 'x')
    (hrows : ∀ m ∈ rows, ∀ m' ∈ rows, m.2 = m'.2 → m.1 = m'.1) :
    Function.Injective fun text => (rows.lookup text).getD ('x' :: text) := by
  intro text text' h
  dsimp only at h
  cases hlookup : rows.lookup text with
  | none =>
    cases hlookup' : rows.lookup text' with
    | none =>
      rw [hlookup, hlookup'] at h
      exact (List.cons.inj h).2
    | some key =>
      rw [hlookup, hlookup'] at h
      have hkey : 'x' :: text = key := h
      exact absurd (congrArg List.head? hkey.symm) (hhead _ (mem_of_lookup hlookup'))
  | some key =>
    cases hlookup' : rows.lookup text' with
    | none =>
      rw [hlookup, hlookup'] at h
      have hkey : key = 'x' :: text' := h
      exact absurd (congrArg List.head? hkey) (hhead _ (mem_of_lookup hlookup))
    | some key' =>
      rw [hlookup, hlookup'] at h
      exact hrows _ (mem_of_lookup hlookup) _ (mem_of_lookup hlookup') h

theorem sha256_injective : Function.Injective sha256 :=
  getD_lookup_injective (by decide +kernel) (by decide +kernel)

/-- A request for RSI with another spelling of its default. -/
def spelledRequest : Request WholeFloat :=
  ⟨" rsi".toList, [(" Period ".toList, .number (.float ⟨14, by decide⟩))]⟩

theorem digestInjective_sha256 : DigestInjective WholeFloat sha256 :=
  sha256_injective.injOn

theorem wholeFloat_canonicalisation_identity : ∃ out,
    mergeIndicatorRequests latinTables sha256 [spelledRequest] = .ok out ∧
      mergeIndicatorRequests latinTables sha256 out = .ok out ∧ out.Nodup ∧
        ∃! kept, kept ∈ out ∧
          parameterKey latinTables sha256 kept.indicatorType (.object kept.parameters) =
            .ok (keyText sha256 "RSI".toList (wholePeriod 14)) := by
  obtain ⟨out, hout⟩ : ∃ out,
      mergeIndicatorRequests latinTables sha256 [spelledRequest] = .ok out :=
    Except.exists_of_isOk (by decide +kernel)
  obtain ⟨hidem, -, hnodup, hkept⟩ :=
    (canonicalisation_identity digestInjective_sha256).2.2.2.2 _ out hout
  obtain ⟨c, key, hc, hkey, hunique⟩ := hkept spelledRequest (List.mem_singleton_self _)
  have hcanonical : canonicalizeParameters latinTables true spelledRequest.indicatorType
      (.object spelledRequest.parameters) = .ok (wholePeriod 14) := rfl
  cases hcanonical.symm.trans hc
  have hkey' : parameterKey latinTables sha256 spelledRequest.indicatorType
      (.object (wholePeriod 14)) = .ok (keyText sha256 "RSI".toList (wholePeriod 14)) := rfl
  cases hkey'.symm.trans hkey
  exact ⟨out, hout, hidem, hnodup, hunique⟩

/-- With the defaults filled in, an empty mapping and one that gives the default are one form, but
their keys differ. -/
theorem not_parameterKey_eq_iff_filled :
    ¬ ∀ (parameters parameters' : Json (Number WholeFloat)) (c c' : Parameters WholeFloat)
      (key key' : List Char),
        canonicalizeParameters latinTables true "RSI".toList parameters = .ok c →
        canonicalizeParameters latinTables true "RSI".toList parameters' = .ok c' →
        parameterKey latinTables sha256 "RSI".toList parameters = .ok key →
        parameterKey latinTables sha256 "RSI".toList parameters' = .ok key' →
          (key = key' ↔ keyForm "RSI".toList c = keyForm "RSI".toList c') := by
  intro h
  have hkey : parameterKey latinTables sha256 "RSI".toList (.object []) =
      .ok (keyText sha256 "RSI".toList ([] : Parameters WholeFloat)) := rfl
  have hkey' : parameterKey latinTables sha256 "RSI".toList (.object (wholePeriod 14)) =
      .ok (keyText sha256 "RSI".toList (wholePeriod 14)) := rfl
  have heq := (h _ _ (wholePeriod 14) (wholePeriod 14) _ _ rfl rfl hkey hkey').mpr rfl
  have hempty : Hashable ([] : Parameters WholeFloat) := ⟨List.Pairwise.nil, nofun⟩
  have hperiod : Hashable (wholePeriod 14) := by
    refine ⟨List.pairwise_singleton _ _, fun m hm => ?_⟩
    rw [List.mem_singleton.mp hm]
    exact .number trivial
  cases ((keyText_injective digestInjective_sha256 hempty hperiod).mp heq).2

end Concrete

end Canonical

end Apanel
