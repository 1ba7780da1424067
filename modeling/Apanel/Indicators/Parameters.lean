import Apanel.Library.Table
import Apanel.Indicators.Arithmetic
import Mathlib.Data.Prod.Lex
import Mathlib.Data.List.Sort
import Mathlib.Data.List.Lex

/-!
# Indicator parameters

Canonical indicator requests (`app/indicators/parameters.py`), the merge of the requests of all
users with the defaults, and the demand key of a stream. `parameter_key` is the SHA-256 digest of
the canonical JSON of a request: a request stands for its own key here, and the order of the
digests is an arbitrary linear order on requests, on which nothing below depends.
-/

namespace Apanel

inductive IndicatorType
  | ma
  | projectedMa
  | rsi
  | kdj
  | boll
  | macd
  deriving DecidableEq

/-- A period accepted by `_normalize_parameter_value`: positive and at most
`MAX_INDICATOR_PERIOD`. -/
abbrev Period := {n : ℕ // 0 < n ∧ n ≤ 10000}

/-- A fixed period. -/
abbrev Period.of (n : ℕ) (h : decide (0 < n ∧ n ≤ 10000) = true := by exact Eq.refl true) : Period :=
  ⟨n, of_decide_eq_true h⟩

/-- `periods` of an MA request: sorted, without repetition, not empty, at most `MAX_MA_PERIODS`. -/
structure MaPeriods where
  periods : List Period
  sorted : periods.Pairwise (· < ·)
  nonempty : periods ≠ []
  length_le : periods.length ≤ 32
  deriving DecidableEq

/-- One calculation request after canonicalization. -/
inductive IndicatorRequest (F : Type)
  | ma (periods : MaPeriods)
  | projectedMa (period : Period)
  | rsi (period : Period)
  | kdj (period kPeriod dPeriod : Period)
  | boll (period : Period) (multiplier : F)
  | macd (fastPeriod slowPeriod signalPeriod : Period)

namespace IndicatorRequest

variable {F : Type}

def indicatorType : IndicatorRequest F → IndicatorType
  | ma _ => .ma
  | projectedMa _ => .projectedMa
  | rsi _ => .rsi
  | kdj _ _ _ => .kdj
  | boll _ _ => .boll
  | macd _ _ _ => .macd

/-- `_ma_periods` of the parameters. -/
def maPeriods : IndicatorRequest F → List Period
  | ma periods => periods.periods
  | _ => []

def isMa (request : IndicatorRequest F) : Bool := request.indicatorType = .ma

end IndicatorRequest

/-- The position of an indicator type among the type names in alphabetical order. -/
def IndicatorType.nameRank : IndicatorType → ℕ
  | .boll => 0
  | .kdj => 1
  | .ma => 2
  | .macd => 3
  | .projectedMa => 4
  | .rsi => 5

section Defaults

variable {F : Type} [Arith F]

/-- `DEFAULT_PARAMETER_MAP` of one indicator type. -/
def defaultParameters : IndicatorType → IndicatorRequest F
  | .ma => .ma ⟨[⟨5, by decide⟩, ⟨10, by decide⟩], by decide, by decide, by decide⟩
  | .projectedMa => .projectedMa ⟨5, by decide⟩
  | .rsi => .rsi ⟨14, by decide⟩
  | .kdj => .kdj ⟨9, by decide⟩ ⟨3, by decide⟩ ⟨3, by decide⟩
  | .boll => .boll ⟨20, by decide⟩ (Arith.ofNat 2)
  | .macd => .macd ⟨12, by decide⟩ ⟨26, by decide⟩ ⟨9, by decide⟩

/-- `_default_request_pairs`. -/
def defaultRequests : List (IndicatorRequest F) :=
  [.ma, .projectedMa, .rsi, .kdj, .boll, .macd].map defaultParameters

@[simp] theorem defaultParameters_indicatorType (type : IndicatorType) :
    (defaultParameters (F := F) type).indicatorType = type := by
  cases type <;> rfl

end Defaults

section Merge

variable {F : Type} [LinearOrder (IndicatorRequest F)]

/-- The dictionary of the requests of one kind, by canonical key. -/
def requestTable (κ : Type) [LinearOrder κ] (key : IndicatorRequest F → κ)
    (requests : List (IndicatorRequest F)) : Table κ (IndicatorRequest F) :=
  Table.ofList (requests.map fun request => (key request, request))

/-- Merge defaults with table/user requests and deduplicate by canonical key: the MA requests in
key order, then the others by type name and key. -/
def mergeIndicatorRequests [Arith F] (requests : List (IndicatorRequest F)) :
    List (IndicatorRequest F) :=
  let rawRequests := defaultRequests ++ requests
  let maRequests := requestTable (IndicatorRequest F) id (rawRequests.filter (·.isMa))
  let others := requestTable (ℕ ×ₗ IndicatorRequest F)
    (fun request => toLex (request.indicatorType.nameRank, request))
    (rawRequests.filter (!·.isMa))
  maRequests.rows.map (·.2) ++ others.rows.map (·.2)

/-- The demand key of `AnalysisService.materialize`: the digest of the sorted request keys, which
stands for its preimage. -/
def demandKey (effective : List (IndicatorRequest F)) : List (IndicatorRequest F) :=
  effective.insertionSort (· ≤ ·)

theorem get?_requestTable {κ : Type} [LinearOrder κ] {key : IndicatorRequest F → κ}
    (hkey : Function.Injective key) (requests : List (IndicatorRequest F)) (k : κ)
    (request : IndicatorRequest F) :
    (requestTable κ key requests).get? k = some request ↔
      request ∈ requests ∧ key request = k := by
  suffices h : ∀ t : Table κ (IndicatorRequest F),
      (t.insertMany (requests.map fun r => (key r, r))).get? k = some request ↔
        (request ∈ requests ∧ key request = k) ∨
          (∀ r ∈ requests, key r ≠ k) ∧ t.get? k = some request by
    simpa [requestTable, Table.ofList] using h ∅
  induction requests with
  | nil => simp
  | cons r requests ih =>
    intro t
    rw [List.map_cons, Table.insertMany_cons, ih, Table.get?_insert]
    by_cases hr : k = key r
    · subst hr
      simp only [↓reduceIte, hkey.eq_iff, Option.some.injEq, List.mem_cons, ne_eq, forall_eq_or_imp,
        not_true_eq_false, false_and, or_false]
      constructor
      · rintro (⟨h, rfl⟩ | ⟨-, rfl⟩) <;> simp
      · rintro ⟨h, rfl⟩
        by_cases hm : request ∈ requests
        · exact .inl ⟨hm, rfl⟩
        · exact .inr ⟨fun r' hr' e => hm (e ▸ hr'), rfl⟩
    · have hne : key r ≠ k := fun e => hr e.symm
      simp only [if_neg hr, List.mem_cons, forall_eq_or_imp, hne, ne_eq, not_false_eq_true,
        true_and]
      constructor
      · rintro (⟨h, e⟩ | h)
        · exact .inl ⟨.inr h, e⟩
        · exact .inr h
      · rintro (⟨rfl | h, e⟩ | h)
        · exact absurd e hne
        · exact .inl ⟨h, e⟩
        · exact .inr h

theorem mem_requestTable_rows {κ : Type} [LinearOrder κ] {key : IndicatorRequest F → κ}
    (hkey : Function.Injective key) (requests : List (IndicatorRequest F))
    (request : IndicatorRequest F) :
    request ∈ (requestTable κ key requests).rows.map (·.2) ↔ request ∈ requests := by
  simp only [List.mem_map, Prod.exists, ← Table.get?_eq_some, get?_requestTable hkey]
  simp

/-- A request table depends only on which requests there are. -/
theorem requestTable_congr {κ : Type} [LinearOrder κ] {key : IndicatorRequest F → κ}
    (hkey : Function.Injective key) {requests requests' : List (IndicatorRequest F)}
    (h : ∀ r, r ∈ requests ↔ r ∈ requests') :
    requestTable κ key requests = requestTable κ key requests' :=
  Table.ext_get? fun k => Option.ext fun r => by
    rw [get?_requestTable hkey, get?_requestTable hkey, h]

omit [LinearOrder (IndicatorRequest F)] in
theorem rankedKey_injective : Function.Injective fun request : IndicatorRequest F =>
    toLex (request.indicatorType.nameRank, request) :=
  fun _ _ h => (Prod.mk.inj (toLex.injective h)).2

variable [Arith F]

theorem mem_mergeIndicatorRequests {requests : List (IndicatorRequest F)}
    {request : IndicatorRequest F} :
    request ∈ mergeIndicatorRequests requests ↔
      request ∈ defaultRequests ∨ request ∈ requests := by
  simp only [mergeIndicatorRequests, List.mem_append,
    mem_requestTable_rows Function.injective_id, mem_requestTable_rows rankedKey_injective,
    List.mem_filter]
  cases request.isMa <;> simp

theorem mergeIndicatorRequests_congr {requests requests' : List (IndicatorRequest F)}
    (h : ∀ r, r ∈ mergeIndicatorRequests requests ↔ r ∈ mergeIndicatorRequests requests') :
    mergeIndicatorRequests requests = mergeIndicatorRequests requests' := by
  simp only [mem_mergeIndicatorRequests] at h
  simp only [mergeIndicatorRequests]
  rw [requestTable_congr Function.injective_id, requestTable_congr rankedKey_injective]
  all_goals intro r; simp only [List.mem_filter, List.mem_append, h]

/-- The demand key identifies the merged requests. -/
theorem mergeIndicatorRequests_eq_of_demandKey_eq {requests requests' : List (IndicatorRequest F)}
    (h : demandKey (mergeIndicatorRequests requests) =
      demandKey (mergeIndicatorRequests requests')) :
    mergeIndicatorRequests requests = mergeIndicatorRequests requests' :=
  mergeIndicatorRequests_congr fun r => by
    have hmem (requests : List (IndicatorRequest F)) : r ∈ demandKey requests ↔ r ∈ requests :=
      List.mem_insertionSort _
    rw [← hmem, h, hmem]

end Merge

/-! ## Concrete keys -/

/-- The integers that identify a request, by which the requests of the concrete arithmetic are
ordered. -/
def IndicatorRequest.code : IndicatorRequest Ranged → List ℤ
  | .ma periods => 0 :: periods.periods.map fun period => (period.1 : ℤ)
  | .projectedMa period => [1, period.1]
  | .rsi period => [2, period.1]
  | .kdj period kPeriod dPeriod => [3, period.1, kPeriod.1, dPeriod.1]
  | .boll period multiplier => 4 :: (period.1 : ℤ) :: multiplier.code
  | .macd fastPeriod slowPeriod signalPeriod => [5, fastPeriod.1, slowPeriod.1, signalPeriod.1]

theorem MaPeriods.ext {a b : MaPeriods} (h : a.periods = b.periods) : a = b := by
  cases a; cases b; cases h; rfl

theorem IndicatorRequest.code_injective : Function.Injective IndicatorRequest.code := by
  have hperiod {a b : Period} (h : (a.1 : ℤ) = b.1) : a = b := Subtype.ext (by exact_mod_cast h)
  intro a b h
  cases a <;> cases b <;> simp only [code, List.cons.injEq, and_true] at h <;>
    first | exact absurd h.1 (by decide) | skip
  case ma.ma a b =>
    exact congrArg _ (MaPeriods.ext (List.map_injective_iff.mpr (fun _ _ => hperiod) h.2))
  case projectedMa.projectedMa => rw [hperiod h.2]
  case rsi.rsi => rw [hperiod h.2]
  case kdj.kdj => rw [hperiod h.2.1, hperiod h.2.2.1, hperiod h.2.2.2]
  case boll.boll => rw [hperiod h.2.1, Ranged.code_injective h.2.2]
  case macd.macd => rw [hperiod h.2.1, hperiod h.2.2.1, hperiod h.2.2.2]

instance : LinearOrder (IndicatorRequest Ranged) :=
  LinearOrder.lift' IndicatorRequest.code IndicatorRequest.code_injective

end Apanel
