import Apanel.Indicators.Parameters
import Apanel.Library.Causal
import Apanel.Library.Json
import Apanel.Library.Text

/-!
# Canonical parameters

Parameters arrive as a JSON object: names in any case and between blanks, numbers as integers or
floats, `std` for `multiplier`. `canonicalize_parameters` brings them into one form, from which
`parameter_key` computes the identity under which results are stored, and
`merge_indicator_requests` collects the requests of all users, each once.
-/

namespace Apanel

/-- The floats of Python: `toInteger` is `int` of a float with `is_integer`, `ofInteger` is `float`
of an integer, which may overflow, and `eq` is `==`. -/
class PyFloat (F : Type) where
  isFinite : F → Bool
  isPositive : F → Bool
  toInteger : F → Option ℤ
  ofInteger : ℤ → Option F
  eq : F → F → Bool
  repr : F → List Char
  two : F

/-- The shortest text of a float that reads back as the float has a point or an exponent. -/
class LawfulPyFloat (F : Type) [PyFloat F] : Prop where
  toInteger_positive {x : F} {n : ℤ} : PyFloat.toInteger x = some n →
    (PyFloat.isPositive x ↔ 0 < n)
  ofInteger_toInteger {x : F} {n : ℤ} : PyFloat.isPositive x → PyFloat.toInteger x = some n →
    PyFloat.ofInteger n = some x
  ofInteger_positive {x : F} {n : ℤ} : PyFloat.ofInteger n = some x →
    (PyFloat.isPositive x ↔ 0 < n)
  eq_self {x : F} : PyFloat.isPositive x → PyFloat.eq x x
  eq_of_eq {x y : F} : PyFloat.isPositive x → PyFloat.eq x y → x = y
  repr_injective {x y : F} : PyFloat.isFinite x → PyFloat.isFinite y →
    PyFloat.repr x = PyFloat.repr y → x = y
  repr_chars {x : F} : PyFloat.isFinite x → ∀ c ∈ PyFloat.repr x, Json.isNumberChar c
  repr_point {x : F} : PyFloat.isFinite x → '.' ∈ PyFloat.repr x ∨ 'e' ∈ PyFloat.repr x
  two_valid : PyFloat.isFinite (PyFloat.two : F) ∧ PyFloat.isPositive (PyFloat.two : F)

/-- The case tables of Python's texts. Upper-casing twice is upper-casing once, and what is not
blank does not become blank. -/
structure CaseTables extends Lowercase where
  upper : Char → List Char
  lower_ascii (text : List Char) : (∀ c ∈ text, c.toNat < 128) → lower text = text.map Char.toLower
  lower_ne_nil {text : List Char} : text ≠ [] → lower text ≠ []
  upper_ascii {c : Char} : c.toNat < 128 → upper c = [c.toUpper]
  upper_ne_nil (c : Char) : upper c ≠ []
  upper_upper {c d : Char} : d ∈ upper c → upper d = [d]
  isspace_upper {c d : Char} : isspace c = false → d ∈ upper c → isspace d = false

/-- The numbers of JSON parameters. -/
inductive Number (F : Type)
  | int (value : ℤ)
  | float (value : F)

/-- What the functions below raise: errors of the API, and the overflow of `float`. -/
inductive ParameterFailure
  | api (code message : String) (statusCode : ℕ)
  | overflow
deriving DecidableEq

namespace Canonical

abbrev Parameters (F : Type) := List (List Char × Json (Number F))

def invalid (message : String) : ParameterFailure := .api "INVALID_INDICATOR_PARAMETERS" message 400

/-! ## Equality of Python -/

section Equality

variable {F : Type} [PyFloat F]

def numberEq : Number F → Number F → Bool
  | .int m, .int n => m = n
  | .int n, .float x => PyFloat.toInteger x = some n
  | .float x, .int n => PyFloat.toInteger x = some n
  | .float x, .float y => PyFloat.eq x y

/-- A truth value counts as a number. -/
def asNumber : Json (Number F) → Option (Number F)
  | .bool value => some (.int (if value then 1 else 0))
  | .number n => some n
  | _ => none

mutual

def pyEq (a b : Json (Number F)) : Bool :=
  match a, b with
  | .null, .null => true
  | .string text, .string text' => text = text'
  | .array items, .array items' => items.length = items'.length && pyEqItems items items'
  | .object members, .object members' =>
    members.length = members'.length && pyEqMembers members members'
  | .bool value, b => (asNumber b).any (numberEq (.int (if value then 1 else 0)))
  | .number n, b => (asNumber b).any (numberEq n)
  | _, _ => false

def pyEqItems : List (Json (Number F)) → List (Json (Number F)) → Bool
  | item :: items, item' :: items' => pyEq item item' && pyEqItems items items'
  | _, _ => true

def pyEqMembers : Parameters F → Parameters F → Bool
  | [], _ => true
  | (name, value) :: members, members' =>
    (match members'.lookup name with
      | none => false
      | some value' => pyEq value value') && pyEqMembers members members'

end

end Equality

/-! ## Names -/

section Names

variable (tables : CaseTables)

/-- The underscore stands for the hyphen and the blank. -/
def underscore (c : Char) : Char := if c = '-' ∨ c = ' ' then '_' else c

/-- `INDICATOR_ALIASES`. -/
def indicatorAliases : List (List Char × List Char) :=
  [("SMA".toList, "MA".toList), ("PMA".toList, "PROJECTED_MA".toList),
    ("PROJECTEDMA".toList, "PROJECTED_MA".toList), ("BOLLINGER".toList, "BOLL".toList)]

def upperName (value : List Char) : List Char :=
  ((strip value).flatMap tables.upper).map underscore

def normalizeIndicatorType (value : List Char) : Except ParameterFailure (List Char) :=
  if strip value = [] then .error (invalid "Indicator type is required.")
  else .ok ((indicatorAliases.lookup (upperName tables value)).getD (upperName tables value))

end Names

/-- The types of `INDICATOR_PARAMETER_KEYS`. -/
def typeNames : List (List Char × IndicatorType) :=
  [("MA".toList, .ma), ("PROJECTED_MA".toList, .projectedMa), ("RSI".toList, .rsi),
    ("KDJ".toList, .kdj), ("BOLL".toList, .boll), ("MACD".toList, .macd)]

def typeName : IndicatorType → List Char
  | .ma => "MA".toList
  | .projectedMa => "PROJECTED_MA".toList
  | .rsi => "RSI".toList
  | .kdj => "KDJ".toList
  | .boll => "BOLL".toList
  | .macd => "MACD".toList

/-- `INDICATOR_PARAMETER_KEYS`. -/
def parameterKeys : IndicatorType → List (List Char)
  | .ma => ["period".toList, "periods".toList]
  | .projectedMa => ["period".toList]
  | .rsi => ["period".toList]
  | .kdj => ["period".toList, "k_period".toList, "d_period".toList]
  | .boll => ["period".toList, "multiplier".toList]
  | .macd => ["fast_period".toList, "slow_period".toList, "signal_period".toList]

/-- `INTEGER_PARAMETER_KEYS`. -/
def integerParameterKeys : List (List Char) :=
  ["period".toList, "periods".toList, "k_period".toList, "d_period".toList, "fast_period".toList,
    "slow_period".toList, "signal_period".toList]

section Values

variable {F : Type} [PyFloat F]

def mustBePositiveInteger (key : List Char) : ParameterFailure :=
  invalid ("Indicator parameter " ++ String.ofList key ++ " must be a positive integer.")

/-- The integer of a number; truth values are none. -/
def asInteger : Json (Number F) → Option ℤ
  | .number (.int n) => some n
  | .number (.float x) => PyFloat.toInteger x
  | _ => none

/-- The first part of `_normalize_parameter_value`. -/
def normalizeInteger (key : List Char) (value : Json (Number F)) : Except ParameterFailure ℤ :=
  match asInteger value with
  | none => .error (mustBePositiveInteger key)
  | some n =>
    if n ≤ 0 then .error (mustBePositiveInteger key)
    else if 10000 < n then
      .error (invalid ("Indicator parameter " ++ String.ofList key ++ " must not exceed 10000."))
    else .ok n

def asFloat (key : List Char) : Json (Number F) → Except ParameterFailure F
  | .number (.int n) =>
    match PyFloat.ofInteger n with
    | none => .error .overflow
    | some x => .ok x
  | .number (.float x) => .ok x
  | _ => .error (invalid ("Indicator parameter " ++ String.ofList key ++ " must be numeric."))

/-- The second part of `_normalize_parameter_value`. -/
def normalizeFloat (key : List Char) (value : Json (Number F)) : Except ParameterFailure F :=
  asFloat key value >>= fun x =>
    if PyFloat.isFinite x && PyFloat.isPositive x then .ok x
    else .error
      (invalid ("Indicator parameter " ++ String.ofList key ++ " must be positive and finite."))

def normalizeParameterValue (key : List Char) (value : Json (Number F)) :
    Except ParameterFailure (Json (Number F)) :=
  if key ∈ integerParameterKeys then
    (fun n => .number (.int n)) <$> normalizeInteger key value
  else (fun x => .number (.float x)) <$> normalizeFloat key value

def normalizeNumber : Number F → Except ParameterFailure (Number F)
  | .int n => if (PyFloat.ofInteger n : Option F).isNone then .error .overflow else .ok (.int n)
  | .float x =>
    if PyFloat.isFinite x then .ok (.float x)
    else .error (invalid "Indicator parameters must contain finite numbers.")

/-- The members of an object in the order of their names, once all values are normalized. -/
def sortedMembers (members : List (List Char × Except ParameterFailure (Json (Number F)))) :
    Except ParameterFailure (Parameters F) :=
  (Table.ofList members).rows.mapM fun m => (fun value => (m.1, value)) <$> m.2

mutual

def normalizeJsonValue : Json (Number F) → Except ParameterFailure (Json (Number F))
  | .null => .ok .null
  | .bool value => .ok (.bool value)
  | .number n => .number <$> normalizeNumber n
  | .string text => .ok (.string text)
  | .array items => .array <$> normalizeJsonItems items
  | .object members => .object <$> sortedMembers (normalizeJsonMembers members)

def normalizeJsonItems : List (Json (Number F)) → Except ParameterFailure (List (Json (Number F)))
  | [] => .ok []
  | item :: items =>
    normalizeJsonValue item >>= fun item => (item :: ·) <$> normalizeJsonItems items

def normalizeJsonMembers :
    Parameters F → List (List Char × Except ParameterFailure (Json (Number F)))
  | [] => []
  | (name, value) :: members => (name, normalizeJsonValue value) :: normalizeJsonMembers members

end

end Values

/-! ## Canonical parameters -/

section Canonicalize

variable {F : Type} [PyFloat F] (tables : CaseTables)

/-- The item of a dictionary keeps its place when it is assigned again. -/
def setItem : Parameters F → List Char → Json (Number F) → Parameters F
  | [], key, value => [(key, value)]
  | m :: raw, key, value =>
    if m.1 = key then (key, value) :: raw else m :: setItem raw key value

/-- A name without its blanks and in lower case; BOLL has three more names for its multiplier. -/
def parameterName (type : Option IndicatorType) (key : List Char) : List Char :=
  let normalizedKey := tables.lower (strip key)
  if type = some .boll ∧ normalizedKey ∈ ["std".toList, "stddev".toList, "std_dev".toList] then
    "multiplier".toList
  else normalizedKey

/-- The loop over the given parameters. -/
def rawParameters (type : Option IndicatorType) :
    Parameters F → Parameters F → Except ParameterFailure (Parameters F)
  | [], raw => .ok raw
  | (key, value) :: parameters, raw =>
    if strip key = [] then
      .error (invalid "Indicator parameter names must be non-empty strings.")
    else if (raw.lookup (parameterName tables type key)).any fun earlier => !pyEq earlier value then
      .error (invalid "Indicator parameters contain duplicate names.")
    else rawParameters type parameters (setItem raw (parameterName tables type key) value)

def periodsValue (periods : List ℤ) : Json (Number F) :=
  .array (periods.map fun n => .number (.int n))

def integerValue (n : ℤ) : Json (Number F) := .number (.int n)

/-- `DEFAULT_PARAMETER_MAP`. -/
def defaultMapping : IndicatorType → Parameters F
  | .ma => [("periods".toList, periodsValue [5, 10])]
  | .projectedMa => [("period".toList, integerValue 5)]
  | .rsi => [("period".toList, integerValue 14)]
  | .kdj => [("period".toList, integerValue 9), ("k_period".toList, integerValue 3),
      ("d_period".toList, integerValue 3)]
  | .boll => [("period".toList, integerValue 20),
      ("multiplier".toList, .number (.float PyFloat.two))]
  | .macd => [("fast_period".toList, integerValue 12), ("slow_period".toList, integerValue 26),
      ("signal_period".toList, integerValue 9)]

/-- The defaults if these are to be filled in. -/
def defaults (fillDefaults : Bool) (type : Option IndicatorType) : Parameters F :=
  if fillDefaults then (type.map defaultMapping).getD [] else []

/-- `sorted` of a set. -/
def sortedSet (periods : List ℤ) : List ℤ := periods.dedup.insertionSort (· ≤ ·)

def canonicalizeMa (fillDefaults : Bool) (raw : Parameters F) :
    Except ParameterFailure (Parameters F) :=
  match raw.lookup "period".toList, raw.lookup "periods".toList with
  | some _, some _ => .error (invalid "MA accepts either period or periods, not both.")
  | some value, none =>
    (fun n => [("period".toList, integerValue n)]) <$> normalizeInteger "period".toList value
  | none, some (.array (item :: items)) =>
    (item :: items).mapM (normalizeInteger "period".toList) >>= fun periods =>
      if 32 < (sortedSet periods).length then
        .error (invalid "MA accepts at most 32 distinct periods.")
      else .ok [("periods".toList, periodsValue (sortedSet periods))]
  | none, some _ => .error (invalid "MA periods must be a non-empty list.")
  | none, none => .ok (defaults fillDefaults (some .ma))

/-- The fast period of MACD is the shorter one, where both are given. -/
def macdOrdered (normalized : Table (List Char) (Json (Number F))) : Bool :=
  match normalized.get? "fast_period".toList, normalized.get? "slow_period".toList with
  | some (.number (.int fast)), some (.number (.int slow)) => fast < slow
  | _, _ => true

def normalizeValue (type : Option IndicatorType) (m : List Char × Json (Number F)) :
    Except ParameterFailure (List Char × Json (Number F)) :=
  (fun value => (m.1, value)) <$>
    if type.isSome then normalizeParameterValue m.1 m.2 else normalizeJsonValue m.2

/-- The rows in the order of their names, after the check across fields. -/
def checkedRows (type : Option IndicatorType)
    (normalized : Table (List Char) (Json (Number F))) : Except ParameterFailure (Parameters F) :=
  if type = some .macd ∧ !macdOrdered normalized then
    .error (invalid "MACD fast_period must be less than slow_period.")
  else .ok normalized.rows

def canonicalizeOther (fillDefaults : Bool) (type : Option IndicatorType) (raw : Parameters F) :
    Except ParameterFailure (Parameters F) :=
  raw.mapM (normalizeValue type) >>= fun values =>
    checkedRows type ((Table.ofList (defaults fillDefaults type)).insertMany values)

/-- The names, then the values. -/
def canonicalizeRaw (fillDefaults : Bool) (type : Option IndicatorType) (raw : Parameters F) :
    Except ParameterFailure (Parameters F) :=
  if ∃ known ∈ type, ∃ m ∈ raw, m.1 ∉ parameterKeys known then
    .error (invalid "Indicator parameters contain unsupported names.")
  else if type = some .ma then canonicalizeMa fillDefaults raw
  else canonicalizeOther fillDefaults type raw

/-- The mapping that was passed, if it is one. -/
def mappingOf (parameters : Json (Number F)) : Except ParameterFailure (Parameters F) :=
  match parameters with
  | .null => .ok []
  | .object members => .ok members
  | _ => .error (invalid "Indicator parameters must be an object.")

def canonicalizeParameters (fillDefaults : Bool) (indicatorType : List Char)
    (parameters : Json (Number F)) : Except ParameterFailure (Parameters F) :=
  normalizeIndicatorType tables indicatorType >>= fun normalizedType =>
    mappingOf parameters >>= fun mapping =>
      rawParameters tables (typeNames.lookup normalizedType) mapping [] >>= fun raw =>
        canonicalizeRaw fillDefaults (typeNames.lookup normalizedType) raw

end Canonicalize

/-! ## Keys -/

section Keys

variable {F : Type} [PyFloat F] (tables : CaseTables)

def integerText : ℤ → List Char
  | .ofNat n => Nat.toDigits 10 n
  | .negSucc n => '-' :: Nat.toDigits 10 (n + 1)

def numberText : Number F → List Char
  | .int n => integerText n
  | .float x => PyFloat.repr x

/-- A single period of MA is the list of this period. -/
def keyForm (normalizedType : List Char) (canonical : Parameters F) : Parameters F :=
  if normalizedType = "MA".toList then
    match canonical.lookup "period".toList with
    | some period => [("periods".toList, .array [period])]
    | none => canonical
  else canonical

/-- The text that is hashed. -/
def serialized (normalizedType : List Char) (parameters : Parameters F) : List Char :=
  Json.dumps numberText (.object
    [("indicator_type".toList, .string normalizedType), ("parameters".toList, .object parameters)])

variable (digest : List Char → List Char)

/-- The digest is the hexadecimal SHA-256 of a text. -/
def parameterKey (indicatorType : List Char) (parameters : Json (Number F)) :
    Except ParameterFailure (List Char) :=
  normalizeIndicatorType tables indicatorType >>= fun normalizedType =>
    canonicalizeParameters tables false normalizedType parameters >>= fun canonical =>
      .ok ("v1_".toList ++ digest (serialized normalizedType (keyForm normalizedType canonical)))

end Keys

/-! ## Merging requests -/

/-- `IndicatorRequest`. -/
structure Request (F : Type) where
  indicatorType : List Char
  parameters : Parameters F

/-- A request with its key. -/
structure Keyed (F : Type) where
  key : List Char
  request : Request F

section Merge

variable {F : Type} [PyFloat F] (tables : CaseTables) (digest : List Char → List Char)

def integerOf : Json (Number F) → Option ℤ
  | .number (.int n) => some n
  | _ => none

/-- `_ma_periods`. -/
def maPeriods (parameters : Parameters F) : List ℤ :=
  match parameters.lookup "periods".toList, parameters.lookup "period".toList with
  | some (.array periods), _ => periods.filterMap integerOf
  | some _, _ => []
  | none, some period => (integerOf period).toList
  | none, none => []

/-- A request as the merge keeps it. All requests for MA are for lists of periods. -/
def normalizeRequest (request : Request F) : Except ParameterFailure (Request F) :=
  normalizeIndicatorType tables request.indicatorType >>= fun indicatorType =>
    canonicalizeParameters tables true indicatorType (.object request.parameters) >>=
      fun parameters =>
        if indicatorType = "MA".toList then
          .ok ⟨indicatorType, [("periods".toList, periodsValue (sortedSet (maPeriods parameters)))]⟩
        else .ok ⟨indicatorType, parameters⟩

def keyRequest (request : Request F) : Except ParameterFailure (Keyed F) :=
  (fun key => ⟨key, request⟩) <$>
    parameterKey tables digest request.indicatorType (.object request.parameters)

/-- `_default_request_pairs`, after canonicalization. -/
def defaultRequestPairs : Except ParameterFailure (List (Request F)) :=
  [IndicatorType.ma, .projectedMa, .rsi, .kdj, .boll, .macd].mapM fun type =>
    (fun parameters => ⟨typeName type, parameters⟩) <$>
      canonicalizeParameters tables true (typeName type) (.object (defaultMapping type))

/-- The MA requests by their periods, and the others by type and key. -/
def collect (keyed : List (Keyed F)) : List (Request F) :=
  let ma := keyed.filter fun k => k.request.indicatorType = "MA".toList
  let others := keyed.filter fun k => k.request.indicatorType ≠ "MA".toList
  let maRequests := Table.ofList (ma.map fun k => (maPeriods k.request.parameters, k))
  let otherRequests :=
    Table.ofList (others.map fun k => (toLex (k.request.indicatorType, k.key), k))
  let merged := (maRequests.rows.map (·.2)).insertionSort (fun a b => a.key ≤ b.key) ++
    (otherRequests.rows.map (·.2)).insertionSort fun a b =>
      toLex (a.request.indicatorType, a.key) ≤ toLex (b.request.indicatorType, b.key)
  merged.map (·.request)

def mergeIndicatorRequests (requests : List (Request F)) :
    Except ParameterFailure (List (Request F)) :=
  defaultRequestPairs tables >>= fun defaults =>
    (defaults ++ requests).mapM (normalizeRequest tables) >>= fun normalized =>
      collect <$> normalized.mapM (keyRequest tables digest)

end Merge

end Canonical

end Apanel
