import Apanel.Hub.Sync
import Apanel.Library.Facts
import Apanel.Library.Text
import Mathlib.Data.Char
import Mathlib.Data.List.Lex

/-!
# Symbols

How a spelling of a security is read (`_parse_symbol`, `infer_market` and `normalize_symbol` of
`app/domain/market_data.py`), and where the canonical symbol is read again: in the request of a
provider, in the list of a sync, and in the rows of `securities`. The canonical symbol carries no
market, so each of these infers one; `canonicalisation_preserves_iff` says when it is the market of
the spelling.
-/

namespace Apanel

inductive Market
  | sh
  | sz
  | bj
  deriving DecidableEq

namespace Market

def all : List Market := [.sh, .sz, .bj]

/-- `market.value`. -/
def value : Market → List Char
  | .sh => ['S', 'H']
  | .sz => ['S', 'Z']
  | .bj => ['B', 'J']

/-- The market in the codes of the provider. -/
def provider : Market → List Char
  | .sh => ['s', 'h']
  | .sz => ['s', 'z']
  | .bj => ['b', 'j']

theorem mem_all (market : Market) : market ∈ all := by
  cases market <;> decide

theorem provider_injective {market market' : Market} (h : market.provider = market'.provider) :
    market = market' := by
  cases market <;> cases market' <;> first | rfl | cases h

theorem isUpper_of_mem_value {market : Market} : ∀ c ∈ market.value, c.isUpper := by
  have hall : market.value.all Char.isUpper = true := by cases market <;> rfl
  intro c hc
  exact List.all_eq_true.mp hall c hc

end Market

/-- `_MARKET_CODES`. -/
def marketCodes : List (List Char) := Market.all.map Market.value

inductive SecurityType
  | stock
  | etf
  deriving DecidableEq

namespace SecurityType

def all : List SecurityType := [.stock, .etf]

/-- `security_type.value`. -/
def value : SecurityType → List Char
  | .stock => ['S', 'T', 'O', 'C', 'K']
  | .etf => ['E', 'T', 'F']

theorem isUpper_of_mem_value {securityType : SecurityType} :
    ∀ c ∈ securityType.value, c.isUpper := by
  have hall : securityType.value.all Char.isUpper = true := by cases securityType <;> rfl
  intro c hc
  exact List.all_eq_true.mp hall c hc

end SecurityType

/-- An argument that is a member of an enumeration, or its text. -/
inductive EnumArgument (α : Type)
  | member (value : α)
  | text (value : List Char)

/-- `InvalidMarketDataError`, and its subclass `UnknownMarketError`. -/
inductive MarketDataErrorKind
  | invalidMarketData
  | unknownMarket
  deriving DecidableEq

structure MarketDataError where
  kind : MarketDataErrorKind
  message : String
  deriving DecidableEq

/-- The error as `_sync_error` reports it. -/
def MarketDataError.toHubError (error : MarketDataError) : HubError :=
  ⟨.invalidMarketData, error.message⟩

/-- `text.startswith(starts)`. -/
def startsWith (text : List Char) (starts : List (List Char)) : Bool :=
  starts.any fun start => start.isPrefixOf text

/-- `[.:]?`. -/
def dropSeparator : List Char → List Char
  | [] => []
  | c :: text => if c = '.' ∨ c = ':' then text else c :: text

namespace UnicodeTables

variable (tables : UnicodeTables)

/-! ## Reading a spelling -/

/-- `\d{6}`. -/
def isCode (text : List Char) : Bool := text.length = 6 && text.all tables.isDecimal

/-- A canonical symbol. -/
structure SymbolCode where
  text : List Char
  isCode : tables.isCode text
  deriving DecidableEq

/-- `SH|SZ|BJ`, where the pattern ignores the case. -/
def isMarket (text : List Char) : Bool :=
  Market.all.any fun market => text.map tables.upper = market.value.map ([·])

/-- The groups of `_SYMBOL_PATTERN`. -/
inductive SymbolMatch
  | prefixed (market : List Char) (code : SymbolCode tables)
  | suffixed (code : SymbolCode tables) (market : List Char)
  | bare (code : SymbolCode tables)

/-- `_SYMBOL_PATTERN.fullmatch`. -/
def matchSymbol (candidate : List Char) : Option (SymbolMatch tables) :=
  if h : tables.isMarket (candidate.take 2) ∧ tables.isCode (dropSeparator (candidate.drop 2)) then
    some (.prefixed (candidate.take 2) ⟨dropSeparator (candidate.drop 2), h.2⟩)
  else if h : tables.isCode (candidate.take 6) ∧
      ((candidate.drop 6).head? = some '.' ∨ (candidate.drop 6).head? = some ':') ∧
      tables.isMarket (candidate.drop 7) then
    some (.suffixed ⟨candidate.take 6, h.1⟩ (candidate.drop 7))
  else if h : tables.isCode candidate then some (.bare ⟨candidate, h⟩)
  else none

def normalizeMarket : EnumArgument Market → Except MarketDataError Market
  | .member market => .ok market
  | .text value =>
    match Market.all.find? fun market => market.value = tables.upperCase (strip value) with
    | some market => .ok market
    | none =>
      let shown := tables.repr value
      .error ⟨.unknownMarket, s!"unknown market: {shown}"⟩

def normalizeSecurityType : EnumArgument SecurityType → Except MarketDataError SecurityType
  | .member securityType => .ok securityType
  | .text value =>
    match SecurityType.all.find? fun securityType =>
      securityType.value = tables.upperCase (strip value) with
    | some securityType => .ok securityType
    | none =>
      let shown := tables.repr value
      .error ⟨.invalidMarketData, s!"unknown security type: {shown}"⟩

/-- `_parse_symbol`. -/
def parseSymbol (value : List Char) : Except MarketDataError (SymbolCode tables × Option Market) :=
  let candidate := tables.upperCase (strip value)
  let shown := tables.repr value
  match tables.matchSymbol candidate with
  | none =>
    if candidate.take 2 ∈ marketCodes then
      .error ⟨.invalidMarketData, s!"invalid symbol format: {shown}"⟩
    else if startsWith candidate marketCodes then
      .error ⟨.unknownMarket, s!"invalid market-qualified symbol: {shown}"⟩
    else if '.' ∈ candidate ∨ ':' ∈ candidate then
      .error ⟨.unknownMarket, s!"unknown market-qualified symbol: {shown}"⟩
    else .error ⟨.invalidMarketData, s!"invalid symbol format: {shown}"⟩
  | some (.prefixed text code) => do
    let market ← tables.normalizeMarket (.text text)
    return (code, some market)
  | some (.suffixed code text) => do
    let market ← tables.normalizeMarket (.text text)
    return (code, some market)
  | some (.bare code) => .ok (code, none)

def inferMarket (symbol : List Char) : Except MarketDataError Market := do
  let (code, explicitMarket) ← tables.parseSymbol symbol
  match explicitMarket with
  | some market => .ok market
  | none =>
    if startsWith code.text [['9', '0', '0']] then .ok .sh
    else if startsWith code.text [['9', '2']] then .ok .bj
    else if startsWith code.text [['4'], ['8']] then .ok .bj
    else if startsWith code.text [['0'], ['1'], ['2'], ['3']] then .ok .sz
    else if startsWith code.text [['5'], ['6']] then .ok .sh
    else
      let shown := tables.repr symbol
      .error ⟨.unknownMarket, s!"cannot infer market for symbol: {shown}"⟩

def normalizeSymbol (value : List Char) : Except MarketDataError (SymbolCode tables) := do
  let (code, _) ← tables.parseSymbol value
  let _ ← tables.inferMarket value
  return code

/-! ## Where the symbol is read again -/

/-- `_full_code`. -/
def fullCode (symbol : List Char) : Except MarketDataError (List Char) := do
  let market ← tables.inferMarket symbol
  let code ← tables.normalizeSymbol symbol
  return market.provider ++ code.text

/-- The code that a provider asks for, when a sync has canonicalised the spelling. -/
def requestedCode (value : List Char) : Except MarketDataError (List Char) := do
  let symbol ← tables.normalizeSymbol value
  let canonical ← tables.normalizeSymbol symbol.text
  tables.fullCode canonical.text

/-- `normalize_symbol` as a sync calls it. -/
def syncSymbol (value : List Char) : Except HubError (List Char) :=
  match tables.normalizeSymbol value with
  | .ok code => .ok code.text
  | .error error => .error error.toHubError

/-- `_best_effort_symbol`. -/
def bestEffortSymbol (value : List Char) : List Char :=
  match tables.normalizeSymbol value with
  | .ok code => code.text
  | .error _ => if strip value = [] then "<invalid>".toList else strip value

/-- `_validate_symbol_market`. -/
def validateSymbolMarket (symbol : List Char) (market : Market) :
    Except MarketDataError (SymbolCode tables) := do
  let normalizedSymbol ← tables.normalizeSymbol symbol
  let inferred ← tables.inferMarket symbol
  if inferred = market then .ok normalizedSymbol
  else
    let code := String.ofList normalizedSymbol.text
    let belongs := String.ofList inferred.value
    let given := String.ofList market.value
    .error ⟨.invalidMarketData, s!"symbol {code} belongs to {belongs}, not {given}"⟩

/-- Canonical security metadata. -/
structure Security where
  symbol : SymbolCode tables
  name : List Char
  market : Market
  securityType : SecurityType
  exchange : List Char
  name_stripped : strip name = name
  name_ne : name ≠ []
  exchange_eq : exchange = market.value
  deriving DecidableEq

/-- The arguments of `Security`. -/
structure SecurityArguments where
  symbol : List Char
  name : List Char
  market : EnumArgument Market
  securityType : EnumArgument SecurityType
  exchange : Option (List Char)

/-- The exchange of a record: by default that of its market. -/
def securityExchange (market : Market) : Option (List Char) → List Char
  | none => market.value
  | some exchange => tables.upperCase (strip exchange)

/-- `Security.__post_init__`. -/
def security (arguments : SecurityArguments) : Except MarketDataError (Security tables) := do
  let market ← tables.normalizeMarket arguments.market
  let symbol ← tables.validateSymbolMarket arguments.symbol market
  if hname : strip arguments.name = [] then
    .error ⟨.invalidMarketData, "security name must not be empty"⟩
  else
    let securityType ← tables.normalizeSecurityType arguments.securityType
    let exchange := tables.securityExchange market arguments.exchange
    let shown := tables.repr (arguments.exchange.getD [])
    let text := String.ofList exchange
    let given := String.ofList market.value
    if exchange ∉ marketCodes then .error ⟨.unknownMarket, s!"unknown exchange: {shown}"⟩
    else if hexchange : exchange = market.value then
      .ok
        { symbol, market, securityType, exchange
          name := strip arguments.name
          name_stripped := strip_strip arguments.name
          name_ne := hname
          exchange_eq := hexchange }
    else .error ⟨.invalidMarketData, s!"exchange {text} does not match market {given}"⟩

/-- A row of `securities`. -/
structure SecurityRow where
  symbol : List Char
  name : List Char
  market : List Char
  exchange : List Char
  securityType : List Char
  active : Bool
  deriving DecidableEq

abbrev SecurityTable := Table (List Char) SecurityRow

variable {tables} in
/-- `_security_values`. -/
def Security.values (record : Security tables) : SecurityRow :=
  { symbol := record.symbol.text
    name := record.name
    market := record.market.value
    exchange := record.exchange
    securityType := record.securityType.value
    active := true }

/-- `_security_from_model`. -/
def securityFromModel (row : SecurityRow) : Except MarketDataError (Security tables) :=
  tables.security
    { symbol := row.symbol
      name := row.name
      market := .text row.market
      securityType := .text row.securityType
      exchange := some row.exchange }

/-- `SqlAlchemySecurityRepository.upsert_many`. -/
def upsertSecurities (table : SecurityTable) (records : List (Security tables)) :
    Except HubError SecurityTable := do
  let unique ← Facts.unique (fun record : Security tables => .ok (record.symbol.text, record))
    ⟨.record, "conflicting market records for one identity"⟩ records
  return table.insertMany (unique.rows.map fun row => (row.1, row.2.values))

/-- `get_by_symbol`. -/
def getBySymbol (table : SecurityTable) (symbol : List Char) :
    Except MarketDataError (Option (Security tables)) := do
  let canonicalSymbol ← tables.normalizeSymbol symbol
  match table.get? canonicalSymbol.text with
  | none => return none
  | some row => some <$> tables.securityFromModel row

/-! ## The market of a code -/

end UnicodeTables

/-- How the codes of a market begin. -/
def Market.families : Market → List (List Char)
  | .sh => [['9', '0', '0'], ['5'], ['6']]
  | .sz => [['0'], ['1'], ['2'], ['3']]
  | .bj => [['9', '2'], ['4'], ['8']]

/-- The code is one of the market. -/
def Market.Covers (market : Market) (code : List Char) : Prop := startsWith code market.families

instance Market.instDecidableCovers (market : Market) (code : List Char) :
    Decidable (market.Covers code) :=
  inferInstanceAs (Decidable (startsWith code market.families = true))

namespace UnicodeTables

variable {tables : UnicodeTables} {value : List Char} {code : SymbolCode tables} {market : Market}

theorem SymbolCode.text_eq (code : SymbolCode tables) :
    ∃ a b c rest, code.text = a :: b :: c :: rest := by
  obtain ⟨text, hcode⟩ := code
  have hlength : text.length = 6 := of_decide_eq_true (Bool.and_eq_true_iff.mp hcode).1
  match text, hlength with
  | a :: b :: c :: rest, _ => exact ⟨a, b, c, rest, rfl⟩

/-- A bare code has the one market that covers it. -/
theorem inferMarket_of_bare (h : tables.parseSymbol value = .ok (code, none)) :
    tables.inferMarket value = .ok market ↔ market.Covers code.text := by
  obtain ⟨a, b, c, rest, htext⟩ := code.text_eq
  rw [inferMarket, h, Except.ok_bind]
  dsimp only
  rw [htext]
  unfold Market.Covers
  cases market <;> simp [startsWith, Market.families] <;> grind

theorem SymbolCode.isDecimal (code : SymbolCode tables) {c : Char} (h : c ∈ code.text) :
    tables.isDecimal c :=
  List.all_eq_true.mp (Bool.and_eq_true_iff.mp code.isCode).2 c h

theorem SymbolCode.length_text (code : SymbolCode tables) : code.text.length = 6 :=
  of_decide_eq_true (Bool.and_eq_true_iff.mp code.isCode).1

theorem SymbolCode.upperCase_strip (code : SymbolCode tables) :
    tables.upperCase (strip code.text) = code.text := by
  rw [strip_eq_self fun c hc => tables.isspace_decimal c (code.isDecimal hc)]
  exact upperCase_eq_self fun c hc => .inl (code.isDecimal hc)

/-- A code does not begin with a market. -/
theorem SymbolCode.not_isMarket (code : SymbolCode tables) :
    tables.isMarket (code.text.take 2) = false := by
  rw [isMarket, List.any_eq_false]
  intro market _ h
  have h := of_decide_eq_true h
  obtain ⟨a, b, c, rest, htext⟩ := code.text_eq
  have ha : tables.isDecimal a := code.isDecimal (htext ▸ List.mem_cons_self)
  rw [htext, List.take_succ_cons, List.map_cons, tables.upper_eq_self a (.inl ha)] at h
  have hletter (letter : Char) (hascii : letter.toNat < 128) (hdigit : letter.isDigit = false)
      (heq : a = letter) : False := by
    rw [heq, tables.isDecimal_ascii letter hascii, hdigit] at ha
    cases ha
  cases market with
  | sh => exact hletter 'S' (by decide) (by decide) (by simpa using (List.cons.inj h).1)
  | sz => exact hletter 'S' (by decide) (by decide) (by simpa using (List.cons.inj h).1)
  | bj => exact hletter 'B' (by decide) (by decide) (by simpa using (List.cons.inj h).1)

/-- A canonical symbol is read as its code, without a market. -/
theorem parseSymbol_code (code : SymbolCode tables) :
    tables.parseSymbol code.text = .ok (code, none) := by
  have hmatch : tables.matchSymbol code.text = some (.bare code) := by
    have hdrop : (code.text.drop 6).head? = none := by
      rw [List.drop_of_length_le code.length_text.le]
      rfl
    rw [matchSymbol, dif_neg (by rw [code.not_isMarket]; nofun), dif_neg (by rw [hdrop]; nofun),
      dif_pos code.isCode]
  rw [parseSymbol, code.upperCase_strip, hmatch]

theorem inferMarket_code (code : SymbolCode tables) :
    tables.inferMarket code.text = .ok market ↔ market.Covers code.text :=
  inferMarket_of_bare (parseSymbol_code code)

theorem normalizeSymbol_eq_ok :
    tables.normalizeSymbol value = .ok code ↔
      (∃ explicitMarket, tables.parseSymbol value = .ok (code, explicitMarket)) ∧
      ∃ market, tables.inferMarket value = .ok market := by
  rw [normalizeSymbol]
  cases tables.parseSymbol value with
  | error error => simp [bind, Except.bind]
  | ok parsed =>
    rw [Except.ok_bind]
    cases tables.inferMarket value with
    | error error => simp [bind, Except.bind]
    | ok market =>
      obtain ⟨code', explicitMarket⟩ := parsed
      simp [bind, Except.bind, pure, Except.pure]

variable (tables) in
/-- The security a spelling names. -/
def Names (value : List Char) (code : SymbolCode tables) (market : Market) : Prop :=
  tables.normalizeSymbol value = .ok code ∧ tables.inferMarket value = .ok market

variable (tables) in
/-- A market that the spelling names is the one of its code. -/
def NamesOwnMarket (value : List Char) : Prop :=
  ∀ code market, tables.parseSymbol value = .ok (code, some market) → market.Covers code.text

/-- Every spelling is read as its code, with the market that it names or that covers the code. -/
theorem Names.parse (h : tables.Names value code market) :
    tables.parseSymbol value = .ok (code, some market) ∨
      tables.parseSymbol value = .ok (code, none) ∧ market.Covers code.text := by
  obtain ⟨hcode, hmarket⟩ := h
  obtain ⟨⟨explicitMarket, hparse⟩, -⟩ := normalizeSymbol_eq_ok.mp hcode
  cases explicitMarket with
  | none => exact .inr ⟨hparse, (inferMarket_of_bare hparse).mp hmarket⟩
  | some explicitMarket =>
    rw [inferMarket, hparse] at hmarket
    cases hmarket
    exact .inl hparse

theorem Names.covers_iff (h : tables.Names value code market) :
    market.Covers code.text ↔ tables.NamesOwnMarket value := by
  rcases h.parse with hparse | ⟨hparse, hcovers⟩
  · constructor
    · intro hcovers code' market' hparse'
      cases hparse.symm.trans hparse'
      exact hcovers
    · exact fun hown => hown code market hparse
  · refine iff_of_true hcovers fun code' market' hparse' => ?_
    cases hparse.symm.trans hparse'

/-- A canonical symbol names the security of the market that covers it. -/
theorem names_code_iff : tables.Names code.text code market ↔ market.Covers code.text := by
  constructor
  · exact fun ⟨_, hmarket⟩ => (inferMarket_code code).mp hmarket
  · intro hcovers
    have hmarket := (inferMarket_code code).mpr hcovers
    exact ⟨normalizeSymbol_eq_ok.mpr ⟨⟨none, parseSymbol_code code⟩, market, hmarket⟩, hmarket⟩

/-! ## The provider, the sync and the rows -/

/-- The provider is asked for the security of the spelling. -/
theorem requestedCode_iff (h : tables.Names value code market) :
    tables.requestedCode value = .ok (market.provider ++ code.text) ↔ market.Covers code.text := by
  rw [requestedCode, h.1, Except.ok_bind]
  constructor
  · intro hrequested
    obtain ⟨code', hcode, hfull⟩ := Except.bind_eq_ok.mp hrequested
    obtain ⟨⟨_, hparse⟩, -⟩ := normalizeSymbol_eq_ok.mp hcode
    cases (parseSymbol_code code).symm.trans hparse
    obtain ⟨market', hmarket, hfull⟩ := Except.bind_eq_ok.mp hfull
    rw [hcode, Except.ok_bind] at hfull
    have hprovider : market'.provider = market.provider :=
      List.append_cancel_right (Except.ok.inj hfull)
    rw [← Market.provider_injective hprovider]
    exact (inferMarket_code code).mp hmarket
  · intro hcovers
    obtain ⟨hcode, hmarket⟩ := names_code_iff.mpr hcovers
    rw [hcode, Except.ok_bind, fullCode, hmarket, Except.ok_bind, hcode]
    rfl

variable (tables) in
/-- A sync of the two spellings takes them for one symbol. -/
def Merges (value value' : List Char) : Prop :=
  ∃ symbol, (canonicalizeSymbols tables.syncSymbol tables.bestEffortSymbol [value, value']).1 =
    [symbol, symbol]

/-- Spellings are merged when their codes are the same, whatever markets they name. -/
theorem merges_iff {value' : List Char} {code' : SymbolCode tables} {market' : Market}
    (h : tables.Names value code market) (h' : tables.Names value' code' market') :
    tables.Merges value value' ↔ code = code' := by
  have hsymbol : tables.syncSymbol value = .ok code.text := by rw [syncSymbol, h.1]
  have hsymbol' : tables.syncSymbol value' = .ok code'.text := by rw [syncSymbol, h'.1]
  have hcanonical : (canonicalizeSymbols tables.syncSymbol tables.bestEffortSymbol
      [value, value']).1 = [code.text, code'.text] := by
    simp only [canonicalizeSymbols, List.foldl_cons, List.foldl_nil, hsymbol, hsymbol']
    rfl
  rw [Merges, hcanonical]
  constructor
  · rintro ⟨symbol, hsame⟩
    cases code
    cases code'
    cases hsame
    rfl
  · rintro rfl
    exact ⟨code.text, rfl⟩

theorem upperCase_of_isUpper {text : List Char} (h : ∀ c ∈ text, c.isUpper) :
    tables.upperCase (strip text) = text := by
  have hspace (c : Char) (hc : c ∈ text) : isspace c = false := isspace_of_isUpper (h c hc)
  rw [strip_eq_self hspace]
  exact upperCase_eq_self fun c hc => .inr (.inr (h c hc))

/-- A stored market is read back. -/
theorem normalizeMarket_value (market : Market) :
    tables.normalizeMarket (.text market.value) = .ok market := by
  rw [normalizeMarket, upperCase_of_isUpper Market.isUpper_of_mem_value]
  cases market <;> rfl

/-- A stored security type is read back. -/
theorem normalizeSecurityType_value (securityType : SecurityType) :
    tables.normalizeSecurityType (.text securityType.value) = .ok securityType := by
  rw [normalizeSecurityType, upperCase_of_isUpper SecurityType.isUpper_of_mem_value]
  cases securityType <;> rfl

theorem validateSymbolMarket_eq_ok :
    tables.validateSymbolMarket value market = .ok code ↔ tables.Names value code market := by
  rw [validateSymbolMarket, Names]
  cases hcode : tables.normalizeSymbol value with
  | error error => simp [bind, Except.bind]
  | ok code' =>
    rw [Except.ok_bind]
    cases tables.inferMarket value with
    | error error => simp [bind, Except.bind]
    | ok market' =>
      rw [Except.ok_bind, Except.ok.injEq, Except.ok.injEq]
      split
      · next hmarket => rw [Except.ok.injEq, and_iff_left hmarket]
      · next hmarket => exact iff_of_false nofun fun h => hmarket h.2

/-- The records that can be built, by what becomes of each argument. -/
theorem security_eq_ok {arguments : SecurityArguments} {record : Security tables} :
    tables.security arguments = .ok record ↔
      tables.normalizeMarket arguments.market = .ok record.market ∧
      tables.Names arguments.symbol record.symbol record.market ∧
      strip arguments.name = record.name ∧
      tables.normalizeSecurityType arguments.securityType = .ok record.securityType ∧
      tables.securityExchange record.market arguments.exchange = record.exchange := by
  rw [security]
  constructor
  · intro h
    obtain ⟨market, hmarket, h⟩ := Except.bind_eq_ok.mp h
    obtain ⟨symbol, hsymbol, h⟩ := Except.bind_eq_ok.mp h
    split at h
    · cases h
    · obtain ⟨securityType, htype, h⟩ := Except.bind_eq_ok.mp h
      dsimp only at h
      generalize hexchange : tables.securityExchange market arguments.exchange = exchange at h
      split at h
      · cases h
      · split at h
        · cases h
          exact ⟨hmarket, validateSymbolMarket_eq_ok.mp hsymbol, rfl, htype, hexchange⟩
        · cases h
  · rintro ⟨hmarket, hnames, hname, htype, hexchange⟩
    have hne : strip arguments.name ≠ [] := hname ▸ record.name_ne
    have hcodes : record.exchange ∈ marketCodes :=
      record.exchange_eq ▸ List.mem_map_of_mem record.market.mem_all
    rw [hmarket, Except.ok_bind, validateSymbolMarket_eq_ok.mpr hnames, Except.ok_bind, dif_neg hne,
      htype, Except.ok_bind]
    simp only [hexchange, hname]
    rw [if_neg (not_not.mpr hcodes), dif_pos record.exchange_eq]

/-- A stored record is read back if and only if its market is the one of its code. -/
theorem securityFromModel_values (record : Security tables) :
    tables.securityFromModel record.values = .ok record ↔
      record.market.Covers record.symbol.text := by
  have hexchange : tables.securityExchange record.market (some record.exchange) =
      record.exchange := by
    rw [securityExchange, record.exchange_eq]
    exact upperCase_of_isUpper Market.isUpper_of_mem_value
  rw [securityFromModel, security_eq_ok, ← names_code_iff]
  constructor
  · exact fun h => h.2.1
  · exact fun hnames => ⟨normalizeMarket_value _, hnames, record.name_stripped,
      normalizeSecurityType_value _, hexchange⟩

theorem normalizeSymbol_code {code' : SymbolCode tables} :
    tables.normalizeSymbol code.text = .ok code' ↔
      code = code' ∧ ∃ market : Market, market.Covers code.text := by
  rw [normalizeSymbol_eq_ok, parseSymbol_code]
  simp only [inferMarket_code, Except.ok.injEq, Prod.mk.injEq, exists_and_left, exists_eq', and_true]

/-- The records of a stored batch are read back if and only if their market is the one of their
code. -/
theorem getBySymbol_upsertSecurities {table table' : SecurityTable} {records : List (Security tables)}
    {record : Security tables} (h : tables.upsertSecurities table records = .ok table')
    (hrecord : record ∈ records) :
    tables.getBySymbol table' record.symbol.text = .ok (some record) ↔
      record.market.Covers record.symbol.text := by
  obtain ⟨unique, hunique, htable⟩ := Except.bind_eq_ok.mp h
  cases htable
  have hrow : (table.insertMany (unique.rows.map fun row => (row.1, row.2.values))).get?
      record.symbol.text = some record.values := by
    rw [Table.get?_insertMany_rows table unique Security.values,
      (Facts.get?_of_unique_eq_ok hunique).mpr ⟨record, hrecord, rfl⟩]
    rfl
  rw [getBySymbol, ← securityFromModel_values]
  constructor
  · intro hread
    obtain ⟨code, hcode, hread⟩ := Except.bind_eq_ok.mp hread
    cases (normalizeSymbol_code.mp hcode).1
    rw [hrow] at hread
    obtain ⟨record', hmodel, hsame⟩ := Except.map_eq_ok.mp hread
    cases hsame
    exact hmodel
  · intro hmodel
    have hcovers := (securityFromModel_values record).mp hmodel
    rw [normalizeSymbol_code.mpr ⟨rfl, record.market, hcovers⟩, Except.ok_bind, hrow]
    dsimp only
    rw [hmodel]
    rfl

/-- Canonicalisation preserves the security of an accepted spelling, in each place where the
canonical symbol is read again, if and only if a market that the spelling names is the one of its
code. -/
theorem canonicalisation_preserves_iff (tables : UnicodeTables) :
    (∀ value code market, tables.Names value code market →
      (tables.Names code.text code market ↔ tables.NamesOwnMarket value) ∧
      (tables.requestedCode value = .ok (market.provider ++ code.text) ↔
        tables.NamesOwnMarket value)) ∧
    (∀ value code market value' code' market', tables.Names value code market →
      tables.Names value' code' market' → tables.Merges value value' →
      tables.NamesOwnMarket value →
      (code = code' ∧ market = market' ↔ tables.NamesOwnMarket value')) ∧
    ∀ arguments record, tables.security arguments = .ok record →
      ∀ table table' records, tables.upsertSecurities table records = .ok table' →
        record ∈ records →
        (tables.getBySymbol table' record.symbol.text = .ok (some record) ↔
          tables.NamesOwnMarket arguments.symbol) := by
  refine ⟨fun value code market h => ?_, fun value code market value' code' market' h h' hmerges
    hown => ?_, fun arguments record hrecord table table' records htable hmem => ?_⟩
  · rw [names_code_iff, requestedCode_iff h, h.covers_iff]
    exact ⟨.rfl, .rfl⟩
  · cases (merges_iff h h').mp hmerges
    rw [← h'.covers_iff, and_iff_right rfl]
    have hcovers := h.covers_iff.mpr hown
    constructor
    · rintro rfl
      exact hcovers
    · intro hcovers'
      -- a code has one market
      exact Except.ok.inj (((inferMarket_code code).mpr hcovers).symm.trans
        ((inferMarket_code code).mpr hcovers'))
  · rw [getBySymbol_upsertSecurities htable hmem]
    exact (security_eq_ok.mp hrecord).2.1.covers_iff

end UnicodeTables

/-! ## A spelling of another market -/

/-- The index 000001 of Shanghai is taken for the stock 000001 of Shenzhen: by a sync, which merges
the two, by the provider, and when its stored record is read. -/
theorem not_canonicalisation_preserves :
    let tables := UnicodeTables.ascii
    let value := "SH000001".toList
    let record := tables.security ⟨value, "Index".toList, .member .sh, .member .stock, none⟩
    tables.inferMarket value = .ok .sh ∧
      (tables.normalizeSymbol value >>= fun code => tables.inferMarket code.text) = .ok .sz ∧
      tables.requestedCode value = .ok "sz000001".toList ∧
      (canonicalizeSymbols tables.syncSymbol tables.bestEffortSymbol
        [value, "000001".toList]).1 = ["000001".toList, "000001".toList] ∧
      record.isOk ∧
      (record.map fun record => tables.securityFromModel record.values) =
        .ok (.error ⟨.invalidMarketData, "symbol 000001 belongs to SZ, not SH"⟩) := by
  decide +kernel

instance (tables : UnicodeTables) (value : List Char) (code : UnicodeTables.SymbolCode tables)
    (market : Market) : Decidable (tables.Names value code market) :=
  inferInstanceAs (Decidable (_ ∧ _))

/-- A spelling with the market of its code. -/
theorem canonicalisation_preserves_iff_shanghai :
    let tables := UnicodeTables.ascii
    let code : UnicodeTables.SymbolCode tables := ⟨"600519".toList, by decide +kernel⟩
    tables.Names "sh.600519".toList code .sh ∧ tables.Names code.text code .sh := by
  intro tables code
  have hnames : tables.Names "sh.600519".toList code .sh := by decide +kernel
  have hown := hnames.covers_iff.mp (by decide +kernel)
  exact ⟨hnames, ((UnicodeTables.canonicalisation_preserves_iff tables).1 _ _ _ hnames).1.mpr hown⟩

end Apanel
