import Mathlib.Data.List.DropRight

/-!
# Text

Text is a list of characters. `str.strip` is given by its table of whitespace; the larger Unicode
tables, behind `str.lower`, `str.upper`, `\d` and `repr`, are parameters with the laws that are used
of them.
-/

namespace Apanel

/-- Texts are compared by their characters. -/
instance lawfulBEq_text : LawfulBEq (List Char) := inferInstance

/-- The characters `str.strip` removes. -/
def isspace (c : Char) : Bool :=
  c.toNat ∈ [0x9, 0xA, 0xB, 0xC, 0xD, 0x1C, 0x1D, 0x1E, 0x1F, 0x20, 0x85, 0xA0, 0x1680, 0x2000, 0x2001,
    0x2002, 0x2003, 0x2004, 0x2005, 0x2006, 0x2007, 0x2008, 0x2009, 0x200A, 0x2028, 0x2029, 0x202F,
    0x205F, 0x3000]

def strip (text : List Char) : List Char := (text.dropWhile isspace).rdropWhile isspace

/-- `str.lower`, with which the `lower` of the database is taken to agree. Text in lower case stays
as it is, and lower-casing puts no whitespace at either end. -/
structure Lowercase where
  lower : List Char → List Char
  lower_lower (text : List Char) : lower (lower text) = lower text
  strip_lower (text : List Char) : strip text = text → strip (lower text) = lower text

theorem dropWhile_of_prefix {p : Char → Bool} {l l' : List Char} (h : l' <+: l)
    (hl : l.dropWhile p = l) : l'.dropWhile p = l' := by
  rw [List.dropWhile_eq_self_iff] at hl ⊢
  intro hpos
  have hget := hl (hpos.trans_le h.length_le)
  rwa [← h.getElem hpos] at hget

@[simp] theorem strip_strip (text : List Char) : strip (strip text) = strip text := by
  have hfront : (strip text).dropWhile isspace = strip text :=
    dropWhile_of_prefix (List.rdropWhile_prefix _ _) (List.dropWhile_idempotent _ _)
  rw [strip, hfront]
  exact List.rdropWhile_idempotent _ _

namespace Lowercase

/-- Only the capital letters have another lower case. -/
theorem toLower_cases (c : Char) :
    c.toLower = c ∨ (65 ≤ c.toNat ∧ c.toNat ≤ 90) ∧ c.toLower.toNat = c.toNat + 32 := by
  delta Char.toLower
  split
  · next h =>
    obtain ⟨hle, hge⟩ := h
    have hle : 65 ≤ c.toNat := hle
    have hge : c.toNat ≤ 90 := hge
    have hlt : c.toNat + 32 < 2 ^ 32 := by omega
    exact .inr ⟨⟨hle, hge⟩, Nat.mod_eq_of_lt hlt⟩
  · exact .inl rfl

theorem isspace_toLower (c : Char) : isspace c.toLower = isspace c := by
  rcases toLower_cases c with h | ⟨⟨hle, hge⟩, h⟩
  · rw [h]
  · rw [isspace, isspace, decide_eq_decide, h]
    simp only [List.mem_cons, List.not_mem_nil, or_false]
    omega

theorem toLower_toLower (c : Char) : c.toLower.toLower = c.toLower := by
  rcases toLower_cases c with h | ⟨⟨hle, -⟩, h⟩
  · exact congrArg Char.toLower h
  · rcases toLower_cases c.toLower with h' | ⟨⟨-, hge⟩, -⟩
    · exact h'
    · omega

theorem strip_map_toLower (text : List Char) :
    strip (text.map Char.toLower) = (strip text).map Char.toLower := by
  have hcomp : isspace ∘ Char.toLower = isspace := funext isspace_toLower
  rw [strip, strip, List.dropWhile_map, hcomp, List.rdropWhile, List.rdropWhile, ← List.map_reverse,
    List.dropWhile_map, hcomp, List.map_reverse]

/-- Lower-casing of the Latin letters alone. -/
def latin : Lowercase where
  lower text := text.map Char.toLower
  lower_lower text := by
    rw [List.map_map]
    exact List.map_congr_left fun c _ => toLower_toLower c
  strip_lower text h := by rw [strip_map_toLower, h]

end Lowercase

theorem strip_eq_self {text : List Char} (h : ∀ c ∈ text, isspace c = false) : strip text = text := by
  have hfront : text.dropWhile isspace = text :=
    List.dropWhile_eq_self_iff.mpr fun hpos => by rw [h _ (List.getElem_mem hpos)]; nofun
  rw [strip, hfront]
  exact List.rdropWhile_eq_self_iff.mpr fun hne => by rw [h _ (List.getLast_mem hne)]; nofun

/-- The tables of `str.upper`, of the digits that `\d` matches, and of `str.isprintable`. Decimal
digits, whitespace and the capital letters have no other upper case; no digit is whitespace; and
among the ASCII characters the digits are the usual ones. -/
structure UnicodeTables where
  upper : Char → List Char
  isDecimal : Char → Bool
  isprintable : Char → Bool
  upper_eq_self (c : Char) : isDecimal c ∨ isspace c ∨ c.isUpper → upper c = [c]
  isspace_decimal (c : Char) : isDecimal c → isspace c = false
  isDecimal_ascii (c : Char) : c.toNat < 128 → isDecimal c = c.isDigit

namespace UnicodeTables

variable (tables : UnicodeTables)

/-- An escape such as `\x00`. -/
def hexEscape (letter : Char) (width : ℕ) (c : Char) : List Char :=
  Char.ofNat 92 :: letter :: (Nat.toDigits 16 c.toNat).leftpad width '0'

/-- One character of `repr`. -/
def reprChar (quote c : Char) : List Char :=
  if c = quote ∨ c = Char.ofNat 92 then [Char.ofNat 92, c]
  else if c = Char.ofNat 9 then [Char.ofNat 92, 't']
  else if c = Char.ofNat 10 then [Char.ofNat 92, 'n']
  else if c = Char.ofNat 13 then [Char.ofNat 92, 'r']
  else if c.toNat < 32 ∨ c.toNat = 127 then hexEscape 'x' 2 c
  else if c.toNat < 127 ∨ tables.isprintable c then [c]
  else if c.toNat < 256 then hexEscape 'x' 2 c
  else if c.toNat < 65536 then hexEscape 'u' 4 c
  else hexEscape 'U' 8 c

/-- `repr` of a text, in double quotes when it has single quotes only. -/
def repr (text : List Char) : String :=
  let quote := if Char.ofNat 39 ∈ text ∧ Char.ofNat 34 ∉ text then Char.ofNat 34 else Char.ofNat 39
  String.ofList (quote :: (text.flatMap (tables.reprChar quote) ++ [quote]))

/-- `str.upper`. -/
def upperCase (text : List Char) : List Char := text.flatMap tables.upper

variable {tables}

theorem upperCase_eq_self {text : List Char}
    (h : ∀ c ∈ text, tables.isDecimal c ∨ isspace c ∨ c.isUpper) : tables.upperCase text = text := by
  rw [upperCase, List.flatMap_congr fun c hc => tables.upper_eq_self c (h c hc),
    List.flatMap_singleton']

/-- Only the small letters have another upper case. -/
theorem toUpper_eq_self {c : Char} (h : c.toNat < 97 ∨ 122 < c.toNat) : c.toUpper = c := by
  delta Char.toUpper
  rw [dif_neg]
  rintro ⟨hle, hge⟩
  have hle : 97 ≤ c.toNat := hle
  have hge : c.toNat ≤ 122 := hge
  omega

theorem toUpper_cases (c : Char) :
    c.toUpper = c ∨ (97 ≤ c.toNat ∧ c.toNat ≤ 122) ∧ c.toUpper.toNat + 32 = c.toNat := by
  delta Char.toUpper
  split
  · next h =>
    obtain ⟨hle, hge⟩ := h
    have hle : 97 ≤ c.toNat := hle
    have hge : c.toNat ≤ 122 := hge
    have hnat : (c.val + ('A'.val - 'a'.val)).toNat = c.toNat - 32 := by
      rw [UInt32.toNat_add]
      change (c.toNat + 4294967264) % 4294967296 = c.toNat - 32
      omega
    refine .inr ⟨⟨hle, hge⟩, ?_⟩
    change (c.val + ('A'.val - 'a'.val)).toNat + 32 = c.toNat
    omega
  · exact .inl rfl

theorem toUpper_toUpper (c : Char) : c.toUpper.toUpper = c.toUpper := by
  rcases toUpper_cases c with h | ⟨⟨hle, hge⟩, h⟩
  · exact congrArg Char.toUpper h
  · exact toUpper_eq_self (.inl (by omega))

theorem isspace_toUpper (c : Char) : isspace c.toUpper = isspace c := by
  rcases toUpper_cases c with h | ⟨⟨hle, hge⟩, h⟩
  · rw [h]
  · rw [isspace, isspace, decide_eq_decide]
    simp only [List.mem_cons, List.not_mem_nil, or_false]
    omega

theorem not_lower_of_isspace {c : Char} (h : isspace c) : c.toNat < 97 ∨ 122 < c.toNat := by
  rw [isspace, decide_eq_true_eq] at h
  simp only [List.mem_cons, List.not_mem_nil, or_false] at h
  omega

theorem isDigit_iff {c : Char} : c.isDigit ↔ 48 ≤ c.toNat ∧ c.toNat ≤ 57 := by
  rw [Char.isDigit, Bool.and_eq_true, decide_eq_true_eq, decide_eq_true_eq]
  exact Iff.rfl

theorem isUpper_iff {c : Char} : c.isUpper ↔ 65 ≤ c.toNat ∧ c.toNat ≤ 90 := by
  delta Char.isUpper
  rw [decide_eq_true_eq]
  exact Iff.rfl

theorem isspace_of_isUpper {c : Char} (h : c.isUpper) : isspace c = false := by
  have := isUpper_iff.mp h
  rw [isspace, decide_eq_false_iff_not]
  simp only [List.mem_cons, List.not_mem_nil, or_false]
  omega

/-- The tables of the ASCII characters. -/
def ascii : UnicodeTables where
  upper c := [c.toUpper]
  isDecimal c := c.isDigit
  isprintable c := 32 ≤ c.toNat && c.toNat < 127
  upper_eq_self c h := by
    refine congrArg ([·]) (toUpper_eq_self ?_)
    rcases h with h | h | h
    · have := isDigit_iff.mp h
      omega
    · exact not_lower_of_isspace h
    · have := isUpper_iff.mp h
      omega
  isspace_decimal c h := by
    have := isDigit_iff.mp h
    rw [isspace, decide_eq_false_iff_not]
    simp only [List.mem_cons, List.not_mem_nil, or_false]
    omega
  isDecimal_ascii _ _ := rfl

end UnicodeTables

end Apanel
