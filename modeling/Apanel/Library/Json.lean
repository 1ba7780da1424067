import Mathlib.Data.Char
import Mathlib.Data.List.Lex
import Mathlib.Data.List.Sort
import Mathlib.Data.List.Basic

/-!
# JSON

JSON values over any type of numbers, and the text `json.dumps` writes for them with sorted keys, no
blanks and escapes for everything outside ASCII. A text determines the value it was written for, up
to the order of the members of objects (`dumps_injective`).
-/

namespace Apanel

/-- The order of texts is that of their code points. -/
inductive Json (ν : Type)
  | null
  | bool (value : Bool)
  | number (value : ν)
  | string (value : List Char)
  | array (items : List (Json ν))
  | object (members : List (List Char × Json ν))

namespace Json

@[elab_as_elim]
theorem induction {ν : Type} {motive : Json ν → Prop} (null : motive null)
    (bool : ∀ value, motive (.bool value)) (number : ∀ value, motive (.number value))
    (string : ∀ value, motive (.string value))
    (array : ∀ items, (∀ item ∈ items, motive item) → motive (.array items))
    (object : ∀ members, (∀ m ∈ members, motive m.2) → motive (.object members)) :
    ∀ value, motive value
  | .null => null
  | .bool value => bool value
  | .number value => number value
  | .string value => string value
  | .array items => array items fun item hitem =>
    have := List.sizeOf_lt_of_mem hitem
    induction null bool number string array object item
  | .object members => object members fun m hm =>
    have := List.sizeOf_lt_of_mem hm
    induction null bool number string array object m.2
termination_by value => sizeOf value
decreasing_by
  · simp only [Json.array.sizeOf_spec]
    omega
  · have hmember : sizeOf m.2 < sizeOf m := by
      cases m
      simp only [Prod.mk.sizeOf_spec]
      omega
    simp only [Json.object.sizeOf_spec]
    omega

/-! ## Strings -/

/-- Four hexadecimal digits. -/
def hex4 (n : ℕ) : List Char :=
  [Nat.digitChar (n / 4096 % 16), Nat.digitChar (n / 256 % 16), Nat.digitChar (n / 16 % 16),
    Nat.digitChar (n % 16)]

/-- The code units of a character in UTF-16. -/
def utf16 (c : Char) : List ℕ :=
  if c.toNat < 0x10000 then [c.toNat]
  else [0xD800 + (c.toNat - 0x10000) / 0x400, 0xDC00 + (c.toNat - 0x10000) % 0x400]

/-- The characters that have an escape of one letter. -/
def shortEscape (c : Char) : Option Char :=
  if c.toNat = 0x22 then some (Char.ofNat 0x22)
  else if c.toNat = 0x5C then some (Char.ofNat 0x5C)
  else if c.toNat = 0x0A then some 'n'
  else if c.toNat = 0x0D then some 'r'
  else if c.toNat = 0x09 then some 't'
  else if c.toNat = 0x0C then some 'f'
  else if c.toNat = 0x08 then some 'b'
  else none

def backslash : Char := Char.ofNat 0x5C

def quotationMark : Char := Char.ofNat 0x22

/-- The characters from the blank to the tilde stand for themselves, unless they have an escape. -/
def escape (c : Char) : List Char :=
  match shortEscape c with
  | some letter => [backslash, letter]
  | none =>
    if 0x20 ≤ c.toNat ∧ c.toNat ≤ 0x7E then [c]
    else (utf16 c).flatMap fun unit => backslash :: 'u' :: hex4 unit

def quote (text : List Char) : List Char := quotationMark :: (text.flatMap escape ++ [quotationMark])

theorem hex4_injective {m n : ℕ} (hm : m < 0x10000) (hn : n < 0x10000) (h : hex4 m = hex4 n) :
    m = n := by
  have hdigit : ∀ a < 16, ∀ b < 16, Nat.digitChar a = Nat.digitChar b → a = b := by decide
  have hlt (k : ℕ) : k % 16 < 16 := Nat.mod_lt k (by decide)
  simp only [hex4, List.cons.injEq, and_true] at h
  have h3 := hdigit _ (hlt _) _ (hlt _) h.1
  have h2 := hdigit _ (hlt _) _ (hlt _) h.2.1
  have h1 := hdigit _ (hlt _) _ (hlt _) h.2.2.1
  have h0 := hdigit _ (hlt _) _ (hlt _) h.2.2.2
  omega

theorem toNat_injective {c d : Char} (h : c.toNat = d.toNat) : c = d :=
  Char.ext (UInt32.toNat_inj.mp h)

theorem toNat_cases (c : Char) : c.toNat < 0xD800 ∨ 0xDFFF < c.toNat ∧ c.toNat < 0x110000 := c.valid

/-- The code units of one character are told from those of another. -/
theorem utf16_append_inj {c d : Char} {r s : List Char}
    (h : ((utf16 c).flatMap fun unit => backslash :: 'u' :: hex4 unit) ++ r =
      ((utf16 d).flatMap fun unit => backslash :: 'u' :: hex4 unit) ++ s) : c = d ∧ r = s := by
  have hc := toNat_cases c
  have hd := toNat_cases d
  have hunit {m n : ℕ} (hm : m < 0x10000) (hn : n < 0x10000) {r s : List Char}
      (h : backslash :: 'u' :: hex4 m ++ r = backslash :: 'u' :: hex4 n ++ s) : m = n ∧ r = s := by
    rw [List.cons_append, List.cons_append, List.cons_append, List.cons_append, List.cons.injEq,
      List.cons.injEq] at h
    obtain ⟨hhex, hrest⟩ := List.append_inj h.2.2 rfl
    exact ⟨hex4_injective hm hn hhex, hrest⟩
  rw [utf16, utf16] at h
  split_ifs at h with hcs hds hds
  · simp only [List.flatMap_cons, List.flatMap_nil, List.append_nil] at h
    exact (hunit hcs hds h).imp_left toNat_injective
  · simp only [List.flatMap_cons, List.flatMap_nil, List.append_nil, List.append_assoc] at h
    obtain ⟨hfirst, -⟩ := hunit hcs (by omega) h
    omega
  · simp only [List.flatMap_cons, List.flatMap_nil, List.append_nil, List.append_assoc] at h
    obtain ⟨hfirst, -⟩ := hunit (by omega) hds h
    omega
  · simp only [List.flatMap_cons, List.flatMap_nil, List.append_nil, List.append_assoc] at h
    obtain ⟨hfirst, h⟩ := hunit (by omega) (by omega) h
    obtain ⟨hsecond, hrest⟩ := hunit (by omega) (by omega) h
    exact ⟨toNat_injective (by omega), hrest⟩

/-- The code of the character that a letter is the escape of. -/
def escapedBy (letter : Char) : ℕ :=
  if letter = 'n' then 0x0A
  else if letter = 'r' then 0x0D
  else if letter = 't' then 0x09
  else if letter = 'f' then 0x0C
  else if letter = 'b' then 0x08
  else letter.toNat

theorem escapedBy_shortEscape {c letter : Char} (h : shortEscape c = some letter) :
    escapedBy letter = c.toNat := by
  rw [shortEscape] at h
  split_ifs at h with h1 h2 h3 h4 h5 h6 h7 <;> cases h
  · rw [h1]; rfl
  · rw [h2]; rfl
  · rw [h3]; rfl
  · rw [h4]; rfl
  · rw [h5]; rfl
  · rw [h6]; rfl
  · rw [h7]; rfl

theorem shortEscape_injective {c d letter : Char} (hc : shortEscape c = some letter)
    (hd : shortEscape d = some letter) : c = d :=
  toNat_injective ((escapedBy_shortEscape hc).symm.trans (escapedBy_shortEscape hd))

theorem shortEscape_ne_u {c : Char} : shortEscape c ≠ some 'u' := by
  rw [shortEscape]
  split_ifs <;> decide

/-- A character that stands for itself is not the start of an escape. -/
theorem ne_backslash {c : Char} (h : shortEscape c = none) : c ≠ backslash := by
  rintro rfl
  cases h

theorem utf16_ne_nil (c : Char) : ∃ unit units, utf16 c = unit :: units := by
  rw [utf16]
  split <;> exact ⟨_, _, rfl⟩

theorem escape_append_inj {c d : Char} {r s : List Char} (h : escape c ++ r = escape d ++ s) :
    c = d ∧ r = s := by
  obtain ⟨m, ms, hm⟩ := utf16_ne_nil c
  obtain ⟨n, ns, hn⟩ := utf16_ne_nil d
  rw [escape, escape] at h
  cases hc : shortEscape c with
  | some letter =>
    cases hd : shortEscape d with
    | some letter' =>
      simp only [hc, hd, List.cons_append, List.nil_append, List.cons.injEq, true_and] at h
      exact ⟨shortEscape_injective hc (h.1 ▸ hd), h.2⟩
    | none =>
      simp only [hc, hd] at h
      split at h
      · exact absurd (List.cons.inj h).1.symm (ne_backslash hd)
      · rw [hn, List.flatMap_cons] at h
        exact absurd (hc.trans (congrArg some (List.cons.inj (List.cons.inj h).2).1))
          shortEscape_ne_u
  | none =>
    cases hd : shortEscape d with
    | some letter =>
      simp only [hc, hd] at h
      split at h
      · exact absurd (List.cons.inj h).1 (ne_backslash hc)
      · rw [hm, List.flatMap_cons] at h
        exact absurd (hd.trans (congrArg some (List.cons.inj (List.cons.inj h).2).1.symm))
          shortEscape_ne_u
    | none =>
      simp only [hc, hd] at h
      split_ifs at h
      · exact List.cons.inj h
      · rw [hn, List.flatMap_cons] at h
        exact absurd (List.cons.inj h).1 (ne_backslash hc)
      · rw [hm, List.flatMap_cons] at h
        exact absurd (List.cons.inj h).1.symm (ne_backslash hd)
      · exact utf16_append_inj h

/-- No escape starts with a quotation mark. -/
theorem escape_head (c : Char) : ∃ d rest, escape c = d :: rest ∧ d ≠ quotationMark := by
  rw [escape]
  cases hc : shortEscape c with
  | some letter => exact ⟨_, _, rfl, by decide⟩
  | none =>
    obtain ⟨unit, units, hunits⟩ := utf16_ne_nil c
    simp only
    split
    · refine ⟨_, _, rfl, ?_⟩
      rintro rfl
      cases hc
    · rw [hunits, List.flatMap_cons]
      exact ⟨_, _, rfl, by decide⟩

theorem quote_append_inj {text text' r s : List Char} (h : quote text ++ r = quote text' ++ s) :
    text = text' ∧ r = s := by
  simp only [quote, List.cons_append, List.append_assoc, List.nil_append] at h
  replace h := (List.cons.inj h).2
  induction text generalizing text' with
  | nil =>
    cases text' with
    | nil => exact ⟨rfl, (List.cons.inj h).2⟩
    | cons d text' =>
      obtain ⟨e, rest, he, hne⟩ := escape_head d
      rw [List.flatMap_cons, he] at h
      exact absurd (List.cons.inj h).1.symm hne
  | cons c text ih =>
    cases text' with
    | nil =>
      obtain ⟨e, rest, he, hne⟩ := escape_head c
      rw [List.flatMap_cons, he] at h
      exact absurd (List.cons.inj h).1 hne
    | cons d text' =>
      rw [List.flatMap_cons, List.flatMap_cons, List.append_assoc, List.append_assoc] at h
      obtain ⟨rfl, hmore⟩ := escape_append_inj h
      obtain ⟨rfl, hrest⟩ := ih hmore
      exact ⟨rfl, hrest⟩

/-! ## Values -/

section Render

variable {ν : Type} (repr : ν → List Char)

mutual

/-- The text of a value, with the members of objects in the order they have. -/
def render : Json ν → List Char
  | null => "null".toList
  | bool value => if value then "true".toList else "false".toList
  | number value => repr value
  | string value => quote value
  | array items => '[' :: renderItems items
  | object members => '{' :: renderMembers members

def renderItems : List (Json ν) → List Char
  | [] => [']']
  | item :: items => render item ++ renderMoreItems items

def renderMoreItems : List (Json ν) → List Char
  | [] => [']']
  | item :: items => ',' :: (render item ++ renderMoreItems items)

def renderMembers : List (List Char × Json ν) → List Char
  | [] => ['}']
  | (name, value) :: members => quote name ++ ':' :: (render value ++ renderMoreMembers members)

def renderMoreMembers : List (List Char × Json ν) → List Char
  | [] => ['}']
  | (name, value) :: members =>
    ',' :: (quote name ++ ':' :: (render value ++ renderMoreMembers members))

end

end Render

mutual

/-- The members of all objects in the order of their names. -/
def sortKeys {ν : Type} : Json ν → Json ν
  | null => null
  | bool value => bool value
  | number value => number value
  | string value => string value
  | array items => array (sortItems items)
  | object members => object ((sortMembers members).insertionSort (·.1 ≤ ·.1))

def sortItems {ν : Type} : List (Json ν) → List (Json ν)
  | [] => []
  | item :: items => sortKeys item :: sortItems items

def sortMembers {ν : Type} : List (List Char × Json ν) → List (List Char × Json ν)
  | [] => []
  | (name, value) :: members => (name, sortKeys value) :: sortMembers members

end

/-- `json.dumps` with `sort_keys` and no blanks. -/
def dumps {ν : Type} (repr : ν → List Char) (value : Json ν) : List Char :=
  render repr (sortKeys value)

/-- The numbers are valid ones, and the members of all objects stand in the order of their names,
each name once. -/
inductive Canonical {ν : Type} (valid : ν → Prop) : Json ν → Prop
  | null : Canonical valid null
  | bool (value : Bool) : Canonical valid (bool value)
  | number {value : ν} (h : valid value) : Canonical valid (number value)
  | string (value : List Char) : Canonical valid (string value)
  | array {items : List (Json ν)} (h : ∀ item ∈ items, Canonical valid item) :
    Canonical valid (array items)
  | object {members : List (List Char × Json ν)} (sorted : members.Pairwise (·.1 < ·.1))
    (h : ∀ m ∈ members, Canonical valid m.2) : Canonical valid (object members)

section Canonical

variable {ν : Type} {valid : ν → Prop}

theorem sortItems_eq_self {items : List (Json ν)} (h : ∀ item ∈ items, sortKeys item = item) :
    sortItems items = items := by
  induction items with
  | nil => rfl
  | cons item items ih =>
    obtain ⟨hitem, hitems⟩ := List.forall_mem_cons.mp h
    rw [sortItems, hitem, ih hitems]

theorem sortMembers_eq_self {members : List (List Char × Json ν)}
    (h : ∀ m ∈ members, sortKeys m.2 = m.2) : sortMembers members = members := by
  induction members with
  | nil => rfl
  | cons m members ih =>
    obtain ⟨hm, hmembers⟩ := List.forall_mem_cons.mp h
    rw [sortMembers, hm, ih hmembers]

theorem Canonical.mono {valid' : ν → Prop} (hvalid : ∀ n, valid n → valid' n) {value : Json ν}
    (h : Canonical valid value) : Canonical valid' value := by
  induction h with
  | null => exact .null
  | bool value => exact .bool value
  | number h => exact .number (hvalid _ h)
  | string text => exact .string text
  | array _ ih => exact .array ih
  | object sorted _ ih => exact .object sorted ih

theorem Canonical.sortKeys_eq {value : Json ν} (h : Canonical valid value) :
    sortKeys value = value := by
  induction h with
  | null | bool | number | string => rfl
  | array _ ih => rw [sortKeys, sortItems_eq_self ih]
  | object sorted _ ih =>
    have hle : (_ : List (List Char × Json ν)).Pairwise (·.1 ≤ ·.1) := sorted.imp fun h => h.le
    rw [sortKeys, sortMembers_eq_self ih, hle.insertionSort_eq]

/-- The characters of numbers. -/
def isNumberChar (c : Char) : Bool := c.isDigit || c ∈ ['-', '+', '.', 'e']

/-- The texts of the valid numbers: each is written for one number only. -/
structure NumberTexts (repr : ν → List Char) (valid : ν → Prop) : Prop where
  injective {m n : ν} : valid m → valid n → repr m = repr n → m = n
  ne_nil {n : ν} : valid n → repr n ≠ []
  chars {n : ν} : valid n → ∀ c ∈ repr n, isNumberChar c

/-- No number goes on into the text. -/
def Stops (text : List Char) : Prop := ∀ c ∈ text.head?, isNumberChar c = false

theorem stops_nil : Stops [] := fun _ h => nomatch h

theorem stops_cons {c : Char} (h : isNumberChar c = false) (text : List Char) : Stops (c :: text) :=
  fun _ hc => Option.some.inj hc ▸ h

theorem stops_renderMoreItems (repr : ν → List Char) (items : List (Json ν)) (r : List Char) :
    Stops (renderMoreItems repr items ++ r) := by
  cases items <;> exact stops_cons (by decide) _

theorem stops_renderMoreMembers (repr : ν → List Char) (members : List (List Char × Json ν))
    (r : List Char) : Stops (renderMoreMembers repr members ++ r) := by
  cases members <;> exact stops_cons (by decide) _

theorem append_prefix {p : Char → Bool} {a b r s : List Char} (ha : ∀ c ∈ a, p c)
    (hb : ∀ c ∈ b, p c) (hr : ∀ c ∈ r.head?, p c = false) (hs : ∀ c ∈ s.head?, p c = false)
    (h : a ++ r = b ++ s) : a = b ∧ r = s := by
  have htake {a r : List Char} (ha : ∀ c ∈ a, p c) (hr : ∀ c ∈ r.head?, p c = false) :
      (a ++ r).takeWhile p = a := by
    rw [List.takeWhile_append_of_pos ha]
    cases r with
    | nil => exact List.append_nil a
    | cons c r => rw [List.takeWhile_cons_of_neg (by rw [hr c rfl]; nofun), List.append_nil]
  have hab : a = b := by rw [← htake ha hr, h, htake hb hs]
  exact ⟨hab, List.append_cancel_left (hab ▸ h)⟩

/-- What kind of value a text starts with. -/
def kindOf (c : Char) : ℕ :=
  if c = 'n' then 0 else if c = 't' ∨ c = 'f' then 1 else if c = quotationMark then 3
  else if c = '[' then 4 else if c = '{' then 5 else if isNumberChar c then 2 else 6

def kind : Json ν → ℕ
  | null => 0
  | bool _ => 1
  | number _ => 2
  | string _ => 3
  | array _ => 4
  | object _ => 5

theorem kindOf_numberChar {c : Char} (h : isNumberChar c) : kindOf c = 2 := by
  rw [kindOf, if_neg, if_neg, if_neg, if_neg, if_neg, if_pos h]
  · rintro rfl; cases h
  · rintro rfl; cases h
  · rintro rfl; cases h
  · rintro (rfl | rfl) <;> cases h
  · rintro rfl; cases h

variable {repr : ν → List Char}

theorem render_head (hrepr : NumberTexts repr valid) {value : Json ν} (h : Canonical valid value) :
    ∃ c rest, render repr value = c :: rest ∧ kindOf c = kind value := by
  cases h with
  | null => exact ⟨'n', _, rfl, rfl⟩
  | bool value => cases value <;> exact ⟨_, _, rfl, rfl⟩
  | @number value hvalue =>
    rw [render]
    cases hrender : repr value with
    | nil => exact absurd hrender (hrepr.ne_nil hvalue)
    | cons c rest =>
      exact ⟨c, rest, rfl, kindOf_numberChar (hrepr.chars hvalue c (hrender ▸ List.mem_cons_self))⟩
  | string => exact ⟨_, _, rfl, rfl⟩
  | array => exact ⟨_, _, rfl, rfl⟩
  | object => exact ⟨_, _, rfl, rfl⟩

/-- What follows the text of a value is told from the text. -/
def Determines (repr : ν → List Char) (valid : ν → Prop) (value : Json ν) : Prop :=
  ∀ {value' : Json ν} {r s : List Char}, Canonical valid value' → Stops r → Stops s →
    render repr value ++ r = render repr value' ++ s → value = value' ∧ r = s

theorem renderMoreItems_append_inj {items items' : List (Json ν)} {r s : List Char}
    (h : ∀ item ∈ items, Determines repr valid item)
    (h' : ∀ item ∈ items', Canonical valid item)
    (heq : renderMoreItems repr items ++ r = renderMoreItems repr items' ++ s) :
    items = items' ∧ r = s := by
  induction items generalizing items' with
  | nil =>
    cases items' with
    | nil => exact ⟨rfl, (List.cons.inj heq).2⟩
    | cons item' items' => exact absurd (List.cons.inj heq).1 (by decide)
  | cons item items ih =>
    cases items' with
    | nil => exact absurd (List.cons.inj heq).1 (by decide)
    | cons item' items' =>
      obtain ⟨hitem, hitems⟩ := List.forall_mem_cons.mp h
      obtain ⟨hitem', hitems'⟩ := List.forall_mem_cons.mp h'
      rw [renderMoreItems, renderMoreItems, List.cons_append, List.cons_append, List.append_assoc,
        List.append_assoc] at heq
      obtain ⟨rfl, hmore⟩ := hitem hitem' (stops_renderMoreItems repr _ _)
        (stops_renderMoreItems repr _ _) (List.cons.inj heq).2
      obtain ⟨rfl, hrest⟩ := ih hitems hitems' hmore
      exact ⟨rfl, hrest⟩

theorem renderItems_append_inj (hrepr : NumberTexts repr valid) {items items' : List (Json ν)}
    {r s : List Char} (hc : ∀ item ∈ items, Canonical valid item)
    (h : ∀ item ∈ items, Determines repr valid item)
    (h' : ∀ item ∈ items', Canonical valid item)
    (heq : renderItems repr items ++ r = renderItems repr items' ++ s) :
    items = items' ∧ r = s := by
  have hbracket {item : Json ν} (h : Canonical valid item) {r s : List Char} :
      render repr item ++ r ≠ ']' :: s := by
    obtain ⟨c, rest, hrender, hkind⟩ := render_head hrepr h
    rw [hrender]
    intro heq
    rw [(List.cons.inj heq).1] at hkind
    cases h <;> cases hkind
  cases items with
  | nil =>
    cases items' with
    | nil => exact ⟨rfl, (List.cons.inj heq).2⟩
    | cons item' items' =>
      rw [renderItems, renderItems, List.append_assoc] at heq
      exact absurd heq.symm (hbracket (List.forall_mem_cons.mp h').1)
  | cons item items =>
    cases items' with
    | nil =>
      rw [renderItems, renderItems, List.append_assoc] at heq
      exact absurd heq (hbracket (List.forall_mem_cons.mp hc).1)
    | cons item' items' =>
      obtain ⟨hitem, hitems⟩ := List.forall_mem_cons.mp h
      obtain ⟨hitem', hitems'⟩ := List.forall_mem_cons.mp h'
      rw [renderItems, renderItems, List.append_assoc, List.append_assoc] at heq
      obtain ⟨rfl, hmore⟩ := hitem hitem' (stops_renderMoreItems repr _ _)
        (stops_renderMoreItems repr _ _) heq
      obtain ⟨rfl, hrest⟩ := renderMoreItems_append_inj hitems hitems' hmore
      exact ⟨rfl, hrest⟩

theorem renderMember_append_inj {m m' : List Char × Json ν} {members members' r s : List Char}
    (h : Determines repr valid m.2) (h' : Canonical valid m'.2) (hr : Stops (members ++ r))
    (hs : Stops (members' ++ s))
    (heq : quote m.1 ++ ':' :: (render repr m.2 ++ members) ++ r =
      quote m'.1 ++ ':' :: (render repr m'.2 ++ members') ++ s) :
    m = m' ∧ members ++ r = members' ++ s := by
  rw [List.append_assoc, List.append_assoc, List.cons_append, List.cons_append, List.append_assoc,
    List.append_assoc] at heq
  obtain ⟨hname, heq⟩ := quote_append_inj heq
  obtain ⟨hvalue, hmore⟩ := h h' hr hs (List.cons.inj heq).2
  exact ⟨Prod.ext hname hvalue, hmore⟩

theorem renderMoreMembers_append_inj {members members' : List (List Char × Json ν)} {r s : List Char}
    (h : ∀ m ∈ members, Determines repr valid m.2) (h' : ∀ m ∈ members', Canonical valid m.2)
    (heq : renderMoreMembers repr members ++ r = renderMoreMembers repr members' ++ s) :
    members = members' ∧ r = s := by
  induction members generalizing members' with
  | nil =>
    cases members' with
    | nil => exact ⟨rfl, (List.cons.inj heq).2⟩
    | cons m' members' => exact absurd (List.cons.inj heq).1 (by decide)
  | cons m members ih =>
    cases members' with
    | nil => exact absurd (List.cons.inj heq).1 (by decide)
    | cons m' members' =>
      obtain ⟨hm, hmembers⟩ := List.forall_mem_cons.mp h
      obtain ⟨hm', hmembers'⟩ := List.forall_mem_cons.mp h'
      obtain ⟨rfl, hmore⟩ := renderMember_append_inj hm hm' (stops_renderMoreMembers repr _ _)
        (stops_renderMoreMembers repr _ _) (List.cons.inj heq).2
      obtain ⟨rfl, hrest⟩ := ih hmembers hmembers' hmore
      exact ⟨rfl, hrest⟩

theorem renderMembers_append_inj {members members' : List (List Char × Json ν)} {r s : List Char}
    (h : ∀ m ∈ members, Determines repr valid m.2) (h' : ∀ m ∈ members', Canonical valid m.2)
    (heq : renderMembers repr members ++ r = renderMembers repr members' ++ s) :
    members = members' ∧ r = s := by
  cases members with
  | nil =>
    cases members' with
    | nil => exact ⟨rfl, (List.cons.inj heq).2⟩
    | cons m' members' => exact absurd (List.cons.inj heq).1 (by decide)
  | cons m members =>
    cases members' with
    | nil => exact absurd (List.cons.inj heq).1 (by decide)
    | cons m' members' =>
      obtain ⟨hm, hmembers⟩ := List.forall_mem_cons.mp h
      obtain ⟨hm', hmembers'⟩ := List.forall_mem_cons.mp h'
      obtain ⟨rfl, hmore⟩ := renderMember_append_inj hm hm' (stops_renderMoreMembers repr _ _)
        (stops_renderMoreMembers repr _ _) heq
      obtain ⟨rfl, hrest⟩ := renderMoreMembers_append_inj hmembers hmembers' hmore
      exact ⟨rfl, hrest⟩

/-- Induction on the first value; the first characters tell which kind the second is of. -/
theorem Canonical.determines (hrepr : NumberTexts repr valid) {value : Json ν}
    (h : Canonical valid value) : Determines repr valid value := by
  have hkind {value value' : Json ν} {r s : List Char} (h : Canonical valid value)
      (h' : Canonical valid value') (heq : render repr value ++ r = render repr value' ++ s) :
      kind value = kind value' := by
    obtain ⟨c, rest, hc, hkind⟩ := render_head hrepr h
    obtain ⟨c', rest', hc', hkind'⟩ := render_head hrepr h'
    rw [hc, hc'] at heq
    rw [← hkind, ← hkind', (List.cons.inj heq).1]
  induction h with
  | null =>
    intro value' r s h' hr hs heq
    have hsame := hkind .null h' heq
    cases h' with
    | null => exact ⟨rfl, List.append_cancel_left heq⟩
    | _ => cases hsame
  | bool value =>
    intro value' r s h' hr hs heq
    have hsame := hkind (.bool value) h' heq
    cases h' with
    | bool value' =>
      cases value <;> cases value'
      · exact ⟨rfl, List.append_cancel_left heq⟩
      · exact absurd (List.cons.inj heq).1 (by decide)
      · exact absurd (List.cons.inj heq).1 (by decide)
      · exact ⟨rfl, List.append_cancel_left heq⟩
    | _ => cases hsame
  | number hvalue =>
    intro value' r s h' hr hs heq
    have hsame := hkind (.number hvalue) h' heq
    cases h' with
    | number hvalue' =>
      obtain ⟨hrepr', hrest⟩ := append_prefix (hrepr.chars hvalue) (hrepr.chars hvalue') hr hs heq
      exact ⟨congrArg Json.number (hrepr.injective hvalue hvalue' hrepr'), hrest⟩
    | _ => cases hsame
  | string value =>
    intro value' r s h' hr hs heq
    have hsame := hkind (.string value) h' heq
    cases h' with
    | string value' => exact (quote_append_inj heq).imp_left (congrArg Json.string)
    | _ => cases hsame
  | array hitems ih =>
    intro value' r s h' hr hs heq
    have hsame := hkind (.array hitems) h' heq
    cases h' with
    | array hitems' =>
      exact (renderItems_append_inj hrepr hitems ih hitems' (List.cons.inj heq).2).imp_left
        (congrArg Json.array)
    | _ => cases hsame
  | object hsorted hmembers ih =>
    intro value' r s h' hr hs heq
    have hsame := hkind (.object hsorted hmembers) h' heq
    cases h' with
    | object hsorted' hmembers' =>
      exact (renderMembers_append_inj ih hmembers' (List.cons.inj heq).2).imp_left (congrArg Json.object)
    | _ => cases hsame

/-- Canonical values with one text are equal. -/
theorem dumps_injective (hrepr : NumberTexts repr valid) {value value' : Json ν}
    (h : Canonical valid value) (h' : Canonical valid value')
    (heq : dumps repr value = dumps repr value') : value = value' := by
  rw [dumps, dumps, h.sortKeys_eq, h'.sortKeys_eq, ← List.append_nil (render repr value),
    ← List.append_nil (render repr value')] at heq
  exact (h.determines hrepr h' stops_nil stops_nil heq).1

theorem sortKeys_swap {a b : List Char} (h : b < a) (value value' : Json ν) :
    sortKeys (.object [(a, value), (b, value')]) =
      .object [(b, sortKeys value'), (a, sortKeys value)] := by
  rw [sortKeys, sortMembers, sortMembers, sortMembers, List.insertionSort_cons,
    List.insertionSort_cons, List.insertionSort_nil, List.orderedInsert_nil,
    List.orderedInsert_cons, if_neg (not_le.mpr h), List.orderedInsert_nil]

/-- The text forgets the order of the members, and nothing else. -/
theorem dumps_eq_iff (hrepr : NumberTexts repr valid) {value value' : Json ν}
    (h : Canonical valid (sortKeys value)) (h' : Canonical valid (sortKeys value')) :
    dumps repr value = dumps repr value' ↔ sortKeys value = sortKeys value' := by
  refine ⟨fun heq => dumps_injective hrepr h h' ?_, congrArg (render repr)⟩
  rw [dumps, dumps, h.sortKeys_eq, h'.sortKeys_eq]
  exact heq

end Canonical

end Json

end Apanel
