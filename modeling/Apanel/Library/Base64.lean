import Mathlib.Data.List.DropRight
import Mathlib.Data.List.Basic

/-!
# Base64

The URL-safe alphabet, padded and unpadded. Three bytes make four characters; a last group of one or
two bytes is filled with zero bits and padded with `=`. The decoder accepts exactly one group of
padding, at the end, and does not look at the bits that padding leaves over.
-/

namespace Apanel

namespace Base64

def alphabet : List Char :=
  "ABCDEFGHIJKLMNOPQRSTUVWXYZabcdefghijklmnopqrstuvwxyz0123456789-_".toList

def charOf (value : ℕ) : Char := alphabet.getD value 'A'

/-- The value of a character. The characters that `-` and `_` stand for are accepted as well. -/
def valueOf (c : Char) : Option ℕ :=
  if c = '+' then some 62 else if c = '/' then some 63 else alphabet.idxOf? c

theorem valueOf_charOf {value : ℕ} (h : value < 64) : valueOf (charOf value) = some value := by
  have hall : ∀ value < 64, valueOf (charOf value) = some value := by decide +kernel
  exact hall value h

theorem charOf_ne_pad (value : ℕ) : charOf value ≠ '=' := by
  rcases lt_or_ge value 64 with h | h
  · intro heq
    have hvalue := valueOf_charOf h
    rw [heq] at hvalue
    have hpad : valueOf '=' = none := by decide +kernel
    rw [hpad] at hvalue
    cases hvalue
  · have hlength : alphabet.length = 64 := by decide +kernel
    rw [charOf, List.getD_eq_getElem?_getD, List.getElem?_eq_none (hlength ▸ h)]
    decide

/-! ## Groups -/

def encode : List UInt8 → List Char
  | [] => []
  | [a] => [charOf (a.toNat / 4), charOf (a.toNat % 4 * 16), '=', '=']
  | [a, b] =>
    [charOf (a.toNat / 4), charOf (a.toNat % 4 * 16 + b.toNat / 16), charOf (b.toNat % 16 * 4), '=']
  | a :: b :: c :: rest =>
    charOf (a.toNat / 4) :: charOf (a.toNat % 4 * 16 + b.toNat / 16) ::
      charOf (b.toNat % 16 * 4 + c.toNat / 64) :: charOf (c.toNat % 64) :: encode rest

def firstByte (v w : ℕ) : UInt8 := .ofNat (v * 4 + w / 16)

def secondByte (w x : ℕ) : UInt8 := .ofNat (w % 16 * 16 + x / 4)

def thirdByte (x y : ℕ) : UInt8 := .ofNat (x % 4 * 64 + y)

def decode : List Char → Option (List UInt8)
  | [] => some []
  | [a, b, '=', '='] => do
    let v ← valueOf a
    let w ← valueOf b
    some [firstByte v w]
  | [a, b, c, '='] => do
    let v ← valueOf a
    let w ← valueOf b
    let x ← valueOf c
    some [firstByte v w, secondByte w x]
  | a :: b :: c :: d :: rest => do
    let v ← valueOf a
    let w ← valueOf b
    let x ← valueOf c
    let y ← valueOf d
    let bytes ← decode rest
    some (firstByte v w :: secondByte w x :: thirdByte x y :: bytes)
  | _ => none

theorem ofNat_toNat_of_eq {a : UInt8} {n : ℕ} (h : n = a.toNat) : UInt8.ofNat n = a := by
  rw [h, UInt8.ofNat_toNat]

theorem decode_group {a b c d : Char} {v w x y : ℕ} (ha : valueOf a = some v)
    (hb : valueOf b = some w) (hc : valueOf c = some x) (hd : valueOf d = some y) (hpad : d ≠ '=')
    (rest : List Char) :
    decode (a :: b :: c :: d :: rest) = (decode rest).map fun bytes =>
      firstByte v w :: secondByte w x :: thirdByte x y :: bytes := by
  rw [decode]
  · rw [ha, hb, hc, hd]
    cases decode rest <;> rfl
  · exact fun _ h => absurd h hpad
  · exact fun h => absurd h hpad

theorem decode_encode (bytes : List UInt8) : decode (encode bytes) = some bytes := by
  induction bytes using encode.induct with
  | case1 => rfl
  | case2 a =>
    have ha := a.toNat_lt
    rw [encode, decode, valueOf_charOf (by omega), valueOf_charOf (by omega)]
    have hfirst : firstByte (a.toNat / 4) (a.toNat % 4 * 16) = a :=
      ofNat_toNat_of_eq (by omega)
    simp [hfirst]
  | case3 a b =>
    have ha := a.toNat_lt
    have hb := b.toNat_lt
    rw [encode, decode, valueOf_charOf (by omega), valueOf_charOf (by omega),
      valueOf_charOf (by omega)]
    · have hfirst : firstByte (a.toNat / 4) (a.toNat % 4 * 16 + b.toNat / 16) = a :=
        ofNat_toNat_of_eq (by omega)
      have hsecond : secondByte (a.toNat % 4 * 16 + b.toNat / 16) (b.toNat % 16 * 4) = b :=
        ofNat_toNat_of_eq (by omega)
      simp [hfirst, hsecond]
    · exact charOf_ne_pad _
  | case4 a b c rest ih =>
    have ha := a.toNat_lt
    have hb := b.toNat_lt
    have hc := c.toNat_lt
    have hfirst : firstByte (a.toNat / 4) (a.toNat % 4 * 16 + b.toNat / 16) = a :=
      ofNat_toNat_of_eq (by omega)
    have hsecond : secondByte (a.toNat % 4 * 16 + b.toNat / 16)
        (b.toNat % 16 * 4 + c.toNat / 64) = b :=
      ofNat_toNat_of_eq (by omega)
    have hthird : thirdByte (b.toNat % 16 * 4 + c.toNat / 64) (c.toNat % 64) = c :=
      ofNat_toNat_of_eq (by omega)
    rw [encode, decode_group (valueOf_charOf (by omega)) (valueOf_charOf (by omega))
      (valueOf_charOf (by omega)) (valueOf_charOf (by omega)) (charOf_ne_pad _), ih, hfirst,
      hsecond, hthird]
    rfl

/-! ## Padding -/

/-- Without the padding. -/
def encodeUnpadded (bytes : List UInt8) : List Char := (encode bytes).rdropWhile (· = '=')

/-- A text without padding, padded to a multiple of four. -/
def pad (text : List Char) : List Char :=
  text ++ List.replicate (-(text.length : ℤ) % 4).toNat '='

/-- The padding is what the last group leaves over. -/
theorem exists_encode_eq (bytes : List UInt8) :
    ∃ text n, encode bytes = text ++ List.replicate n '=' ∧ (∀ c ∈ text, c ≠ '=') ∧ n < 4 ∧
      4 ∣ text.length + n := by
  induction bytes using encode.induct with
  | case1 => exact ⟨[], 0, rfl, nofun, by omega, by simp⟩
  | case2 a =>
    refine ⟨[_, _], 2, rfl, ?_, by omega, by simp⟩
    simp [charOf_ne_pad]
  | case3 a b =>
    refine ⟨[_, _, _], 1, rfl, ?_, by omega, by simp⟩
    simp [charOf_ne_pad]
  | case4 a b c rest ih =>
    obtain ⟨text, n, hencode, htext, hn, hlength⟩ := ih
    refine ⟨_ :: _ :: _ :: _ :: text, n, by rw [encode, hencode]; rfl, ?_, hn, ?_⟩
    · simpa [charOf_ne_pad] using htext
    · simp only [List.length_cons]
      omega

theorem pad_encodeUnpadded (bytes : List UInt8) : pad (encodeUnpadded bytes) = encode bytes := by
  obtain ⟨text, n, hencode, htext, hn, hlength⟩ := exists_encode_eq bytes
  have hunpadded : encodeUnpadded bytes = text := by
    rw [encodeUnpadded, hencode, List.rdropWhile, List.reverse_append, List.reverse_replicate,
      List.dropWhile_append_of_pos (by simp), List.dropWhile_eq_self_iff.mpr, List.reverse_reverse]
    intro hpos
    simpa using htext _ (List.mem_reverse.mp (text.reverse.getElem_mem hpos))
  rw [pad, hunpadded, hencode]
  congr 2
  omega

theorem decode_pad (bytes : List UInt8) : decode (pad (encodeUnpadded bytes)) = some bytes := by
  rw [pad_encodeUnpadded, decode_encode]

end Base64

end Apanel
