import Mathlib.Data.Rat.Defs
import Mathlib.Algebra.Order.Ring.Unbundled.Rat
import Mathlib.Algebra.Order.AbsoluteValue.Basic

/-!
# The arithmetic of the indicator engine

The engine computes with Python floats. No result below depends on how an operation rounds, so the
formulas are stated over a type `F` with uninterpreted operations; the only behaviour they branch on
is the outcome of a comparison and of `math.isfinite`. `Ranged` is the concrete arithmetic used to
evaluate the model: exact rationals with the range of a binary64.
-/

namespace Apanel

/-- The exceptions a calculation can raise, by the class `_series_for_request` catches:
`IndicatorError` and its subclasses, a plain `ValueError`, and `OverflowError` of `math.fsum`. -/
inductive CalculationError
  | indicatorError
  | valueError
  | overflowError
  deriving DecidableEq

/-- The float operations the indicators and the state evaluators use. -/
class Arith (F : Type) extends Add F, Sub F, Mul F, Div F, Neg F where
  /-- The literal or `float(Decimal)` of this value. -/
  ofRat : ℚ → F
  lt : F → F → Bool
  le : F → F → Bool
  eq : F → F → Bool
  isFinite : F → Bool
  sqrt : F → F
  abs : F → F
  fsum : List F → Except CalculationError F

namespace Arith

variable {F : Type} [Arith F]

def ofNat (n : ℕ) : F := ofRat n

/-- Python's `max(a, b)`: the first argument unless the second is greater. -/
def max (a b : F) : F := if lt a b then b else a

end Arith

/-- Rationals with the range of a binary64; `none` is a value that is not finite. -/
abbrev Ranged := Option ℚ

namespace Ranged

/-- A result at or beyond `2 ^ 1024` is not finite. -/
def ofRat (q : ℚ) : Ranged := if -2 ^ 1024 < q ∧ q < 2 ^ 1024 then some q else none

def lift₂ (f : ℚ → ℚ → Ranged) : Ranged → Ranged → Ranged
  | some a, some b => f a b
  | _, _ => none

def compare₂ (r : ℚ → ℚ → Bool) : Ranged → Ranged → Bool
  | some a, some b => r a b
  | _, _ => false

/-- The integer square root, two bits of `n` at a time. -/
def natSqrt : ℕ → ℕ → ℕ
  | 0, _ => 0
  | fuel + 1, n =>
    let r := 2 * natSqrt fuel (n / 4)
    if (r + 1) * (r + 1) ≤ n then r + 1 else r

def sqrt : Ranged → Ranged
  | some q => if q < 0 then none else
      ofRat (natSqrt (Nat.log2 (q.num.toNat * q.den) + 1) (q.num.toNat * q.den) / q.den)
  | none => none

def fsum (xs : List Ranged) : Except CalculationError Ranged :=
  match xs.foldr (fun x s => do return (← x) + (← s)) (some (0 : ℚ)) with
  | none => .ok none
  | some s => match ofRat s with
    | some s => .ok (some s)
    | none => .error .overflowError

instance : Arith Ranged where
  add := lift₂ fun a b => ofRat (a + b)
  sub := lift₂ fun a b => ofRat (a - b)
  mul := lift₂ fun a b => ofRat (a * b)
  div := lift₂ fun a b => if b = 0 then none else ofRat (a / b)
  neg := Option.map (-·)
  ofRat := ofRat
  lt := compare₂ fun a b => a < b
  le := compare₂ fun a b => a ≤ b
  eq := compare₂ fun a b => a = b
  isFinite := Option.isSome
  sqrt := sqrt
  abs := Option.map fun a => if a < 0 then -a else a
  fsum := fsum

/-- A value as a list of integers, by which keys that contain it are compared. -/
def code : Ranged → List ℤ
  | none => [0]
  | some q => [1, q.num, q.den]

theorem code_injective : Function.Injective code := by
  intro a b h
  cases a <;> cases b <;> simp only [code, List.cons.injEq, reduceCtorEq, and_false] at h ⊢
  exact congrArg some (Rat.ext h.2.1 (by exact_mod_cast h.2.2.1))

end Ranged

end Apanel
