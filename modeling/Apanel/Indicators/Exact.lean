import Apanel.Indicators.Arithmetic
import Mathlib.Algebra.Order.Field.Rat
import Mathlib.Tactic.Ring
import Mathlib.Tactic.FieldSimp
import Mathlib.Algebra.BigOperators.Group.List.Basic

/-!
# Exact arithmetic

The rational numbers as an arithmetic of the engine: nothing rounds, every value is finite, and
`sqrt` is an arbitrary function.
-/

namespace Apanel

/-- Exact rational arithmetic with `sqrt` as its square root. -/
def Exact (_sqrt : ℚ → ℚ) : Type := ℚ

namespace Exact

variable {sqrt : ℚ → ℚ}

instance : Field (Exact sqrt) := inferInstanceAs (Field ℚ)

instance : LinearOrder (Exact sqrt) := inferInstanceAs (LinearOrder ℚ)

instance : IsStrictOrderedRing (Exact sqrt) := inferInstanceAs (IsStrictOrderedRing ℚ)

instance : Arith (Exact sqrt) where
  ofRat q := q
  lt a b := decide (a < b)
  le a b := decide (a ≤ b)
  eq a b := decide (a = b)
  isFinite _ := true
  sqrt := sqrt
  abs a := if a < 0 then -a else a
  fsum xs := .ok xs.sum

@[simp] theorem ofNat_eq (n : ℕ) : (Arith.ofNat n : Exact sqrt) = n := rfl

@[simp] theorem lt_eq (a b : Exact sqrt) : Arith.lt a b = decide (a < b) := rfl

@[simp] theorem le_eq (a b : Exact sqrt) : Arith.le a b = decide (a ≤ b) := rfl

@[simp] theorem eq_eq (a b : Exact sqrt) : Arith.eq a b = decide (a = b) := rfl

@[simp] theorem isFinite_eq (a : Exact sqrt) : Arith.isFinite a = true := rfl

@[simp] theorem fsum_eq (xs : List (Exact sqrt)) : Arith.fsum xs = .ok xs.sum := rfl

@[simp] theorem max_eq (a b : Exact sqrt) : Arith.max a b = max a b := by
  rw [Arith.max, lt_eq, max_def_lt]
  simp

end Exact

end Apanel
