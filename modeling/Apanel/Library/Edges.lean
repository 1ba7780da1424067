import Mathlib.Data.List.Basic

/-!
# Rising edges

A level is read at successive points; an edge rises at a point where the level is on and was off
before. Reading in pieces finds the same edges (`risingEdges_append`), each piece with the level
that the one before leaves.
-/

namespace Apanel

section Edges

variable {α : Type*}

/-- The points where the level rises. -/
def risingEdges (prior : Bool) : List (α × Bool) → List α
  | [] => []
  | (point, level) :: rest =>
    (if level && !prior then [point] else []) ++ risingEdges level rest

/-- The level after the points. -/
def lastLevel (prior : Bool) : List (α × Bool) → Bool
  | [] => prior
  | (_, level) :: rest => lastLevel level rest

theorem lastLevel_append (prior : Bool) (points points' : List (α × Bool)) :
    lastLevel prior (points ++ points') = lastLevel (lastLevel prior points) points' := by
  induction points generalizing prior with
  | nil => rfl
  | cons point points ih => exact ih point.2

theorem risingEdges_append (prior : Bool) (points points' : List (α × Bool)) :
    risingEdges prior (points ++ points') =
      risingEdges prior points ++ risingEdges (lastLevel prior points) points' := by
  induction points generalizing prior with
  | nil => rfl
  | cons point points ih =>
    rw [List.cons_append, risingEdges, risingEdges, ih, List.append_assoc]
    rfl

end Edges

end Apanel
