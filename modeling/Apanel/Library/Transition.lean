import Mathlib.Data.List.Basic

/-!
# Runs of a transition system

A system is a step function on states; a run is a list of actions. `Always` says that every step of
a run meets a condition on the state it is taken in, and `run_invariant` is the induction rule for
what such runs preserve.
-/

namespace Apanel

universe u v

variable {σ : Type u} {α : Type v} (step : σ → α → σ)

def run (s : σ) (actions : List α) : σ := actions.foldl step s

@[simp] theorem run_nil (s : σ) : run step s [] = s := rfl

@[simp] theorem run_cons (s : σ) (a : α) (actions : List α) :
    run step s (a :: actions) = run step (step s a) actions := rfl

theorem run_append (s : σ) (actions actions' : List α) :
    run step s (actions ++ actions') = run step (run step s actions) actions' :=
  List.foldl_append

/-- Every step of the run is taken in a state in which it meets the condition. -/
def Always (cond : σ → α → Prop) : σ → List α → Prop
  | _, [] => True
  | s, a :: actions => cond s a ∧ Always cond (step s a) actions

instance Always.decidable {cond : σ → α → Prop} [∀ s a, Decidable (cond s a)] (s : σ)
    (actions : List α) : Decidable (Always step cond s actions) :=
  match actions with
  | [] => .isTrue trivial
  | a :: actions =>
    have : Decidable (Always step cond (step s a) actions) := Always.decidable (step s a) actions
    inferInstanceAs (Decidable (_ ∧ _))

/-- How many steps of the run meet the condition, in the states in which they are taken. -/
def countSteps (p : σ → α → Prop) [∀ s a, Decidable (p s a)] : σ → List α → ℕ
  | _, [] => 0
  | s, a :: actions => (if p s a then 1 else 0) + countSteps p (step s a) actions

variable {step}

theorem always_append {cond : σ → α → Prop} {s : σ} {actions actions' : List α} :
    Always step cond s (actions ++ actions') ↔
      Always step cond s actions ∧ Always step cond (run step s actions) actions' := by
  induction actions generalizing s with
  | nil => simp [Always]
  | cons a actions ih => simp [Always, ih, and_assoc]

theorem always_of_forall {p : α → Prop} {actions : List α} (h : ∀ a ∈ actions, p a) (s : σ) :
    Always step (fun _ a => p a) s actions := by
  induction actions generalizing s with
  | nil => trivial
  | cons a actions ih =>
    exact ⟨h a List.mem_cons_self, ih (fun b hb => h b (List.mem_cons_of_mem a hb)) _⟩

/-- A property each admissible step preserves holds after every admissible run. -/
theorem run_invariant {Inv : σ → Prop} {cond : σ → α → Prop}
    (hstep : ∀ s a, Inv s → cond s a → Inv (step s a)) {s : σ} (hs : Inv s) {actions : List α}
    (hrun : Always step cond s actions) : Inv (run step s actions) := by
  induction actions generalizing s with
  | nil => exact hs
  | cons a actions ih => exact ih (hstep s a hs hrun.1) hrun.2

/-- A bound on a count, from an invariant of the state and the count so far. -/
theorem countSteps_invariant {p : σ → α → Prop} [∀ s a, Decidable (p s a)]
    (Inv : σ → ℕ → Prop) {cond : σ → α → Prop}
    (hstep : ∀ s a n, Inv s n → cond s a → Inv (step s a) (n + if p s a then 1 else 0)) {s : σ}
    {n : ℕ} (hs : Inv s n) {actions : List α} (hrun : Always step cond s actions) :
    Inv (run step s actions) (n + countSteps step p s actions) := by
  induction actions generalizing s n with
  | nil => exact hs
  | cons a actions ih =>
    rw [run_cons, countSteps, ← Nat.add_assoc]
    exact ih (hstep s a n hs hrun.1) hrun.2

/-- A property every step preserves holds after every run. -/
theorem run_preserves (Inv : σ → Prop) (hstep : ∀ s a, Inv s → Inv (step s a)) {s : σ} (hs : Inv s)
    (actions : List α) : Inv (run step s actions) := by
  induction actions generalizing s with
  | nil => exact hs
  | cons a actions ih => exact ih (hstep s a hs)

end Apanel
