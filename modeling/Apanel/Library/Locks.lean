import Apanel.Library.Table

/-!
# Exclusive locks

Requests in flight, each of which holds some locks. A lock may be taken when no other request holds
it; the locks of different requests are then disjoint (`Exclusive`).
-/

namespace Apanel

namespace Locks

universe u v

variable {ρ : Type u} {ι : Type v} [DecidableEq ι] (held : ρ → List ι)

/-- No request other than `r` holds the lock. -/
def Free (requests : Table ℕ ρ) (r : ℕ) (lock : ι) : Prop :=
  ∀ row ∈ requests.rows, row.1 ≠ r → lock ∉ held row.2

instance (requests : Table ℕ ρ) (r : ℕ) (lock : ι) : Decidable (Free held requests r lock) :=
  inferInstanceAs (Decidable (∀ row ∈ requests.rows, row.1 ≠ r → lock ∉ held row.2))

def Exclusive (requests : Table ℕ ρ) : Prop :=
  ∀ r r' a b, requests.get? r = some a → requests.get? r' = some b → r ≠ r' →
    ∀ lock ∈ held a, lock ∉ held b

variable {held}

omit [DecidableEq ι] in
theorem Exclusive.empty : Exclusive held ∅ := fun _ _ _ _ h => absurd h (by simp)

omit [DecidableEq ι] in
/-- A request may go on with the locks it has and with free ones. -/
theorem Exclusive.insert {requests : Table ℕ ρ} (h : Exclusive held requests) {r : ℕ} {x : ρ}
    (hlocks : ∀ lock ∈ held x, (∃ a, requests.get? r = some a ∧ lock ∈ held a) ∨
      Free held requests r lock) :
    Exclusive held (requests.insert r x) := by
  have hother {r' : ℕ} {b : ρ} (hne : r' ≠ r) (hb : requests.get? r' = some b) :
      ∀ lock ∈ held x, lock ∉ held b := by
    intro lock hlock
    rcases hlocks lock hlock with ⟨a, ha, hheld⟩ | hfree
    · exact h r r' a b ha hb hne.symm lock hheld
    · exact hfree (r', b) (Table.get?_eq_some.mp hb) hne
  intro r₁ r₂ a b ha hb hne
  rw [Table.get?_insert] at ha hb
  split at ha <;> split at hb
  · next h₁ h₂ => exact absurd (h₁.trans h₂.symm) hne
  · next hne' =>
    cases ha
    exact hother hne' hb
  · next hne' _ =>
    cases hb
    exact fun lock hlock hheld => hother hne' ha lock hheld hlock
  · exact h r₁ r₂ a b ha hb hne

omit [DecidableEq ι] in
theorem Exclusive.erase {requests : Table ℕ ρ} (h : Exclusive held requests) (r : ℕ) :
    Exclusive held (requests.erase r) := by
  intro r₁ r₂ a b ha hb hne
  rw [Table.get?_erase] at ha hb
  split at ha <;> split at hb
  · cases ha
  · cases ha
  · cases hb
  · exact h r₁ r₂ a b ha hb hne

end Locks

end Apanel
