import Apanel.Library.Table
import Apanel.Library.Causal

/-!
# Unique facts

Records read one after the other into a table of facts: equal duplicates collapse, and a record that
does not parse, or that contradicts a fact already there, is an error. Whether the records are
accepted, and as which table, depends on the set of the records alone (`unique_congr`).
-/

namespace Apanel

namespace Facts

universe u v w

variable {κ ρ ε : Type u} {α : Type v} [LinearOrder κ] [DecidableEq α]

/-- A fact that must not contradict the ones there. -/
def add (conflict : ε) (facts : Table κ α) (key : κ) (fact : α) : Except ε (Table κ α) :=
  if (facts.get? key).any (· ≠ fact) then .error conflict else .ok (facts.insert key fact)

/-- One record after the others. -/
def step (parse : ρ → Except ε (κ × α)) (conflict : ε) (facts : Table κ α) (record : ρ) :
    Except ε (Table κ α) :=
  match parse record with
  | .error error => .error error
  | .ok (key, fact) => add conflict facts key fact

def unique (parse : ρ → Except ε (κ × α)) (conflict : ε) (records : List ρ) :
    Except ε (Table κ α) :=
  records.foldlM (step parse conflict) ∅

variable {parse : ρ → Except ε (κ × α)} {conflict : ε}

theorem add_eq_ok {facts facts' : Table κ α} {key : κ} {fact : α} :
    add conflict facts key fact = .ok facts' ↔
      (∀ old ∈ facts.get? key, old = fact) ∧ facts' = facts.insert key fact := by
  rw [add]
  split
  · next hany =>
    obtain ⟨old, hold, hne⟩ := (Option.any_eq_true _ _).mp hany
    refine ⟨nofun, fun ⟨hsame, _⟩ => ?_⟩
    exact absurd (hsame old hold) (of_decide_eq_true hne)
  · next hany =>
    have hsame : ∀ old ∈ facts.get? key, old = fact := by
      intro old hold
      by_contra hne
      exact hany ((Option.any_eq_true _ _).mpr ⟨old, hold, decide_eq_true hne⟩)
    rw [Except.ok.injEq, eq_comm, and_iff_right hsame]

theorem step_eq_ok {facts facts' : Table κ α} {record : ρ} :
    step parse conflict facts record = .ok facts' ↔ ∃ key fact, parse record = .ok (key, fact) ∧
      (∀ old ∈ facts.get? key, old = fact) ∧ facts' = facts.insert key fact := by
  rw [step]
  cases parse record with
  | error error => simp
  | ok parsed =>
    obtain ⟨key, fact⟩ := parsed
    dsimp only
    rw [add_eq_ok]
    constructor
    · exact fun h => ⟨key, fact, rfl, h⟩
    · rintro ⟨key', fact', heq, h⟩
      cases heq
      exact h

/-- The accepted records are the facts, together with those there before. -/
theorem foldlM_eq_ok {records : List ρ} {facts facts' : Table κ α} :
    records.foldlM (step parse conflict) facts = .ok facts' ↔
      (∀ record ∈ records, ∃ key fact, parse record = .ok (key, fact) ∧
        facts'.get? key = some fact) ∧
      (∀ key fact, facts.get? key = some fact → facts'.get? key = some fact) ∧
      ∀ key fact, facts'.get? key = some fact → facts.get? key = some fact ∨
        ∃ record ∈ records, parse record = .ok (key, fact) := by
  induction records generalizing facts with
  | nil =>
    simp only [List.foldlM_nil, pure, Except.pure, Except.ok.injEq, List.not_mem_nil,
      false_implies, implies_true, true_and, false_and, exists_false, or_false]
    refine ⟨fun h => h ▸ ⟨fun _ _ h => h, fun _ _ h => h⟩, fun ⟨hle, hge⟩ => ?_⟩
    exact Table.ext_get? fun key => Option.ext fun fact => ⟨hle key fact, hge key fact⟩
  | cons record records ih =>
    rw [List.foldlM_cons, Except.bind_eq_ok]
    simp only [step_eq_ok, ih, List.forall_mem_cons]
    constructor
    · rintro ⟨_, ⟨key, fact, hparse, hold, rfl⟩, hrecords, hle, hge⟩
      refine ⟨⟨⟨key, fact, hparse, hle key fact (Table.get?_insert_self ..)⟩, hrecords⟩,
        fun key' fact' hfact => hle key' fact' ?_, fun key' fact' hfact => ?_⟩
      · rw [Table.get?_insert]
        split
        · next heq =>
          subst heq
          rw [hold fact' hfact]
        · exact hfact
      · rcases hge key' fact' hfact with hfact | ⟨record', hrecord', hparse'⟩
        · rw [Table.get?_insert] at hfact
          split at hfact
          · next heq =>
            cases hfact
            exact .inr ⟨record, List.mem_cons_self, heq ▸ hparse⟩
          · exact .inl hfact
        · exact .inr ⟨record', List.mem_cons_of_mem _ hrecord', hparse'⟩
    · rintro ⟨⟨⟨key, fact, hparse, hfact⟩, hrecords⟩, hle, hge⟩
      refine ⟨facts.insert key fact, ⟨key, fact, hparse, fun old hold => ?_, rfl⟩, hrecords,
        fun key' fact' hfact' => ?_, fun key' fact' hfact' => ?_⟩
      · exact Option.some.inj ((hle key old hold).symm.trans hfact)
      · rw [Table.get?_insert] at hfact'
        split at hfact'
        · next heq =>
          cases hfact'
          exact heq ▸ hfact
        · exact hle key' fact' hfact'
      · rw [Table.get?_insert]
        rcases hge key' fact' hfact' with hold | ⟨record', hrecord', hparse'⟩
        · split
          · next heq =>
            subst heq
            rw [hfact] at hfact'
            exact .inl hfact'
          · exact .inl hold
        · rcases List.mem_cons.mp hrecord' with rfl | hrecord'
          · cases hparse.symm.trans hparse'
            exact .inl (if_pos rfl)
          · exact .inr ⟨record', hrecord', hparse'⟩

theorem unique_eq_ok {records : List ρ} {facts : Table κ α} :
    unique parse conflict records = .ok facts ↔
      (∀ record ∈ records, ∃ key fact, parse record = .ok (key, fact) ∧
        facts.get? key = some fact) ∧
      ∀ key fact, facts.get? key = some fact → ∃ record ∈ records, parse record = .ok (key, fact) := by
  rw [unique, foldlM_eq_ok]
  simp

theorem get?_of_unique_eq_ok {records : List ρ} {facts : Table κ α}
    (h : unique parse conflict records = .ok facts) {key : κ} {fact : α} :
    facts.get? key = some fact ↔ ∃ record ∈ records, parse record = .ok (key, fact) := by
  obtain ⟨hmem, hfrom⟩ := unique_eq_ok.mp h
  refine ⟨hfrom key fact, fun ⟨record, hrecord, hparse⟩ => ?_⟩
  obtain ⟨key', fact', hparse', hget⟩ := hmem record hrecord
  cases hparse.symm.trans hparse'
  exact hget

/-- An error is that of a record, or the conflict. -/
theorem foldlM_eq_error {records : List ρ} {facts : Table κ α} {error : ε}
    (h : records.foldlM (step parse conflict) facts = .error error) :
    error = conflict ∨ ∃ record ∈ records, parse record = .error error := by
  induction records generalizing facts with
  | nil => cases h
  | cons record records ih =>
    rw [List.foldlM_cons] at h
    cases hstep : step parse conflict facts record with
    | ok facts' =>
      rw [hstep] at h
      exact (ih h).imp_right fun ⟨record', hrecord', hparse⟩ =>
        ⟨record', List.mem_cons_of_mem _ hrecord', hparse⟩
    | error error' =>
      rw [hstep] at h
      cases h
      rw [step] at hstep
      split at hstep
      · next hparse =>
        cases hstep
        exact .inr ⟨record, List.mem_cons_self, hparse⟩
      · rw [add] at hstep
        split at hstep
        · cases hstep
          exact .inl rfl
        · cases hstep

/-- Neither the order of the records nor repetitions decide whether they are accepted, nor as what. -/
theorem unique_congr {records records' : List ρ} (h : ∀ record, record ∈ records ↔ record ∈ records')
    (facts : Table κ α) :
    unique parse conflict records = .ok facts ↔ unique parse conflict records' = .ok facts := by
  simp only [unique_eq_ok, h]

/-- Records that contradict each other are not accepted. -/
theorem unique_ne_ok {records : List ρ} {record record' : ρ} {key : κ} {fact fact' : α}
    (hmem : record ∈ records) (hmem' : record' ∈ records) (hparse : parse record = .ok (key, fact))
    (hparse' : parse record' = .ok (key, fact')) (hne : fact ≠ fact') (facts : Table κ α) :
    unique parse conflict records ≠ .ok facts := by
  intro hok
  have hget := (get?_of_unique_eq_ok hok).mpr ⟨record, hmem, hparse⟩
  have hget' := (get?_of_unique_eq_ok hok).mpr ⟨record', hmem', hparse'⟩
  exact hne (Option.some.inj (hget.symm.trans hget'))

/-- Records that parse and do not contradict each other are accepted. -/
theorem exists_unique_eq_ok {records : List ρ}
    (hparse : ∀ record ∈ records, ∃ key fact, parse record = .ok (key, fact))
    (hsame : ∀ record ∈ records, ∀ record' ∈ records, ∀ key fact fact',
      parse record = .ok (key, fact) → parse record' = .ok (key, fact') → fact = fact') :
    ∃ facts, unique parse conflict records = .ok facts := by
  obtain ⟨rows, hrows⟩ : ∃ rows : List (κ × α),
      ∀ row, row ∈ rows ↔ ∃ record ∈ records, parse record = .ok row := by
    refine ⟨records.filterMap fun record => (parse record).toOption, fun row => ?_⟩
    rw [List.mem_filterMap]
    refine exists_congr fun record => and_congr_right fun _ => ?_
    cases parse record <;> simp [Except.toOption]
  have hfrom {key : κ} {fact : α} (hfact : (Table.ofList rows).get? key = some fact) :
      ∃ record ∈ records, parse record = .ok (key, fact) :=
    (hrows _).mp ((Table.of_get?_insertMany hfact).resolve_right nofun)
  refine ⟨Table.ofList rows, unique_eq_ok.mpr ⟨fun record hrecord => ?_, fun _ _ => hfrom⟩⟩
  obtain ⟨key, fact, heq⟩ := hparse record hrecord
  have hkey : key ∈ (Table.ofList rows).keys :=
    Table.mem_keys_ofList.mpr (List.mem_map.mpr ⟨_, (hrows _).mpr ⟨record, hrecord, heq⟩, rfl⟩)
  obtain ⟨fact', hfact'⟩ := Table.mem_keys.mp hkey
  obtain ⟨record', hrecord', heq'⟩ := hfrom hfact'
  cases hsame record hrecord record' hrecord' key fact fact' heq heq'
  exact ⟨key, fact, heq, hfact'⟩

end Facts

end Apanel
