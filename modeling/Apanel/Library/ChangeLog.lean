import Mathlib.Data.List.Sort
import Mathlib.Order.Basic

/-!
# Change logs

A recorder folds a sequence of dated observations into a state and logs an entry where the state
changes. The log alone determines the state after any initial part of the observations, so that
recording can resume from it.
-/

namespace Apanel

universe u v w x

/-- A log entry carries the state it leads to and the time of its observation; an observation that
logs nothing leaves the state alone. -/
structure Recorder (τ : Type u) (σ : Type v) (ο : Type w) (ε : Type x) where
  step : Option σ → ο → σ × Option ε
  time : ο → τ
  stamp : ε → τ
  stateOf : ε → σ
  logged (s o e) : (step s o).2 = some e → stateOf e = (step s o).1 ∧ stamp e = time o
  silent (s o) : (step s o).2 = none → s = some (step s o).1

namespace Recorder

variable {τ : Type u} {σ : Type v} {ο : Type w} {ε : Type x} (r : Recorder τ σ ο ε)

/-- The entries logged for a list of observations, from a state. -/
def log : Option σ → List ο → List ε
  | _, [] => []
  | s, o :: os => (r.step s o).2.toList ++ log (some (r.step s o).1) os

/-- The state after a list of observations. -/
def final : Option σ → List ο → Option σ
  | s, [] => s
  | s, o :: os => final (some (r.step s o).1) os

@[simp] theorem log_nil (s : Option σ) : r.log s [] = [] := rfl

@[simp] theorem final_nil (s : Option σ) : r.final s [] = s := rfl

theorem log_append (s : Option σ) (os os' : List ο) :
    r.log s (os ++ os') = r.log s os ++ r.log (r.final s os) os' := by
  induction os generalizing s with
  | nil => rfl
  | cons o os ih => simp only [List.cons_append, log, final, ih, List.append_assoc]

theorem final_append (s : Option σ) (os os' : List ο) :
    r.final s (os ++ os') = r.final (r.final s os) os' := by
  induction os generalizing s with
  | nil => rfl
  | cons o os ih => exact ih _

/-- Any observation leads to a state. -/
theorem exists_final_of_ne_nil (s : Option σ) {os : List ο} (h : os ≠ []) :
    ∃ state, r.final s os = some state := by
  induction os generalizing s with
  | nil => exact absurd rfl h
  | cons o os ih =>
    cases os with
    | nil => exact ⟨_, rfl⟩
    | cons o' os => exact ih _ (List.cons_ne_nil o' os)

/-- An entry is logged by an observation, in the state the ones before it lead to. -/
theorem mem_log {s : Option σ} {os : List ο} {e : ε} :
    e ∈ r.log s os ↔
      ∃ done o rest, os = done ++ o :: rest ∧ (r.step (r.final s done) o).2 = some e := by
  induction os generalizing s with
  | nil => simp
  | cons o os ih =>
    rw [log, List.mem_append, ih, Option.mem_toList]
    constructor
    · rintro (hstep | ⟨done, o', rest, rfl, hstep⟩)
      · exact ⟨[], o, os, rfl, hstep⟩
      · exact ⟨o :: done, o', rest, rfl, hstep⟩
    · rintro ⟨done, o', rest, hos, hstep⟩
      cases done with
      | nil =>
        obtain ⟨rfl, rfl⟩ := List.cons.inj hos
        exact .inl hstep
      | cons first done =>
        obtain ⟨rfl, rfl⟩ := List.cons.inj hos
        exact .inr ⟨done, o', rest, rfl, hstep⟩

/-- Every entry is stamped with the time of an observation. -/
theorem exists_of_mem_log {s : Option σ} {os : List ο} {e : ε} (he : e ∈ r.log s os) :
    ∃ o ∈ os, r.stamp e = r.time o := by
  induction os generalizing s with
  | nil => exact absurd he List.not_mem_nil
  | cons o os ih =>
    rcases List.mem_append.mp he with he | he
    · exact ⟨o, List.mem_cons_self, (r.logged s o e (Option.mem_toList.mp he)).2⟩
    · obtain ⟨o', ho', h⟩ := ih he
      exact ⟨o', List.mem_cons_of_mem _ ho', h⟩

/-- What an entry shows is what its observation shows. -/
theorem exists_of_mem_log_view {α : Type*} (view : σ → α) (seen : ο → α)
    (h : ∀ s o, view (r.step s o).1 = seen o) {s : Option σ} {os : List ο} {e : ε}
    (he : e ∈ r.log s os) : ∃ o ∈ os, r.stamp e = r.time o ∧ view (r.stateOf e) = seen o := by
  induction os generalizing s with
  | nil => exact absurd he List.not_mem_nil
  | cons o os ih =>
    rcases List.mem_append.mp he with he | he
    · obtain ⟨hstate, hstamp⟩ := r.logged s o e (Option.mem_toList.mp he)
      exact ⟨o, List.mem_cons_self, hstamp, by rw [hstate, h]⟩
    · obtain ⟨o', ho', h⟩ := ih he
      exact ⟨o', List.mem_cons_of_mem _ ho', h⟩

/-- The state is that of the last entry. -/
theorem final_eq (s : Option σ) (os : List ο) :
    r.final s os = ((r.log s os).getLast?.map r.stateOf).or s := by
  induction os generalizing s with
  | nil => rfl
  | cons o os ih =>
    rw [final, ih, log, List.getLast?_append]
    cases hlast : (r.log (some (r.step s o).1) os).getLast? with
    | some e => rfl
    | none =>
      cases hlog : (r.step s o).2 with
      | some e => exact congrArg some (r.logged s o e hlog).1.symm
      | none => exact (r.silent s o hlog).symm

/-- What a state shows of the last observation. -/
theorem final_view {α : Type*} (view : σ → α) (seen : ο → α)
    (h : ∀ s o, view (r.step s o).1 = seen o) (s : Option σ) (os : List ο) :
    (r.final s os).map view = (os.getLast?.map seen).or (s.map view) := by
  induction os generalizing s with
  | nil => rfl
  | cons o os ih =>
    rw [final, ih, Option.map_some, h, List.getLast?_cons]
    cases os.getLast? <;> rfl

section Order

variable [LinearOrder τ] {os : List ο}

theorem log_sorted (h : os.Pairwise fun o o' => r.time o < r.time o') (s : Option σ) :
    (r.log s os).Pairwise fun e e' => r.stamp e < r.stamp e' := by
  induction os generalizing s with
  | nil => exact .nil
  | cons o os ih =>
    obtain ⟨hfirst, hrest⟩ := List.pairwise_cons.mp h
    refine List.pairwise_append.mpr ⟨?_, ih hrest _, ?_⟩
    · cases (r.step s o).2 with
      | none => exact .nil
      | some e => exact List.pairwise_singleton _ _
    · intro e he e' he'
      obtain ⟨o', ho', hstamp⟩ := r.exists_of_mem_log he'
      rw [(r.logged s o e (Option.mem_toList.mp he)).2, hstamp]
      exact hfirst o' ho'

/-- The log up to a time is the log of the observations up to it. -/
theorem log_filter {p : τ → Bool} (hp : ∀ t t', t < t' → p t' → p t)
    (h : os.Pairwise fun o o' => r.time o < r.time o') (s : Option σ) :
    (r.log s os).filter (fun e => p (r.stamp e)) = r.log s (os.filter fun o => p (r.time o)) := by
  induction os generalizing s with
  | nil => rfl
  | cons o os ih =>
    obtain ⟨hfirst, hrest⟩ := List.pairwise_cons.mp h
    rw [log, List.filter_append, ih hrest]
    by_cases hpo : p (r.time o)
    · rw [List.filter_cons, if_pos hpo, log]
      congr 1
      rw [List.filter_eq_self]
      intro e he
      rw [(r.logged s o e (Option.mem_toList.mp he)).2]
      exact hpo
    · have hnone : (os.filter fun o => p (r.time o)) = [] := by
        rw [List.filter_eq_nil_iff]
        exact fun o' ho' hpo' => hpo (hp _ _ (hfirst o' ho') hpo')
      rw [List.filter_cons, if_neg hpo, hnone, log_nil, log_nil, List.append_nil,
        List.filter_eq_nil_iff]
      intro e he
      rw [(r.logged s o e (Option.mem_toList.mp he)).2]
      exact hpo

end Order

end Recorder

/-! ## Selecting from sorted lists -/

section Select

variable {α : Type u}

/-- Sorting keeps a selection that is sorted already. -/
theorem filter_insertionSort {r : α → α → Prop} [DecidableRel r] {p : α → Bool} {l : List α}
    (h : (l.filter p).Pairwise r) : (l.insertionSort r).filter p = l.filter p := by
  have hsub : (l.filter p).Sublist ((l.insertionSort r).filter p) := by
    have := (List.sublist_insertionSort h List.filter_sublist).filter p
    rwa [List.filter_filter, List.filter_congr (q := p) fun x _ => Bool.and_self _] at this
  exact (hsub.eq_of_length ((List.perm_insertionSort r l).filter p).length_eq.symm).symm

/-- A list is its selection, followed by the rest, if no element outside it precedes one inside. -/
theorem filter_append_of_pairwise {p : α → Bool} {l : List α}
    (h : l.Pairwise fun a b => p b → p a) : l.filter p ++ l.filter (fun a => !p a) = l := by
  induction l with
  | nil => rfl
  | cons a l ih =>
    obtain ⟨hfirst, hrest⟩ := List.pairwise_cons.mp h
    by_cases hpa : p a
    · simp only [List.filter_cons, hpa, if_true, Bool.not_true, Bool.false_eq_true, if_false,
        List.cons_append, ih hrest]
    · have hnone : l.filter p = [] := List.filter_eq_nil_iff.mpr fun b hb hpb => hpa (hfirst b hb hpb)
      have hall : l.filter (fun a => !p a) = l := by
        simpa [hnone] using ih hrest
      simp only [List.filter_cons, hpa, hnone, hall, Bool.not_false, if_true, List.nil_append,
        Bool.false_eq_true, if_false]

/-- A list sorted by a key is its part below a bound, followed by the rest. -/
theorem filter_append_filter_not {τ : Type v} [LinearOrder τ] {key : α → τ} {p : τ → Bool}
    (hp : ∀ t t', t < t' → p t' → p t) {l : List α} (h : l.Pairwise fun a b => key a < key b) :
    l.filter (fun a => p (key a)) ++ l.filter (fun a => !p (key a)) = l :=
  filter_append_of_pairwise (h.imp fun hlt => hp _ _ hlt)

/-- The last element of a list sorted by an order is the greatest. -/
theorem getLast?_eq_some_iff {r : α → α → Prop} (hrefl : ∀ a, r a a) {l : List α}
    (hanti : ∀ a ∈ l, ∀ b ∈ l, r a b → r b a → a = b) (h : l.Pairwise r) {a : α} :
    l.getLast? = some a ↔ a ∈ l ∧ ∀ b ∈ l, r b a := by
  have hgreatest {c : α} (hc : l.getLast? = some c) : c ∈ l ∧ ∀ b ∈ l, r b c := by
    obtain ⟨init, rfl⟩ := List.getLast?_eq_some_iff.mp hc
    refine ⟨by simp, fun b hb => ?_⟩
    rcases List.mem_append.mp hb with hb | hb
    · exact (List.pairwise_append.mp h).2.2 b hb c (List.mem_singleton_self c)
    · rw [List.mem_singleton.mp hb]
      exact hrefl c
  refine ⟨hgreatest, fun ⟨ha, hle⟩ => ?_⟩
  cases hlast : l.getLast? with
  | none => exact absurd (List.getLast?_eq_none_iff.mp hlast) (List.ne_nil_of_mem ha)
  | some c =>
    obtain ⟨hc, hmax⟩ := hgreatest hlast
    rw [hanti c hc a ha (hle c hc) (hmax a ha)]

/-- Strictly sorted lists with the same elements are the same. -/
theorem eq_of_mem_iff [LinearOrder α] {l l' : List α} (h : l.Pairwise (· < ·))
    (h' : l'.Pairwise (· < ·)) (hmem : ∀ a, a ∈ l ↔ a ∈ l') : l = l' := by
  have hnodup : l.Nodup := h.imp fun hlt => hlt.ne
  have hnodup' : l'.Nodup := h'.imp fun hlt => hlt.ne
  exact ((List.perm_ext_iff_of_nodup hnodup hnodup').mpr hmem).eq_of_pairwise
    (fun a b _ _ hab hba => absurd (hab.trans hba) (lt_irrefl _)) h h'

/-- The part of a strictly sorted list up to one of its elements ends with it. -/
theorem filter_le_eq_concat [LinearOrder α] {l : List α} (h : l.Pairwise (· < ·)) {a : α}
    (ha : a ∈ l) : l.filter (· ≤ a) = l.filter (· < a) ++ [a] := by
  induction l with
  | nil => exact absurd ha List.not_mem_nil
  | cons b l ih =>
    obtain ⟨hfirst, hrest⟩ := List.pairwise_cons.mp h
    rcases List.mem_cons.mp ha with rfl | ha
    · have hnone : l.filter (· ≤ a) = [] :=
        List.filter_eq_nil_iff.mpr fun c hc => by simpa using hfirst c hc
      have hnone' : l.filter (· < a) = [] :=
        List.filter_eq_nil_iff.mpr fun c hc => by simpa using (hfirst c hc).le
      simp [hnone, hnone']
    · have hlt := hfirst a ha
      simp [hlt, hlt.le, ih hrest ha]

/-- Among elements with distinct keys, the selection of a key is its one element. -/
theorem filter_eq_singleton {κ : Type v} [DecidableEq κ] {key : α → κ} {l : List α}
    (h : (l.map key).Nodup) {a : α} (ha : a ∈ l) : l.filter (key · = key a) = [a] := by
  have hnodup : (l.filter (key · = key a)).Nodup := h.of_map.filter _
  refine List.perm_singleton.mp ((List.perm_ext_iff_of_nodup hnodup (List.nodup_singleton a)).mpr ?_)
  intro b
  rw [List.mem_filter, List.mem_singleton, decide_eq_true_eq]
  constructor
  · exact fun ⟨hb, heq⟩ => List.inj_on_of_nodup_map h hb ha heq
  · rintro rfl
    exact ⟨ha, rfl⟩

/-- A list sorted by a key has one element of each key. -/
theorem eq_of_key_eq {τ : Type v} [LinearOrder τ] {key : α → τ} {l : List α}
    (h : l.Pairwise fun a b => key a < key b) {a b : α} (ha : a ∈ l) (hb : b ∈ l)
    (heq : key a = key b) : a = b :=
  List.inj_on_of_nodup_map ((List.pairwise_map.mpr h).imp ne_of_lt) ha hb heq

theorem le_of_getLast? {τ : Type v} [LinearOrder τ] {key : α → τ} {l : List α}
    (h : l.Pairwise fun a b => key a < key b) {a b : α} (hb : l.getLast? = some b) (ha : a ∈ l) :
    key a ≤ key b := by
  obtain ⟨l, rfl⟩ := List.getLast?_eq_some_iff.mp hb
  rcases List.mem_append.mp ha with ha | ha
  · exact ((List.pairwise_append.mp h).2.2 a ha b (List.mem_singleton_self b)).le
  · rw [List.mem_singleton.mp ha]

end Select

end Apanel
