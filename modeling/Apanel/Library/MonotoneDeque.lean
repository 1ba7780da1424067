import Mathlib.Data.List.DropRight
import Mathlib.Data.List.MinMax

/-!
# Monotone deques

The maximum of a sliding window is the front of a deque that holds the entries of the window which
exceed every later one (`maxima`): a new value removes the entries it dominates at the back, and
the entries before the window leave at the front.
-/

namespace Apanel

universe u v

section Maxima

variable {ι : Type u} {α : Type v} [LinearOrder α]

/-- The entries whose value exceeds every later one, oldest first. -/
def maxima : List (ι × α) → List (ι × α)
  | [] => []
  | entry :: entries =>
    if ∀ later ∈ entries, later.2 < entry.2 then entry :: maxima entries else maxima entries

theorem maxima_sublist (entries : List (ι × α)) : (maxima entries).Sublist entries := by
  induction entries with
  | nil => exact .slnil
  | cons entry entries ih =>
    unfold maxima
    split
    · exact ih.cons_cons entry
    · exact ih.cons entry

theorem maxima_decreasing (entries : List (ι × α)) :
    (maxima entries).Pairwise fun a b => b.2 < a.2 := by
  induction entries with
  | nil => exact .nil
  | cons entry entries ih =>
    unfold maxima
    split
    · next hmax => exact .cons (fun b hb => hmax b ((maxima_sublist entries).mem hb)) ih
    · exact ih

/-- From a decreasing list, dropping at the back keeps what exceeds the bound. -/
theorem rdropWhile_eq_filter {entries : List (ι × α)}
    (h : entries.Pairwise fun a b => b.2 < a.2) (value : α) :
    entries.rdropWhile (fun entry => entry.2 ≤ value) =
      entries.filter fun entry => value < entry.2 := by
  induction entries using List.reverseRecOn with
  | nil => rfl
  | append_singleton entries last ih =>
    obtain ⟨hentries, -, hlast⟩ := List.pairwise_append.mp h
    rw [List.rdropWhile_concat, List.filter_append, List.filter_singleton]
    by_cases hle : last.2 ≤ value
    · simp [hle, ih hentries, not_lt.mpr hle]
    · have hlt : value < last.2 := not_le.mp hle
      have hkept : entries.filter (fun entry => value < entry.2) = entries := by
        refine List.filter_eq_self.mpr fun entry hentry => ?_
        exact decide_eq_true (hlt.trans (hlast entry hentry last List.mem_cons_self))
      simp [hle, hlt, hkept]

/-- A new value removes the entries that it dominates. -/
theorem maxima_concat (entries : List (ι × α)) (last : ι × α) :
    maxima (entries ++ [last]) =
      (maxima entries).rdropWhile (fun entry => entry.2 ≤ last.2) ++ [last] := by
  rw [rdropWhile_eq_filter (maxima_decreasing entries)]
  induction entries with
  | nil => simp [maxima]
  | cons entry entries ih =>
    rw [List.cons_append, maxima, maxima, ih]
    by_cases hlt : last.2 < entry.2
    · by_cases hmax : ∀ later ∈ entries, later.2 < entry.2
      · have hall : ∀ later ∈ entries ++ [last], later.2 < entry.2 := by
          intro later hlater
          obtain hlater | hlater := List.mem_append.mp hlater
          · exact hmax later hlater
          · exact List.mem_singleton.mp hlater ▸ hlt
        rw [if_pos hall, if_pos hmax]
        simp [hlt]
      · have hall : ¬ ∀ later ∈ entries ++ [last], later.2 < entry.2 :=
          fun hall => hmax fun later hlater => hall later (List.mem_append_left _ hlater)
        rw [if_neg hall, if_neg hmax]
    · have hall : ¬ ∀ later ∈ entries ++ [last], later.2 < entry.2 :=
        fun hall => hlt (hall last List.mem_concat_self)
      rw [if_neg hall]
      split <;> simp [hlt]

/-- The front holds the greatest value. -/
theorem maxima_head? (entries : List (ι × α)) :
    (maxima entries).head?.map (·.2) = (entries.map (·.2)).max? := by
  induction entries with
  | nil => rfl
  | cons entry entries ih =>
    rw [List.map_cons, List.max?_cons, maxima]
    split
    · next hmax =>
      cases hm : (entries.map (·.2)).max? with
      | none => rfl
      | some m =>
        obtain ⟨later, hlater, rfl⟩ := List.mem_map.mp (List.max?_eq_some_iff.mp hm).1
        exact congrArg some (max_eq_left (hmax later hlater).le).symm
    · next hmax =>
      obtain ⟨later, hlater, hle⟩ : ∃ later ∈ entries, entry.2 ≤ later.2 := by simpa using hmax
      obtain ⟨m, hm⟩ : ∃ m, (entries.map (·.2)).max? = some m :=
        Option.ne_none_iff_exists'.mp fun hnone => by simp_all
      have hlast := (List.max?_eq_some_iff.mp hm).2 later.2 (List.mem_map_of_mem hlater)
      rw [ih, hm]
      exact congrArg some (max_eq_right (hle.trans hlast)).symm

end Maxima

section Window

variable {α : Type v} [LinearOrder α]

/-- The entries of a window of the last `n` values that exceed every later one. -/
def windowMaxima (n : ℕ) (values : List α) : List (ℕ × α) :=
  maxima ((values.mapIdx Prod.mk).drop (values.length - n))

@[simp] theorem windowMaxima_nil (n : ℕ) : windowMaxima n ([] : List α) = [] := by
  simp [windowMaxima, maxima]

/-- The deque after a new value: the dominated entries leave at the back, the expired ones at the
front. -/
def pushMaxima (n index : ℕ) (value : α) (deque : List (ℕ × α)) : List (ℕ × α) :=
  (deque.rdropWhile (fun entry => entry.2 ≤ value) ++ [(index, value)]).dropWhile
    fun entry => entry.1 + n < index + 1

/-- Entries that have expired leave the deque at its front. -/
theorem dropWhile_maxima_append {ι : Type u} {expired : ι × α → Bool} {old new : List (ι × α)}
    (hold : ∀ entry ∈ old, expired entry) (hnew : ∀ entry ∈ new, ¬ expired entry) :
    (maxima (old ++ new)).dropWhile expired = maxima new := by
  induction old with
  | nil =>
    refine List.dropWhile_eq_self_iff.mpr fun hpos => ?_
    exact hnew _ ((maxima_sublist new).mem (List.getElem_mem hpos))
  | cons entry old ih =>
    obtain ⟨hentry, hold⟩ := List.forall_mem_cons.mp hold
    rw [List.cons_append, maxima]
    split
    · rw [List.dropWhile_cons_of_pos hentry, ih hold]
    · exact ih hold

theorem pushMaxima_windowMaxima {n : ℕ} (values : List α) (value : α) :
    pushMaxima n values.length value (windowMaxima n values) =
      windowMaxima n (values ++ [value]) := by
  let entries := (values ++ [value]).mapIdx Prod.mk
  have hindex : ∀ i (h : i < entries.length), entries[i].1 = i :=
    fun i h => congrArg Prod.fst List.getElem_mapIdx
  have hentries : entries = values.mapIdx Prod.mk ++ [(values.length, value)] := List.mapIdx_concat
  -- the window before the expired entries leave
  have hwindow : (values.mapIdx Prod.mk).drop (values.length - n) ++ [(values.length, value)] =
      entries.drop (values.length - n) := by
    rw [hentries, List.drop_append_of_le_length (by simp)]
  rw [pushMaxima, windowMaxima, ← maxima_concat (_) (values.length, value), hwindow, windowMaxima]
  rw [← List.take_append_drop (values.length + 1 - n - (values.length - n))
    (entries.drop (values.length - n)), List.drop_drop]
  rw [show values.length - n + (values.length + 1 - n - (values.length - n)) =
    (values ++ [value]).length - n by simp; omega]
  refine dropWhile_maxima_append (fun entry hentry => ?_) (fun entry hentry => ?_)
  · obtain ⟨i, hi, rfl⟩ := List.getElem_of_mem hentry
    rw [List.length_take] at hi
    rw [List.getElem_take, List.getElem_drop, hindex]
    exact decide_eq_true (by omega)
  · obtain ⟨i, hi, rfl⟩ := List.getElem_of_mem hentry
    rw [List.getElem_drop, hindex]
    simp only [List.length_append, List.length_singleton, decide_eq_true_eq]
    omega

theorem windowMaxima_head? (n : ℕ) (values : List α) :
    (windowMaxima n values).head?.map (·.2) = (values.rtake n).max? := by
  rw [windowMaxima, maxima_head?, List.map_drop, List.rtake]
  congr 2
  exact List.ext_getElem (by simp) (by simp)

/-! ### The dual -/

/-- The entries of a window of the last `n` values that every later one exceeds. -/
def windowMinima (n : ℕ) (values : List α) : List (ℕ × α) := @windowMaxima αᵒᵈ _ n values

@[simp] theorem windowMinima_nil (n : ℕ) : windowMinima n ([] : List α) = [] :=
  @windowMaxima_nil αᵒᵈ _ n

def pushMinima (n index : ℕ) (value : α) (deque : List (ℕ × α)) : List (ℕ × α) :=
  (deque.rdropWhile (fun entry => value ≤ entry.2) ++ [(index, value)]).dropWhile
    fun entry => entry.1 + n < index + 1

theorem pushMinima_windowMinima {n : ℕ} (values : List α) (value : α) :
    pushMinima n values.length value (windowMinima n values) =
      windowMinima n (values ++ [value]) :=
  @pushMaxima_windowMaxima αᵒᵈ _ n values value

theorem windowMinima_head? (n : ℕ) (values : List α) :
    (windowMinima n values).head?.map (·.2) = (values.rtake n).min? :=
  @windowMaxima_head? αᵒᵈ _ n values

end Window

end Apanel
