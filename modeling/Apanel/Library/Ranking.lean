import Apanel.Library.Keyset
import Apanel.Library.Table
import Mathlib.Data.List.Nodup

/-!
# The first row of each partition

`ORDER BY … LIMIT 1` asked for one partition, and `ROW_NUMBER() … = 1` asked for many in one query,
over rows with different sort keys: the rows numbered 1 are the first rows (`get?_firstRows`).
-/

namespace Apanel

universe u v w

namespace Ranking

variable {α : Type u} {κ : Type v} {π : Type w} [LinearOrder κ] [LinearOrder π]
variable (key : α → κ) (partition : α → π)

/-- `ORDER BY key LIMIT 1`. -/
def first (rows : List α) : Option α := (Keyset.after key rows none).head?

/-- `ROW_NUMBER() OVER (PARTITION BY partition ORDER BY key)`. -/
def rowNumber (rows : List α) (row : α) : ℕ :=
  rows.countP fun r => partition r = partition row ∧ key r ≤ key row

/-- The rows numbered 1, by their partition. -/
def firstRows (rows : List α) : Table π α :=
  Table.ofList ((rows.filter fun row => rowNumber key partition rows row = 1).map
    fun row => (partition row, row))

variable {key partition} {rows : List α} {row : α}

theorem first_eq_some (hkeys : (rows.map key).Nodup) :
    first key rows = some row ↔ row ∈ rows ∧ ∀ r ∈ rows, key row ≤ key r := by
  have hsorted : (Keyset.after key rows none).Pairwise (key · ≤ key ·) :=
    Keyset.after_sorted rows none
  have hperm : (Keyset.after key rows none).Perm rows := Keyset.after_none_perm rows
  rw [first]
  constructor
  · intro h
    obtain ⟨rest, hrest⟩ := List.head?_eq_some_iff.mp h
    rw [hrest] at hsorted hperm
    refine ⟨hperm.mem_iff.mp List.mem_cons_self, fun r hr => ?_⟩
    rcases List.mem_cons.mp (hperm.mem_iff.mpr hr) with rfl | hr
    · exact le_rfl
    · exact (List.pairwise_cons.mp hsorted).1 r hr
  · rintro ⟨hrow, hle⟩
    cases hafter : Keyset.after key rows none with
    | nil =>
      rw [hafter] at hperm
      exact absurd (hperm.mem_iff.mpr hrow) List.not_mem_nil
    | cons r rest =>
      rw [hafter] at hsorted hperm
      have hr : r ∈ rows := hperm.mem_iff.mp List.mem_cons_self
      have hge : key r ≤ key row := by
        rcases List.mem_cons.mp (hperm.mem_iff.mpr hrow) with rfl | hrow
        · exact le_rfl
        · exact (List.pairwise_cons.mp hsorted).1 row hrow
      rw [List.inj_on_of_nodup_map hkeys hr hrow (le_antisymm hge (hle r hr))]
      rfl

theorem rowNumber_eq_one (hkeys : (rows.map key).Nodup) (hrow : row ∈ rows) :
    rowNumber key partition rows row = 1 ↔
      ∀ r ∈ rows, partition r = partition row → key row ≤ key r := by
  have hmem (r : α) : r ∈ rows.filter (fun r => partition r = partition row ∧ key r ≤ key row) ↔
      r ∈ rows ∧ partition r = partition row ∧ key r ≤ key row := by simp
  rw [rowNumber, List.countP_eq_length_filter, List.length_eq_one_iff]
  constructor
  · rintro ⟨a, ha⟩ r hr hpartition
    by_contra hlt
    have hself := (hmem row).mpr ⟨hrow, rfl, le_rfl⟩
    have hother := (hmem r).mpr ⟨hr, hpartition, (not_le.mp hlt).le⟩
    rw [ha, List.mem_singleton] at hself hother
    rw [hother, hself] at hlt
    exact hlt le_rfl
  · intro h
    have heq : ∀ r ∈ rows.filter (fun r => partition r = partition row ∧ key r ≤ key row),
        r = row := by
      intro r hr
      obtain ⟨hr, hpartition, hle⟩ := (hmem r).mp hr
      exact List.inj_on_of_nodup_map hkeys hr hrow (le_antisymm hle (h r hr hpartition))
    have hself := (hmem row).mpr ⟨hrow, rfl, le_rfl⟩
    have hnodup := (hkeys.of_map).filter
      (fun r => decide (partition r = partition row ∧ key r ≤ key row))
    refine ⟨row, ?_⟩
    generalize rows.filter _ = found at *
    cases found with
    | nil => cases hself
    | cons r found =>
      cases heq r List.mem_cons_self
      cases found with
      | nil => rfl
      | cons r found =>
        cases heq r (List.mem_cons_of_mem _ List.mem_cons_self)
        exact absurd List.mem_cons_self (List.nodup_cons.mp hnodup).1

/-- The row numbered 1 of a partition is the row a query of the partition alone reads first. -/
theorem get?_firstRows (hkeys : (rows.map key).Nodup) (p : π) :
    (firstRows key partition rows).get? p = first key (rows.filter (partition · = p)) := by
  have hfilter : ((rows.filter (partition · = p)).map key).Nodup :=
    hkeys.sublist (List.filter_sublist.map key)
  rw [firstRows, Table.ofList, Table.get?_insertMany_getLast?, Table.get?_empty, Option.or_none]
  have hmem (r : π × α) : r ∈ (((rows.filter fun row => rowNumber key partition rows row = 1).map
      fun row => (partition row, row)).filter fun r => r.1 = p) ↔
      r.1 = p ∧ first key (rows.filter (partition · = p)) = some r.2 := by
    simp only [List.mem_filter, List.mem_map, first_eq_some hfilter, decide_eq_true_eq]
    constructor
    · rintro ⟨⟨row, ⟨hrow, hnumber⟩, rfl⟩, rfl⟩
      have hfirst := (rowNumber_eq_one hkeys hrow).mp hnumber
      exact ⟨rfl, ⟨hrow, rfl⟩, fun r hr => hfirst r hr.1 hr.2⟩
    · rintro ⟨hp, ⟨hrow, hpartition⟩, hle⟩
      refine ⟨⟨r.2, ⟨hrow, (rowNumber_eq_one hkeys hrow).mpr ?_⟩, ?_⟩, hp⟩
      · exact fun s hs hspartition => hle s ⟨hs, hspartition.trans hpartition⟩
      · rw [hpartition, ← hp]
  cases hlast : List.getLast? _ with
  | some r => exact ((hmem r).mp (List.mem_of_getLast? hlast)).2.symm
  | none =>
    rw [List.getLast?_eq_none_iff] at hlast
    cases hfirst : first key (rows.filter (partition · = p)) with
    | none => rfl
    | some row =>
      have hrow := (hmem (p, row)).mpr ⟨rfl, hfirst⟩
      rw [hlast] at hrow
      cases hrow

end Ranking

end Apanel
