import Mathlib.Data.List.Sort
import Mathlib.Order.Basic

/-!
# Keyset pagination

A page holds the rows whose key lies beyond a cursor, in key order, up to a limit; one row more than
the limit is read to tell whether there is a next page, whose cursor is then the key of the last row.
Each page is read from the table of its own time. If all these tables agree beyond the cursors,
following the cursors reads one table (`follow_eq`, `follow_finished`).
-/

namespace Apanel

universe u v

namespace Keyset

section Table

variable {α : Type u} {κ : Type v} [LinearOrder κ] (key : α → κ)

/-- The rows beyond the cursor. -/
def beyond (cursor : Option κ) (rows : List α) : List α :=
  rows.filter fun row => cursor.all (· < key row)

/-- The rows beyond the cursor, in key order. -/
def after (rows : List α) (cursor : Option κ) : List α :=
  (beyond key cursor rows).insertionSort (key · ≤ key ·)

variable {key}

@[simp] theorem beyond_none (rows : List α) : beyond key none rows = rows :=
  List.filter_eq_self.mpr fun _ _ => rfl

theorem after_perm (rows : List α) (cursor : Option κ) :
    (after key rows cursor).Perm (beyond key cursor rows) :=
  List.perm_insertionSort _ _

theorem after_none_perm (rows : List α) : (after key rows none).Perm rows := by
  rw [after, beyond_none]
  exact List.perm_insertionSort _ _

theorem mem_after {rows : List α} {cursor : Option κ} {row : α} :
    row ∈ after key rows cursor ↔ row ∈ rows ∧ cursor.all (· < key row) := by
  rw [(after_perm rows cursor).mem_iff, beyond, List.mem_filter]

theorem after_sorted (rows : List α) (cursor : Option κ) :
    (after key rows cursor).Pairwise (key · ≤ key ·) := by
  have : Std.Total fun a b : α => key a ≤ key b := ⟨fun a b => le_total (key a) (key b)⟩
  have : IsTrans α fun a b : α => key a ≤ key b := ⟨fun _ _ _ => le_trans⟩
  exact List.pairwise_insertionSort _ _

/-- Rows with different keys stand in increasing order. -/
theorem after_strict {rows : List α} (hkeys : (rows.map key).Nodup) (cursor : Option κ) :
    (after key rows cursor).Pairwise (key · < key ·) := by
  have hne : (after key rows cursor).Pairwise (key · ≠ key ·) := by
    have hbeyond : (beyond key cursor rows).Pairwise (key · ≠ key ·) :=
      (List.pairwise_map.mp hkeys).filter _
    exact (after_perm rows cursor).symm.pairwise hbeyond fun h => h.symm
  exact ((after_sorted rows cursor).and hne).imp fun h => lt_of_le_of_ne h.1 h.2

theorem eq_of_perm_of_strict {l l' : List α} (h : l.Perm l') (hl : l.Pairwise (key · < key ·))
    (hl' : l'.Pairwise (key · < key ·)) : l = l' :=
  h.eq_of_pairwise (fun _ _ _ _ hlt hgt => absurd hgt hlt.asymm) hl hl'

/-- Two tables agree beyond a cursor. -/
def Agrees (key : α → κ) (rows base : List α) (cursor : Option κ) : Prop :=
  (beyond key cursor rows).Perm (beyond key cursor base)

theorem Agrees.after_eq {rows base : List α} {cursor : Option κ} (h : Agrees key rows base cursor)
    (hkeys : (base.map key).Nodup) : after key rows cursor = after key base cursor := by
  have hperm : (after key rows cursor).Perm (after key base cursor) :=
    (after_perm rows cursor).trans (h.trans (after_perm base cursor).symm)
  have hne : (after key rows cursor).Pairwise (key · ≠ key ·) :=
    hperm.symm.pairwise ((after_strict hkeys cursor).imp fun h => h.ne) fun h => h.symm
  refine eq_of_perm_of_strict hperm ?_ (after_strict hkeys cursor)
  exact ((after_sorted rows cursor).and hne).imp fun h => lt_of_le_of_ne h.1 h.2

theorem filter_lt_eq_drop {l : List α} (hl : l.Pairwise (key · < key ·)) {n : ℕ} {last : α}
    (hlast : (l.take n).getLast? = some last) :
    l.filter (fun row => key last < key row) = l.drop n := by
  obtain ⟨front, hfront⟩ := List.getLast?_eq_some_iff.mp hlast
  have hsplit : front ++ [last] ++ l.drop n = l := hfront ▸ List.take_append_drop n l
  rw [← hsplit] at hl
  obtain ⟨htake, -, hcross⟩ := List.pairwise_append.mp hl
  have hbefore : ∀ row ∈ front ++ [last], key row ≤ key last := by
    intro row hrow
    rcases List.mem_append.mp hrow with hrow | hrow
    · exact ((List.pairwise_append.mp htake).2.2 row hrow last (List.mem_singleton_self last)).le
    · exact (List.mem_singleton.mp hrow) ▸ le_rfl
  have hlast_mem : last ∈ front ++ [last] := List.mem_append_right _ (List.mem_singleton_self last)
  conv_lhs => rw [← hsplit]
  rw [List.filter_append, List.filter_eq_nil_iff.mpr, List.filter_eq_self.mpr, List.nil_append]
  · exact fun row hrow => decide_eq_true (hcross last hlast_mem row hrow)
  · intro row hrow
    simpa using hbefore row hrow

/-- The rows beyond the last row of a page are those the page leaves out. -/
theorem after_last {rows : List α} (hkeys : (rows.map key).Nodup) {cursor : Option κ} {limit : ℕ}
    {last : α} (hlast : ((after key rows cursor).take limit).getLast? = some last) :
    after key rows (some (key last)) = (after key rows cursor).drop limit := by
  have hmem : last ∈ after key rows cursor :=
    List.mem_of_mem_take (List.mem_of_getLast? hlast)
  have hbeyond : beyond key (some (key last)) rows =
      (beyond key cursor rows).filter fun row => key last < key row := by
    rw [beyond, beyond, List.filter_filter]
    refine List.filter_congr fun row _ => ?_
    have htrans : key last < key row → cursor.all (· < key row) := by
      cases cursor with
      | none => exact fun _ => rfl
      | some c =>
        intro hlt
        have hc : c < key last := by simpa using (mem_after.mp hmem).2
        simpa using hc.trans hlt
    by_cases hlt : key last < key row <;> simp [hlt, htrans]
  have hstrict := after_strict hkeys cursor
  rw [← filter_lt_eq_drop hstrict hlast]
  refine eq_of_perm_of_strict ?_ (after_strict hkeys _) (hstrict.filter _)
  refine (after_perm rows _).trans ?_
  rw [hbeyond]
  exact ((after_perm rows cursor).filter _).symm

end Table

section Pages

variable {α : Type u} {κ : Type v} [LinearOrder κ] (key : α → κ) (limit : ℕ)

/-- A page of rows, and where the next one starts if there is one. -/
structure Page (α : Type u) (κ : Type v) where
  items : List α
  nextCursor : Option κ

def page (rows : List α) (cursor : Option κ) : Page α κ :=
  let found := (after key rows cursor).take (limit + 1)
  let visible := found.take limit
  { items := visible
    nextCursor := if limit < found.length then visible.getLast?.map key else none }

/-- The rows a reader collects that follows the cursors, and whether it met the last page. Each
request reads the table of its own time. -/
def follow : Option κ → List (List α) → List α × Bool
  | _, [] => ([], false)
  | cursor, rows :: tables =>
    let read := page key limit rows cursor
    match read.nextCursor with
    | none => (read.items, true)
    | some next =>
      let (items, finished) := follow (some next) tables
      (read.items ++ items, finished)

variable {key limit}

theorem page_items (rows : List α) (cursor : Option κ) :
    (page key limit rows cursor).items = (after key rows cursor).take limit := by
  simp [page, List.take_take]

theorem page_nextCursor (rows : List α) (cursor : Option κ) :
    (page key limit rows cursor).nextCursor =
      if limit < (after key rows cursor).length then
        ((after key rows cursor).take limit).getLast?.map key
      else none := by
  have hlength : limit < ((after key rows cursor).take (limit + 1)).length ↔
      limit < (after key rows cursor).length := by
    rw [List.length_take]
    omega
  simp only [page, hlength, List.take_take, Nat.min_eq_left (Nat.le_succ limit)]

/-- A page with no cursor is the last one. -/
theorem page_of_last (hlimit : 0 < limit) {rows : List α} {cursor : Option κ}
    (h : (page key limit rows cursor).nextCursor = none) :
    (after key rows cursor).length ≤ limit ∧
      (page key limit rows cursor).items = after key rows cursor := by
  have hlength : (after key rows cursor).length ≤ limit := by
    by_contra hlt
    rw [page_nextCursor, if_pos (Nat.lt_of_not_le hlt), Option.map_eq_none_iff,
      List.getLast?_eq_none_iff, List.take_eq_nil_iff] at h
    rcases h with h | h
    · exact hlimit.ne' h
    · exact hlt (h ▸ Nat.zero_le limit)
  exact ⟨hlength, by rw [page_items, List.take_of_length_le hlength]⟩

/-- The cursor of a page stands where its rows end. -/
theorem page_of_next {rows : List α} (hkeys : (rows.map key).Nodup) {cursor : Option κ} {next : κ}
    (h : (page key limit rows cursor).nextCursor = some next) :
    limit < (after key rows cursor).length ∧ next ∈ rows.map key ∧
      after key rows (some next) = (after key rows cursor).drop limit := by
  rw [page_nextCursor] at h
  split at h
  · next hlt =>
    obtain ⟨last, hlast, rfl⟩ := Option.map_eq_some_iff.mp h
    have hmem := List.mem_of_mem_take (List.mem_of_getLast? hlast)
    exact ⟨hlt, List.mem_map_of_mem (mem_after.mp hmem).1, after_last hkeys hlast⟩
  · cases h

/-- The tables that a reader meets agree with `base`: the first beyond the cursor it comes with, the
others beyond every key that can have become its cursor. -/
structure Stable (key : α → κ) (base : List α) (cursor : Option κ) (tables : List (List α)) :
    Prop where
  head : ∀ rows ∈ tables.head?, Agrees key rows base cursor
  tail : ∀ rows ∈ tables.tail, ∀ next ∈ base.map key, Agrees key rows base (some next)

theorem Stable.cons {base rows : List α} {cursor : Option κ} {tables : List (List α)}
    (h : Stable key base cursor (rows :: tables)) {next : κ} (hnext : next ∈ base.map key) :
    Stable key base (some next) tables where
  head table htable := h.tail table (List.mem_of_head? htable) next hnext
  tail table htable := h.tail table (List.mem_of_mem_tail htable)

theorem Stable.page_eq {base rows : List α} (hkeys : (base.map key).Nodup) {cursor : Option κ}
    {tables : List (List α)} (h : Stable key base cursor (rows :: tables)) :
    page key limit rows cursor = page key limit base cursor := by
  rw [page, page, (h.head rows rfl).after_eq hkeys]

variable {base : List α} {cursor : Option κ} {tables : List (List α)}

/-- A reader that has met the last page has read the whole table. -/
theorem follow_eq (hlimit : 0 < limit) (hkeys : (base.map key).Nodup)
    (h : Stable key base cursor tables) (hfinished : (follow key limit cursor tables).2) :
    (follow key limit cursor tables).1 = after key base cursor := by
  induction tables generalizing cursor with
  | nil => cases hfinished
  | cons rows tables ih =>
    rw [follow, h.page_eq hkeys] at hfinished ⊢
    split at hfinished
    · next hlast => exact (page_of_last hlimit hlast).2
    · next next hnext =>
      obtain ⟨-, hmem, hafter⟩ := page_of_next hkeys hnext
      have hrest := ih (h.cons hmem) hfinished
      rw [hafter] at hrest
      change (page key limit base cursor).items ++ (follow key limit (some next) tables).1 = _
      rw [page_items, hrest, List.take_append_drop]

/-- As many requests as the rows take fill meet the last page. -/
theorem follow_finished (hkeys : (base.map key).Nodup)
    (h : Stable key base cursor tables) (hne : tables ≠ [])
    (hlength : (after key base cursor).length ≤ limit * tables.length) :
    (follow key limit cursor tables).2 := by
  induction tables generalizing cursor with
  | nil => exact absurd rfl hne
  | cons rows tables ih =>
    rw [follow, h.page_eq hkeys]
    split
    · rfl
    · next next hnext =>
      obtain ⟨hlt, hmem, hafter⟩ := page_of_next hkeys hnext
      rw [List.length_cons, Nat.mul_succ] at hlength
      apply ih (h.cons hmem)
      · intro hnil
        rw [hnil, List.length_nil, Nat.mul_zero, Nat.zero_add] at hlength
        exact absurd hlt hlength.not_gt
      · rw [hafter, List.length_drop]
        omega

end Pages

end Keyset

end Apanel
