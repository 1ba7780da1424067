import Mathlib.Data.List.Sort
import Mathlib.Data.List.Nodup
import Mathlib.Order.Lattice

/-!
# Sorted tables

A finite table keyed by a linear order, kept as its list of rows in increasing key order. Because
the order of the rows is part of the type, two tables with the same lookups are equal
(`Table.ext_get?`), and a bulk operation is specified by what `get?` returns afterwards.
-/

namespace Apanel

universe u v w

/-- A finite map whose rows are listed in strictly increasing key order. -/
structure Table (κ : Type u) (α : Type v) [LinearOrder κ] where
  rows : List (κ × α)
  sorted : rows.Pairwise fun r s => r.1 < s.1

namespace Table

variable {κ : Type u} [LinearOrder κ] {α : Type v} {β : Type w}

/-- The value of the row with key `k`. -/
def get? (t : Table κ α) (k : κ) : Option α :=
  t.rows.findSome? fun r => if r.1 = k then some r.2 else none

def keys (t : Table κ α) : List κ := t.rows.map (·.1)

def empty : Table κ α := ⟨[], .nil⟩

instance : EmptyCollection (Table κ α) := ⟨empty⟩

instance : Inhabited (Table κ α) := ⟨empty⟩

theorem ext_rows {t u : Table κ α} (h : t.rows = u.rows) : t = u := by
  cases t; cases u; cases h; rfl

instance [DecidableEq α] : DecidableEq (Table κ α) := fun t u =>
  decidable_of_iff (t.rows = u.rows) ⟨ext_rows, congrArg rows⟩

theorem mem_rows_unique {t : Table κ α} {k : κ} {x y : α}
    (hx : (k, x) ∈ t.rows) (hy : (k, y) ∈ t.rows) : x = y := by
  have hkey : ∀ r ∈ t.rows, ∀ s ∈ t.rows, r.1 = s.1 → r = s :=
    List.Pairwise.forall_of_forall_of_flip (fun _ _ _ => rfl)
      (t.sorted.imp fun h e => absurd e h.ne) (t.sorted.imp fun h e => absurd e h.ne')
  exact (Prod.mk.inj (hkey _ hx _ hy rfl)).2

theorem get?_eq_some {t : Table κ α} {k : κ} {x : α} :
    t.get? k = some x ↔ (k, x) ∈ t.rows := by
  constructor
  · intro h
    obtain ⟨r, hr, h⟩ := List.exists_of_findSome?_eq_some h
    split at h
    · next hk => cases h; cases hk; exact hr
    · cases h
  · intro h
    obtain ⟨y, hy⟩ : ∃ y, t.get? k = some y := by
      refine Option.isSome_iff_exists.mp (List.findSome?_isSome_iff.mpr ⟨_, h, ?_⟩)
      simp
    obtain ⟨r, hr, h'⟩ := List.exists_of_findSome?_eq_some hy
    split at h'
    · next hk => cases h'; cases hk; rw [hy, mem_rows_unique h hr]
    · cases h'

theorem get?_eq_none {t : Table κ α} {k : κ} : t.get? k = none ↔ k ∉ t.keys := by
  rw [Option.eq_none_iff_forall_ne_some]
  simp [keys, get?_eq_some]

theorem mem_keys {t : Table κ α} {k : κ} : k ∈ t.keys ↔ ∃ x, t.get? k = some x := by
  simp [keys, get?_eq_some]

theorem keys_sorted (t : Table κ α) : t.keys.Pairwise (· < ·) :=
  List.pairwise_map.mpr t.sorted

theorem rows_nodup (t : Table κ α) : t.rows.Nodup :=
  t.sorted.imp fun h e => absurd (e ▸ h) (lt_irrefl _)

/-- Tables are extensional: the lookups determine the rows. -/
theorem ext_get? {t u : Table κ α} (h : ∀ k, t.get? k = u.get? k) : t = u := by
  have hmem (r : κ × α) : r ∈ t.rows ↔ r ∈ u.rows := by
    rw [← get?_eq_some (k := r.1), ← get?_eq_some (k := r.1), h]
  have hperm : t.rows.Perm u.rows :=
    (List.perm_ext_iff_of_nodup t.rows_nodup u.rows_nodup).mpr hmem
  have hrows : t.rows = u.rows :=
    hperm.eq_of_pairwise (fun a b _ _ hab hba => absurd (hab.trans hba) (lt_irrefl _))
      t.sorted u.sorted
  exact ext_rows hrows

@[simp] theorem get?_empty (k : κ) : (∅ : Table κ α).get? k = none := rfl

/-! ## Row-wise operations -/

/-- Keep the rows on which `f` is defined, with the value `f` gives. -/
def filterMap (f : κ → α → Option β) (t : Table κ α) : Table κ β where
  rows := t.rows.filterMap fun r => (f r.1 r.2).map (r.1, ·)
  sorted := by
    refine t.sorted.filterMap _ fun r s hrs r' hr s' hs => ?_
    obtain ⟨_, _, rfl⟩ := Option.map_eq_some_iff.mp hr
    obtain ⟨_, _, rfl⟩ := Option.map_eq_some_iff.mp hs
    exact hrs

@[simp] theorem get?_filterMap (f : κ → α → Option β) (t : Table κ α) (k : κ) :
    (t.filterMap f).get? k = (t.get? k).bind (f k) := by
  refine Option.ext fun y => ?_
  rw [get?_eq_some, Option.bind_eq_some_iff]
  simp only [filterMap, List.mem_filterMap, Option.map_eq_some_iff]
  constructor
  · rintro ⟨⟨k', x⟩, hr, y', hy, h⟩
    obtain ⟨rfl, rfl⟩ := Prod.mk.inj h
    exact ⟨x, get?_eq_some.mpr hr, hy⟩
  · rintro ⟨x, hx, hy⟩
    exact ⟨(k, x), get?_eq_some.mp hx, y, hy, rfl⟩

/-- Change the value of every row. -/
def mapRows (f : κ → α → β) (t : Table κ α) : Table κ β := t.filterMap fun k x => some (f k x)

@[simp] theorem get?_mapRows (f : κ → α → β) (t : Table κ α) (k : κ) :
    (t.mapRows f).get? k = (t.get? k).map (f k) := by
  rw [mapRows, get?_filterMap]
  cases t.get? k <;> rfl

/-- Replace the row with key `k` by what `f` gives for it, if anything. -/
def update (k : κ) (f : α → Option α) (t : Table κ α) : Table κ α :=
  t.mapRows fun k' x => if k' = k then (f x).getD x else x

theorem get?_update (k : κ) (f : α → Option α) (t : Table κ α) (k' : κ) :
    (t.update k f).get? k' = (t.get? k').map fun x => if k' = k then (f x).getD x else x :=
  get?_mapRows ..

/-- A row after an update: one that is unchanged, or the one that `f` gives. -/
theorem of_get?_update {k k' : κ} {f : α → Option α} {t : Table κ α} {x : α}
    (h : (t.update k f).get? k' = some x) :
    ∃ y, t.get? k' = some y ∧ (x = y ∨ k' = k ∧ f y = some x) := by
  rw [get?_update, Option.map_eq_some_iff] at h
  obtain ⟨y, hy, rfl⟩ := h
  refine ⟨y, hy, ?_⟩
  split
  · next heq =>
    cases hf : f y with
    | none => exact .inl rfl
    | some z => exact .inr ⟨heq, rfl⟩
  · exact .inl rfl

/-- Keep the rows whose key satisfies `p`. -/
def filter (p : κ → Bool) (t : Table κ α) : Table κ α where
  rows := t.rows.filter fun r => p r.1
  sorted := t.sorted.filter _

@[simp] theorem get?_filter (p : κ → Bool) (t : Table κ α) (k : κ) :
    (t.filter p).get? k = if p k then t.get? k else none := by
  refine Option.ext fun x => ?_
  split <;> simp [get?_eq_some, filter, *]

theorem mem_keys_filter {p : κ → Bool} {t : Table κ α} {k : κ} :
    k ∈ (t.filter p).keys ↔ k ∈ t.keys ∧ p k := by
  simp only [mem_keys, get?_filter]
  constructor
  · rintro ⟨x, hx⟩
    split at hx
    · next h => exact ⟨⟨x, hx⟩, h⟩
    · cases hx
  · rintro ⟨⟨x, hx⟩, h⟩
    exact ⟨x, by rw [if_pos h, hx]⟩

/-- Insert a row, replacing the row with the same key. -/
def insert (t : Table κ α) (k : κ) (x : α) : Table κ α where
  rows := t.rows.filter (·.1 < k) ++ (k, x) :: t.rows.filter (k < ·.1)
  sorted := by
    refine List.pairwise_append.mpr ⟨t.sorted.filter _, ?_, ?_⟩
    · refine List.pairwise_cons.mpr ⟨fun r hr => ?_, t.sorted.filter _⟩
      simpa using (List.mem_filter.mp hr).2
    · intro r hr s hs
      have hrk : r.1 < k := by simpa using (List.mem_filter.mp hr).2
      rcases List.mem_cons.mp hs with rfl | hs
      · exact hrk
      · exact hrk.trans (by simpa using (List.mem_filter.mp hs).2)

theorem get?_insert (t : Table κ α) (k k' : κ) (x : α) :
    (t.insert k x).get? k' = if k' = k then some x else t.get? k' := by
  refine Option.ext fun y => ?_
  rw [get?_eq_some]
  simp only [insert, List.mem_append, List.mem_cons, List.mem_filter, decide_eq_true_eq,
    Prod.mk.injEq]
  split
  · next h => simp [h, eq_comm]
  · next h => rw [get?_eq_some]; have := lt_or_gt_of_ne h; tauto

@[simp] theorem get?_insert_self (t : Table κ α) (k : κ) (x : α) :
    (t.insert k x).get? k = some x := by
  simp [get?_insert]

theorem get?_insert_of_ne {t : Table κ α} {k k' : κ} {x : α} (h : k' ≠ k) :
    (t.insert k x).get? k' = t.get? k' := by
  simp [get?_insert, h]

/-- Remove the row with key `k`. -/
def erase (t : Table κ α) (k : κ) : Table κ α := t.filter (· ≠ k)

@[simp] theorem get?_erase (t : Table κ α) (k k' : κ) :
    (t.erase k).get? k' = if k' = k then none else t.get? k' := by
  by_cases h : k' = k <;> simp [erase, h]

theorem pairwise_zip {keys : List κ} (h : keys.Pairwise (· < ·)) (values : List β) :
    (keys.zip values).Pairwise fun r s => r.1 < s.1 := by
  induction keys generalizing values with
  | nil => simp
  | cons k keys ih =>
    obtain ⟨hk, h⟩ := List.pairwise_cons.mp h
    cases values with
    | nil => simp
    | cons x values =>
      exact List.pairwise_cons.mpr ⟨fun r hr => hk _ (List.of_mem_zip hr).1, ih h values⟩

/-- Give the rows the values of a list, in key order. -/
def zipKeys (t : Table κ α) (values : List β) : Table κ β where
  rows := t.keys.zip values
  sorted := pairwise_zip t.keys_sorted values

theorem mem_keys_of_zipKeys {t : Table κ α} {values : List β} {k : κ} {x : β}
    (h : (t.zipKeys values).get? k = some x) : k ∈ t.keys :=
  (List.of_mem_zip (get?_eq_some.mp h)).1

/-! ## Bulk upsert -/

/-- Insert rows one after the other: the last row of a key wins. -/
def insertMany (t : Table κ α) (rows : List (κ × α)) : Table κ α :=
  rows.foldl (fun t r => t.insert r.1 r.2) t

@[simp] theorem insertMany_nil (t : Table κ α) : t.insertMany [] = t := rfl

@[simp] theorem insertMany_cons (t : Table κ α) (r : κ × α) (rows : List (κ × α)) :
    t.insertMany (r :: rows) = (t.insert r.1 r.2).insertMany rows := rfl

/-- A lookup after a bulk upsert of rows with distinct keys. -/
theorem get?_insertMany {t : Table κ α} {rows : List (κ × α)}
    (hrows : rows.Pairwise fun r s => r.1 ≠ s.1) (k : κ) (x : α) :
    (t.insertMany rows).get? k = some x ↔
      (k, x) ∈ rows ∨ (∀ y, (k, y) ∉ rows) ∧ t.get? k = some x := by
  induction rows generalizing t with
  | nil => simp
  | cons r rows ih =>
    obtain ⟨hr, hrows⟩ := List.pairwise_cons.mp hrows
    rw [insertMany_cons, ih hrows, get?_insert]
    by_cases hk : k = r.1
    · have hnot (y : α) : (k, y) ∉ rows := fun hy => hr _ hy hk.symm
      simp only [hnot, not_false_eq_true, implies_true, true_and, false_or, if_pos hk,
        List.mem_cons, or_false]
      constructor
      · intro h; cases h; exact .inl (by simp [hk])
      · rintro (h | ⟨h, -⟩)
        · simp [← h]
        · exact absurd (h r.2) (by simp [hk])
    · have hne (y : α) : (k, y) ≠ r := fun e => hk (congrArg Prod.fst e)
      simp [hk, hne]

/-- A lookup after a bulk upsert: the last of the rows with the key. -/
theorem get?_insertMany_getLast? (t : Table κ α) (rows : List (κ × α)) (k : κ) :
    (t.insertMany rows).get? k =
      ((rows.filter fun r => r.1 = k).getLast?.map (·.2)).or (t.get? k) := by
  induction rows generalizing t with
  | nil => rfl
  | cons r rows ih =>
    rw [insertMany_cons, ih, get?_insert, List.filter_cons]
    by_cases hk : r.1 = k
    · rw [if_pos hk.symm, if_pos (decide_eq_true hk), List.getLast?_cons]
      cases (rows.filter fun r => r.1 = k).getLast? <;> rfl
    · rw [if_neg (Ne.symm hk), if_neg (by simpa using hk)]

/-- A row after a bulk upsert is one of the upserted rows or an old one. -/
theorem of_get?_insertMany {t : Table κ α} {rows : List (κ × α)} {k : κ} {x : α}
    (h : (t.insertMany rows).get? k = some x) : (k, x) ∈ rows ∨ t.get? k = some x := by
  rw [get?_insertMany_getLast?, Option.or_eq_some_iff] at h
  rcases h with hlast | ⟨-, hold⟩
  · obtain ⟨r, hr, rfl⟩ := Option.map_eq_some_iff.mp hlast
    obtain ⟨hmem, hkey⟩ := List.mem_filter.mp (List.mem_of_getLast? hr)
    rw [← of_decide_eq_true hkey]
    exact .inl hmem
  · exact .inr hold

/-- A lookup after a bulk upsert of the rows of a table. -/
theorem get?_insertMany_rows (t : Table κ α) (u : Table κ β) (f : β → α) (k : κ) :
    (t.insertMany (u.rows.map fun r => (r.1, f r.2))).get? k =
      ((u.get? k).map f).or (t.get? k) := by
  have hrows : (u.rows.map fun r => (r.1, f r.2)).Pairwise fun r s => r.1 ≠ s.1 :=
    List.pairwise_map.mpr (u.sorted.imp fun h => h.ne)
  refine Option.ext fun x => ?_
  rw [get?_insertMany hrows, Option.or_eq_some_iff]
  have hmem (y : α) : (k, y) ∈ u.rows.map (fun r => (r.1, f r.2)) ↔ (u.get? k).map f = some y := by
    simp only [List.mem_map, Prod.mk.injEq, Prod.exists, Option.map_eq_some_iff, get?_eq_some]
    exact ⟨fun ⟨_, v, hr, e, hv⟩ => ⟨v, e ▸ hr, hv⟩, fun ⟨v, hr, hv⟩ => ⟨k, v, hr, rfl, hv⟩⟩
  simp only [hmem, Option.eq_none_iff_forall_ne_some, ne_eq]

/-- A lookup after one table is written over another. -/
theorem get?_insertMany_table (t u : Table κ α) (k : κ) :
    (t.insertMany u.rows).get? k = (u.get? k).or (t.get? k) := by
  have hrows := t.get?_insertMany_rows u id k
  rwa [Option.map_id, id, show (fun r : κ × α => (r.1, id r.2)) = id from rfl, List.map_id] at hrows

def ofList (rows : List (κ × α)) : Table κ α := (∅ : Table κ α).insertMany rows

theorem mem_keys_ofList {rows : List (κ × α)} {k : κ} :
    k ∈ (ofList rows).keys ↔ k ∈ rows.map (·.1) := by
  rw [mem_keys, ofList]
  simp only [get?_insertMany_getLast?, get?_empty, Option.or_none, Option.map_eq_some_iff]
  constructor
  · rintro ⟨_, r, hr, rfl⟩
    obtain ⟨hmem, hkey⟩ := List.mem_filter.mp (List.mem_of_getLast? hr)
    exact List.mem_map.mpr ⟨r, hmem, of_decide_eq_true hkey⟩
  · intro h
    obtain ⟨r, hr, hkey⟩ := List.mem_map.mp h
    have hmem : r ∈ rows.filter fun r => r.1 = k := List.mem_filter.mpr ⟨hr, by simpa using hkey⟩
    cases hlast : (rows.filter fun r => r.1 = k).getLast? with
    | none => exact absurd (List.getLast?_eq_none_iff.mp hlast) (List.ne_nil_of_mem hmem)
    | some r' => exact ⟨r'.2, r', rfl, rfl⟩

/-- A table of a list whose keys tell its elements apart. -/
theorem get?_ofList_map {key : α → κ} {l : List α}
    (hkey : ∀ a ∈ l, ∀ b ∈ l, key a = key b → a = b) (k : κ) (a : α) :
    (ofList (l.map fun a => (key a, a))).get? k = some a ↔ a ∈ l ∧ key a = k := by
  rw [ofList, get?_insertMany_getLast?, get?_empty, Option.or_none, Option.map_eq_some_iff]
  have hmem {r : κ × α} (hr : r ∈ (l.map fun a => (key a, a)).filter fun r => r.1 = k) :
      r.2 ∈ l ∧ key r.2 = k := by
    obtain ⟨hr, hk⟩ := List.mem_filter.mp hr
    obtain ⟨b, hb, rfl⟩ := List.mem_map.mp hr
    exact ⟨hb, of_decide_eq_true hk⟩
  constructor
  · rintro ⟨r, hlast, rfl⟩
    exact hmem (List.mem_of_getLast? hlast)
  · rintro ⟨ha, rfl⟩
    have hne : (key a, a) ∈ (l.map fun a => (key a, a)).filter fun r => r.1 = key a :=
      List.mem_filter.mpr ⟨List.mem_map_of_mem ha, decide_eq_true rfl⟩
    obtain ⟨r, hlast⟩ := Option.isSome_iff_exists.mp
      (List.getLast?_isSome.mpr (List.ne_nil_of_mem hne))
    obtain ⟨hr, hk⟩ := hmem (List.mem_of_getLast? hlast)
    exact ⟨r, hlast, hkey r.2 hr a ha hk⟩

theorem mem_ofList_map {key : α → κ} {l : List α}
    (hkey : ∀ a ∈ l, ∀ b ∈ l, key a = key b → a = b) {a : α} :
    a ∈ (ofList (l.map fun a => (key a, a))).rows.map (·.2) ↔ a ∈ l := by
  simp only [List.mem_map, Prod.exists, ← get?_eq_some, get?_ofList_map hkey]
  simp

theorem map_key_ofList_map {key : α → κ} {l : List α}
    (hkey : ∀ a ∈ l, ∀ b ∈ l, key a = key b → a = b) :
    ((ofList (l.map fun a => (key a, a))).rows.map (·.2)).map key =
      (ofList (l.map fun a => (key a, a))).keys := by
  rw [List.map_map, keys]
  refine List.map_congr_left fun r hr => ?_
  have hget : (ofList (l.map fun a => (key a, a))).get? r.1 = some r.2 := get?_eq_some.mpr hr
  rw [get?_ofList_map hkey] at hget
  exact hget.2

/-- The elements in the order of their keys. -/
theorem sorted_ofList_map {key : α → κ} {l : List α}
    (hkey : ∀ a ∈ l, ∀ b ∈ l, key a = key b → a = b) :
    ((ofList (l.map fun a => (key a, a))).rows.map (·.2)).Pairwise fun a b => key a < key b := by
  refine List.pairwise_map.mp ?_
  rw [map_key_ofList_map hkey]
  exact keys_sorted _

theorem nodup_ofList_map {key : α → κ} {l : List α}
    (hkey : ∀ a ∈ l, ∀ b ∈ l, key a = key b → a = b) :
    ((ofList (l.map fun a => (key a, a))).rows.map (·.2)).Nodup :=
  (sorted_ofList_map hkey).imp fun h heq => (congrArg key heq).not_lt h

theorem ofList_map_congr {key : α → κ} {l l' : List α}
    (hkey : ∀ a ∈ l, ∀ b ∈ l, key a = key b → a = b) (hmem : ∀ a, a ∈ l ↔ a ∈ l') :
    ofList (l.map fun a => (key a, a)) = ofList (l'.map fun a => (key a, a)) := by
  have hkey' : ∀ a ∈ l', ∀ b ∈ l', key a = key b → a = b := fun a ha b hb =>
    hkey a ((hmem a).mpr ha) b ((hmem b).mpr hb)
  refine ext_get? fun k => Option.ext fun a => ?_
  rw [get?_ofList_map hkey, get?_ofList_map hkey', hmem]

/-- A list already in key order is the rows of its table. -/
theorem ofList_rows {rows : List (κ × α)} (h : rows.Pairwise fun r s => r.1 < s.1) :
    (ofList rows).rows = rows := by
  have heq : ofList rows = ⟨rows, h⟩ := by
    refine ext_get? fun k => Option.ext fun x => ?_
    rw [ofList, get?_insertMany (h.imp fun h => h.ne), get?_eq_some (t := ⟨rows, h⟩)]
    simp
  rw [heq]

@[simp] theorem filter_filterMap (p : κ → Bool) (f : κ → α → Option β) (t : Table κ α) :
    (t.filterMap f).filter p = (t.filter p).filterMap f :=
  ext_get? fun k => by by_cases h : p k = true <;> simp [h]

/-- A filter by a downward closed predicate on the keys keeps an initial part of the rows. -/
theorem rows_eq_filter_append {p : κ → Bool} (hp : ∀ k k', k < k' → p k' → p k) (t : Table κ α) :
    t.rows = (t.filter p).rows ++ t.rows.filter fun r => !p r.1 := by
  have hsorted : ((t.filter p).rows ++ t.rows.filter fun r => !p r.1).Pairwise
      fun r s => r.1 < s.1 := by
    refine List.pairwise_append.mpr ⟨(t.filter p).sorted, t.sorted.filter _, ?_⟩
    intro r hr s hs
    have hpr : p r.1 := (List.mem_filter.mp hr).2
    have hps : ¬ p s.1 := by simpa using (List.mem_filter.mp hs).2
    rcases lt_trichotomy r.1 s.1 with hlt | heq | hgt
    · exact hlt
    · exact absurd (heq ▸ hpr) hps
    · exact absurd (hp _ _ hgt hpr) hps
  have heq : t = ⟨_, hsorted⟩ := by
    refine ext_get? fun k => Option.ext fun x => ?_
    rw [get?_eq_some, get?_eq_some]
    change _ ↔ (k, x) ∈ t.rows.filter _ ++ t.rows.filter _
    rw [List.mem_append, List.mem_filter, List.mem_filter]
    cases p k <;> simp
  exact congrArg rows heq

theorem zip_filter {p : κ → Bool} (hp : ∀ k k', k < k' → p k' → p k) {keys : List κ}
    (h : keys.Pairwise (· < ·)) (values : List β) :
    ((keys.zip values).filter fun r => p r.1) =
      (keys.filter p).zip (values.take (keys.filter p).length) := by
  induction keys generalizing values with
  | nil => rfl
  | cons k keys ih =>
    obtain ⟨hk, h⟩ := List.pairwise_cons.mp h
    cases values with
    | nil => simp
    | cons x values =>
      by_cases hpk : p k = true
      · simp [hpk, ih h]
      · have hnil : keys.filter p = [] :=
          List.filter_eq_nil_iff.mpr fun k' hk' h' => hpk (hp _ _ (hk k' hk') h')
        simp [hpk, ih h, hnil]

/-- Values given in key order restrict with the table to a downward closed set of keys. -/
theorem filter_zipKeys {p : κ → Bool} (hp : ∀ k k', k < k' → p k' → p k) (t : Table κ α)
    (values : List β) :
    (t.zipKeys values).filter p = (t.filter p).zipKeys (values.take (t.filter p).rows.length) := by
  have hkeys : (t.filter p).keys = t.keys.filter p := by
    simp [keys, filter, List.filter_map, Function.comp_def]
  have hlen : (t.filter p).rows.length = (t.keys.filter p).length := by
    rw [← hkeys, keys, List.length_map]
  refine ext_rows ?_
  change (t.keys.zip values).filter (fun r => p r.1) = (t.filter p).keys.zip _
  rw [zip_filter hp t.keys_sorted, hkeys, hlen]

/-! ## Extreme keys -/

def minKey? (t : Table κ α) : Option κ := t.keys.head?

def maxKey? (t : Table κ α) : Option κ := t.keys.getLast?

theorem minKey?_eq_none {t : Table κ α} : t.minKey? = none ↔ t.rows = [] := by
  simp [minKey?, keys]

theorem maxKey?_eq_none {t : Table κ α} : t.maxKey? = none ↔ t.rows = [] := by
  simp [maxKey?, keys]

theorem exists_minKey? {t : Table κ α} {k : κ} (h : k ∈ t.keys) : ∃ k', t.minKey? = some k' := by
  cases hm : t.minKey? with
  | none => simp [keys, minKey?_eq_none.mp hm] at h
  | some k' => exact ⟨k', rfl⟩

theorem exists_maxKey? {t : Table κ α} {k : κ} (h : k ∈ t.keys) : ∃ k', t.maxKey? = some k' := by
  cases hm : t.maxKey? with
  | none => simp [keys, maxKey?_eq_none.mp hm] at h
  | some k' => exact ⟨k', rfl⟩

theorem mem_keys_of_minKey? {t : Table κ α} {k : κ} (h : t.minKey? = some k) : k ∈ t.keys :=
  List.mem_of_head? h

theorem mem_keys_of_maxKey? {t : Table κ α} {k : κ} (h : t.maxKey? = some k) : k ∈ t.keys :=
  List.mem_of_getLast? h

theorem minKey?_le {t : Table κ α} {k k' : κ} (h : t.minKey? = some k) (hk : k' ∈ t.keys) :
    k ≤ k' := by
  have hs := t.keys_sorted
  obtain ⟨l, hl⟩ := List.head?_eq_some_iff.mp h
  rw [hl] at hs hk
  rcases List.mem_cons.mp hk with rfl | hk
  · exact le_rfl
  · exact ((List.pairwise_cons.mp hs).1 _ hk).le

theorem le_maxKey? {t : Table κ α} {k k' : κ} (h : t.maxKey? = some k) (hk : k' ∈ t.keys) :
    k' ≤ k := by
  have hs := t.keys_sorted
  obtain ⟨l, hl⟩ := List.getLast?_eq_some_iff.mp h
  rw [hl] at hs hk
  rcases List.mem_append.mp hk with hk | hk
  · exact ((List.pairwise_append.mp hs).2.2 _ hk _ (by simp)).le
  · exact (List.mem_singleton.mp hk).le

end Table

end Apanel
