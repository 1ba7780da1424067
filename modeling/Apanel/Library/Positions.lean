import Apanel.Library.Keyset
import Apanel.Library.Table
import Mathlib.Data.Prod.Lex
import Mathlib.Data.List.InsertIdx

/-!
# Ordered groups of rows

The rows of a table fall into groups, and each row has a position in its group. `order` is the list
of the keys of a group by position, with the key as tie-break. `Arranges` says that the group holds
the keys of a list, at increasing positions: the list is then the order, and a loop that writes
positions is judged by the list it arranges.
-/

namespace Apanel

universe u v w

/-- Rows with a group and a position; the position may be written. -/
structure Placement (α : Type u) (γ : Type w) where
  group : α → γ
  position : α → ℕ
  move : α → ℕ → α
  group_move : ∀ x n, group (move x n) = group x
  position_move : ∀ x n, position (move x n) = n

namespace Placement

variable {κ : Type v} {α : Type u} {γ : Type w} [LinearOrder κ] [DecidableEq γ]
variable (place : Placement α γ)

attribute [simp] group_move position_move

/-- The rows of a group, by position. -/
def arranged (t : Table κ α) (g : γ) : List (κ × α) :=
  Keyset.after (fun row => toLex (place.position row.2, row.1))
    (t.rows.filter fun row => place.group row.2 = g) none

def order (t : Table κ α) (g : γ) : List κ := (place.arranged t g).map (·.1)

/-- The position of a row, by its key. -/
def at? (t : Table κ α) (k : κ) : ℕ := ((t.get? k).map place.position).getD 0

/-- Rows of one group have different positions. -/
def Distinct (t : Table κ α) : Prop :=
  ∀ k k' x x', t.get? k = some x → t.get? k' = some x' → place.group x = place.group x' →
    place.position x = place.position x' → k = k'

/-- The group holds the keys of the list, at increasing positions. -/
structure Arranges (t : Table κ α) (g : γ) (l : List κ) : Prop where
  increasing : l.Pairwise (place.at? t · < place.at? t ·)
  mem_iff : ∀ k, k ∈ l ↔ ∃ x, t.get? k = some x ∧ place.group x = g

/-- Write the positions of some rows, one after the other. -/
def assign (t : Table κ α) (positions : List (κ × ℕ)) : Table κ α :=
  positions.foldl (fun t p => t.update p.1 fun x => some (place.move x p.2)) t

variable {place} {t t' : Table κ α} {g : γ} {l : List κ} {k : κ} {x : α}

omit [DecidableEq γ] in
theorem at?_of_get? (h : t.get? k = some x) : place.at? t k = place.position x := by
  simp [at?, h]

theorem mem_arranged {row : κ × α} :
    row ∈ place.arranged t g ↔ t.get? row.1 = some row.2 ∧ place.group row.2 = g := by
  rw [arranged, Keyset.mem_after, List.mem_filter, Table.get?_eq_some]
  simp

theorem mem_order : k ∈ place.order t g ↔ ∃ x, t.get? k = some x ∧ place.group x = g := by
  rw [order, List.mem_map]
  constructor
  · rintro ⟨row, hrow, rfl⟩
    exact ⟨row.2, mem_arranged.mp hrow⟩
  · rintro ⟨x, hx, hg⟩
    exact ⟨(k, x), mem_arranged.mpr ⟨hx, hg⟩, rfl⟩

theorem nodup_keys_arranged :
    ((t.rows.filter fun row => place.group row.2 = g).map
      fun row => toLex (place.position row.2, row.1)).Nodup := by
  have hkeys : t.rows.Pairwise fun r s => toLex (place.position r.2, r.1) ≠
      toLex (place.position s.2, s.1) :=
    t.sorted.imp fun h heq => h.ne (Prod.mk.inj (toLex.injective heq)).2
  exact List.pairwise_map.mpr (hkeys.filter _)

variable (place t g) in
theorem arranged_strict : (place.arranged t g).Pairwise fun r s =>
    toLex (place.position r.2, r.1) < toLex (place.position s.2, s.1) :=
  Keyset.after_strict nodup_keys_arranged none

variable (place t g) in
theorem order_nodup : (place.order t g).Nodup := by
  refine List.pairwise_map.mpr ((arranged_strict place t g).imp_of_mem ?_)
  intro r s hr hs hlt heq
  have hr' := (mem_arranged.mp hr).1
  rw [heq, (mem_arranged.mp hs).1] at hr'
  rw [Option.some.inj hr', heq] at hlt
  exact lt_irrefl _ hlt

omit [DecidableEq γ] in
theorem Arranges.nodup (h : place.Arranges t g l) : l.Nodup :=
  h.increasing.imp fun hlt heq => by simp [heq] at hlt

/-- A list the group arranges is its order. -/
theorem Arranges.order_eq (h : place.Arranges t g l) : place.order t g = l := by
  have hsorted : (place.order t g).Pairwise (place.at? t · ≤ place.at? t ·) := by
    refine List.pairwise_map.mpr ((arranged_strict place t g).imp_of_mem ?_)
    intro r s hr hs hlt
    rw [at?_of_get? (mem_arranged.mp hr).1, at?_of_get? (mem_arranged.mp hs).1]
    exact (Prod.Lex.toLex_lt_toLex.mp hlt).elim le_of_lt fun heq => heq.1.le
  have hperm : (place.order t g).Perm l := by
    refine (List.perm_ext_iff_of_nodup (order_nodup place t g) h.nodup).mpr fun k => ?_
    rw [mem_order, h.mem_iff]
  have hne : (place.order t g).Pairwise (place.at? t · ≠ place.at? t ·) :=
    hperm.symm.pairwise (h.increasing.imp fun hlt => hlt.ne) fun hne => hne.symm
  exact Keyset.eq_of_perm_of_strict hperm ((hsorted.and hne).imp fun h => lt_of_le_of_ne h.1 h.2)
    h.increasing

/-- The positions are different when each group arranges some list. -/
theorem distinct_iff : place.Distinct t ↔ ∀ g, place.Arranges t g (place.order t g) := by
  constructor
  · intro h g
    refine ⟨List.pairwise_map.mpr ((arranged_strict place t g).imp_of_mem ?_),
      fun k => mem_order⟩
    intro r s hr hs hlt
    obtain ⟨hr, hgr⟩ := mem_arranged.mp hr
    obtain ⟨hs, hgs⟩ := mem_arranged.mp hs
    rw [at?_of_get? hr, at?_of_get? hs]
    obtain hlt | ⟨heq, hkey⟩ := Prod.Lex.toLex_lt_toLex.mp hlt
    · exact hlt
    · exact absurd (h _ _ _ _ hr hs (hgr.trans hgs.symm) heq) hkey.ne
  · intro h k k' x x' hx hx' hg heq
    have hnodup : ((place.order t (place.group x)).map (place.at? t)).Nodup :=
      List.pairwise_map.mpr ((h (place.group x)).increasing.imp fun hlt => hlt.ne)
    refine List.inj_on_of_nodup_map hnodup (mem_order.mpr ⟨x, hx, rfl⟩)
      (mem_order.mpr ⟨x', hx', hg.symm⟩) ?_
    rw [at?_of_get? hx, at?_of_get? hx', heq]

theorem Distinct.arranges (h : place.Distinct t) (g : γ) : place.Arranges t g (place.order t g) :=
  distinct_iff.mp h g

theorem distinct_of_arranges (h : ∀ g, ∃ l, place.Arranges t g l) : place.Distinct t :=
  distinct_iff.mpr fun g => by
    obtain ⟨l, hl⟩ := h g
    rwa [hl.order_eq]

omit [DecidableEq γ] in
/-- A group whose rows are unchanged is arranged as before. -/
theorem Arranges.congr (h : place.Arranges t g l)
    (hget : ∀ k x, place.group x = g → (t'.get? k = some x ↔ t.get? k = some x)) :
    place.Arranges t' g l := by
  have hmem (k : κ) : k ∈ l ↔ ∃ x, t'.get? k = some x ∧ place.group x = g := by
    rw [h.mem_iff]
    exact exists_congr fun x => and_congr_left fun hg => (hget k x hg).symm
  refine ⟨h.increasing.imp_of_mem ?_, hmem⟩
  intro a b ha hb hlt
  obtain ⟨x, hx, hgx⟩ := (h.mem_iff a).mp ha
  obtain ⟨y, hy, hgy⟩ := (h.mem_iff b).mp hb
  rw [at?_of_get? hx, at?_of_get? hy] at hlt
  rwa [at?_of_get? ((hget a x hgx).mpr hx), at?_of_get? ((hget b y hgy).mpr hy)]

omit [DecidableEq γ] in
/-- A list at whose indices the positions stand is arranged. -/
theorem arranges_of_index (hmem : ∀ k, k ∈ l ↔ ∃ x, t.get? k = some x ∧ place.group x = g)
    (hindex : ∀ i (h : i < l.length), place.at? t l[i] = i) : place.Arranges t g l := by
  refine ⟨List.pairwise_iff_getElem.mpr fun i j hi hj hij => ?_, hmem⟩
  rw [hindex i hi, hindex j hj]
  exact hij

/-! ## Loops that write positions -/

theorem lookup_of_mem {positions : List (κ × ℕ)} (hkeys : (positions.map (·.1)).Nodup) {n : ℕ}
    (h : (k, n) ∈ positions) : positions.lookup k = some n := by
  induction positions with
  | nil => cases h
  | cons p positions ih =>
    obtain ⟨key, m⟩ := p
    obtain ⟨hp, hkeys⟩ := List.nodup_cons.mp hkeys
    rcases List.mem_cons.mp h with heq | h
    · cases heq
      simp
    · have hne : (k == key) = false :=
        beq_eq_false_iff_ne.mpr fun heq => hp (List.mem_map.mpr ⟨(k, n), h, heq⟩)
      simp [List.lookup_cons, hne, ih hkeys h]

theorem lookup_of_notMem {positions : List (κ × ℕ)} (h : k ∉ positions.map (·.1)) :
    positions.lookup k = none := by
  rw [List.lookup_eq_none_iff]
  intro p hp
  rw [bne_iff_ne]
  exact fun heq => h (List.mem_map.mpr ⟨p, hp, heq.symm⟩)

omit [DecidableEq γ] in
theorem get?_assign (positions : List (κ × ℕ)) (hkeys : (positions.map (·.1)).Nodup) (k : κ) :
    (place.assign t positions).get? k =
      (t.get? k).map fun x => ((positions.lookup k).map (place.move x)).getD x := by
  induction positions generalizing t with
  | nil => simp [assign]
  | cons p positions ih =>
    obtain ⟨key, n⟩ := p
    obtain ⟨hp, hkeys⟩ := List.nodup_cons.mp hkeys
    rw [assign, List.foldl_cons, ← assign, ih hkeys, Table.get?_update]
    cases t.get? k with
    | none => rfl
    | some x =>
      by_cases hk : k = key
      · subst hk
        simp [lookup_of_notMem hp]
      · have hne : (k == key) = false := beq_eq_false_iff_ne.mpr hk
        simp [List.lookup_cons, hk, hne]

omit [DecidableEq γ] in
/-- What an assignment leaves alone, and what it moves. -/
theorem at?_assign (positions : List (κ × ℕ)) (hkeys : (positions.map (·.1)).Nodup)
    (hk : t.get? k = some x) :
    place.at? (place.assign t positions) k = (positions.lookup k).getD (place.at? t k) := by
  rw [at?, get?_assign positions hkeys, hk, at?_of_get? hk]
  cases positions.lookup k <;> simp

omit [DecidableEq γ] in
theorem mem_assign_iff (positions : List (κ × ℕ)) (hkeys : (positions.map (·.1)).Nodup) (k : κ)
    (g : γ) :
    (∃ x, (place.assign t positions).get? k = some x ∧ place.group x = g) ↔
      ∃ x, t.get? k = some x ∧ place.group x = g := by
  rw [get?_assign positions hkeys]
  cases t.get? k with
  | none => simp
  | some x => cases positions.lookup k <;> simp

omit [DecidableEq γ] in
/-- Writing the index of each key of a list arranges it. -/
theorem arranges_assign {positions : List (κ × ℕ)} (hkeys : (positions.map (·.1)).Nodup)
    (hmem : ∀ k, k ∈ l ↔ ∃ x, t.get? k = some x ∧ place.group x = g)
    (hindex : ∀ i (h : i < l.length), (l[i], i) ∈ positions) :
    place.Arranges (place.assign t positions) g l := by
  refine arranges_of_index (fun k => ?_) fun i hi => ?_
  · rw [hmem, mem_assign_iff positions hkeys]
  · obtain ⟨x, hx, -⟩ := (hmem l[i]).mp (List.getElem_mem hi)
    rw [at?_assign positions hkeys hx, lookup_of_mem hkeys (hindex i hi), Option.getD_some]

omit [DecidableEq γ] in
/-- A group none of whose rows is assigned is arranged as before. -/
theorem Arranges.assign_other (h : place.Arranges t g l) {positions : List (κ × ℕ)}
    (hkeys : (positions.map (·.1)).Nodup)
    (hother : ∀ p ∈ positions, ∀ x, t.get? p.1 = some x → place.group x ≠ g) :
    place.Arranges (place.assign t positions) g l := by
  refine ⟨h.increasing.imp_of_mem ?_, fun k => ?_⟩
  · have hsame {a : κ} (ha : a ∈ l) : place.at? (place.assign t positions) a = place.at? t a := by
      obtain ⟨x, hx, hg⟩ := (h.mem_iff a).mp ha
      rw [at?_assign positions hkeys hx]
      cases hlookup : positions.lookup a with
      | none => rfl
      | some n =>
        obtain ⟨l₁, l₂, rfl, -⟩ := List.lookup_eq_some_iff.mp hlookup
        exact absurd hg (hother (a, n) (by simp) x hx)
    intro a b ha hb hlt
    rwa [hsame ha, hsame hb]
  · rw [h.mem_iff, mem_assign_iff positions hkeys]

omit [DecidableEq γ] in
/-- Writing the indices of a rearrangement of the group puts it in that order. -/
theorem Arranges.assign_zipIdx (h : place.Arranges t g l) {l' : List κ} (hnodup : l'.Nodup)
    (hmem : ∀ k, k ∈ l' ↔ k ∈ l) : place.Arranges (place.assign t l'.zipIdx) g l' := by
  refine arranges_assign ?_ (fun k => (hmem k).trans (h.mem_iff k)) fun i hi => ?_
  · rwa [List.zipIdx_map_fst]
  · exact List.mk_mem_zipIdx_iff_getElem?.mpr (List.getElem?_eq_getElem hi)

/-- The positions that move one row to an index: the others keep their order around it. -/
def moves (others : List κ) (k : κ) (n : ℕ) : List (κ × ℕ) :=
  others.zipIdx.map (fun p => (p.1, if p.2 < n then p.2 else p.2 + 1)) ++ [(k, n)]

omit [LinearOrder κ] in
theorem keys_moves (others : List κ) (k : κ) (n : ℕ) :
    (moves others k n).map (·.1) = others ++ [k] := by
  have hcomp : ((·.1) ∘ fun p : κ × ℕ => (p.1, if p.2 < n then p.2 else p.2 + 1)) = Prod.fst := rfl
  simp only [moves, List.map_append, List.map_map, hcomp, List.zipIdx_map_fst, List.map_cons,
    List.map_nil]

omit [LinearOrder κ] in
theorem mem_moves {others : List κ} {n : ℕ} (hn : n ≤ others.length) (i : ℕ)
    (hi : i < (others.insertIdx n k).length) : ((others.insertIdx n k)[i], i) ∈ moves others k n := by
  rw [moves, List.mem_append, List.mem_map]
  rcases Nat.lt_trichotomy i n with hlt | rfl | hgt
  · refine .inl ⟨(others[i], i), ?_, ?_⟩
    · exact List.mk_mem_zipIdx_iff_getElem?.mpr (List.getElem?_eq_getElem (by omega))
    · rw [List.getElem_insertIdx_of_lt hlt]
      exact Prod.ext rfl (if_pos hlt)
  · rw [List.getElem_insertIdx_self]
    exact .inr (List.mem_singleton_self _)
  · rw [List.length_insertIdx_of_le_length hn] at hi
    refine .inl ⟨(others[i - 1], i - 1), ?_, ?_⟩
    · exact List.mk_mem_zipIdx_iff_getElem?.mpr (List.getElem?_eq_getElem (by omega))
    · rw [List.getElem_insertIdx_of_gt hgt]
      refine Prod.ext rfl ?_
      simp only
      rw [if_neg (by omega)]
      omega

omit [DecidableEq γ] in
theorem Arranges.assign_moves (h : place.Arranges t g l) (hk : k ∈ l) {n : ℕ}
    (hn : n ≤ (l.filter (· ≠ k)).length) :
    place.Arranges (place.assign t (moves (l.filter (· ≠ k)) k n)) g
      ((l.filter (· ≠ k)).insertIdx n k) := by
  refine arranges_assign ?_ (fun a => ?_) (mem_moves hn)
  · rw [keys_moves]
    refine List.nodup_append.mpr ⟨h.nodup.filter _, List.nodup_singleton k, fun a ha b hb heq => ?_⟩
    rw [List.mem_singleton.mp hb] at heq
    simpa [heq] using (List.mem_filter.mp ha).2
  · rw [List.mem_insertIdx hn, List.mem_filter, ← h.mem_iff]
    by_cases ha : a = k
    · simp [ha, hk]
    · simp [ha]

omit [DecidableEq γ] in
/-- A row of another group, or one that stays where it is, may be written. -/
theorem Arranges.insert_other (h : place.Arranges t g l)
    (hk : ∀ y, t.get? k = some y → place.group y ≠ g) (hx : place.group x ≠ g) :
    place.Arranges (t.insert k x) g l := by
  refine h.congr fun a y hy => ?_
  rw [Table.get?_insert]
  split
  · next heq =>
    rw [heq]
    exact ⟨fun hxy => absurd (Option.some.inj hxy ▸ hy) hx, fun hay => absurd hy (hk y hay)⟩
  · rfl

omit [DecidableEq γ] in
theorem Arranges.insert_same (h : place.Arranges t g l) {y : α} (hk : t.get? k = some y)
    (hgroup : place.group x = place.group y) (hposition : place.position x = place.position y) :
    place.Arranges (t.insert k x) g l := by
  have hsame (a : κ) : place.at? (t.insert k x) a = place.at? t a := by
    by_cases ha : a = k
    · rw [ha, at?_of_get? (Table.get?_insert_self ..), at?_of_get? hk, hposition]
    · rw [at?, Table.get?_insert_of_ne ha, ← at?]
  refine ⟨h.increasing.imp fun hlt => by rwa [hsame, hsame], fun a => ?_⟩
  rw [h.mem_iff, Table.get?_insert]
  by_cases ha : a = k
  · simp [ha, hk, hgroup]
  · rw [if_neg ha]

/-! ## Making room for a row -/

variable (place) in
/-- Move the rows of the group from a position on up by one. -/
def shift (t : Table κ α) (g : γ) (n : ℕ) : Table κ α :=
  place.assign t (((place.arranged t g).filter fun row => n ≤ place.position row.2).map
    fun row => (row.1, place.position row.2 + 1))

theorem nodup_shifted (t : Table κ α) (g : γ) (n : ℕ) :
    ((((place.arranged t g).filter fun row => n ≤ place.position row.2).map
      fun row => (row.1, place.position row.2 + 1)).map (·.1)).Nodup := by
  rw [List.map_map]
  exact (order_nodup place t g).sublist (List.filter_sublist.map _)

theorem at?_shift {n : ℕ} (hk : t.get? k = some x) (hg : place.group x = g) :
    place.at? (place.shift t g n) k =
      if n ≤ place.at? t k then place.at? t k + 1 else place.at? t k := by
  rw [shift, at?_assign _ (nodup_shifted t g n) hk, at?_of_get? hk]
  split
  · next hn =>
    rw [lookup_of_mem (nodup_shifted t g n) (n := place.position x + 1), Option.getD_some]
    refine List.mem_map.mpr ⟨(k, x), List.mem_filter.mpr ⟨mem_arranged.mpr ⟨hk, hg⟩, ?_⟩, rfl⟩
    exact decide_eq_true hn
  · next hn =>
    rw [lookup_of_notMem, Option.getD_none]
    intro hmem
    simp only [List.map_map, List.mem_map, List.mem_filter, Function.comp_apply,
      decide_eq_true_eq] at hmem
    obtain ⟨row, ⟨hrow, hle⟩, heq⟩ := hmem
    have hrow' := (mem_arranged.mp hrow).1
    rw [heq, hk] at hrow'
    cases hrow'
    exact hn hle

theorem Arranges.shift_other (h : place.Arranges t g l) {g' : γ} (hne : g' ≠ g) (n : ℕ) :
    place.Arranges (place.shift t g' n) g l := by
  refine h.assign_other (nodup_shifted t g' n) fun p hp x hx => ?_
  obtain ⟨row, hrow, rfl⟩ := List.mem_map.mp hp
  obtain ⟨hget, hgroup⟩ := mem_arranged.mp (List.mem_filter.mp hrow).1
  rw [hget] at hx
  rw [← Option.some.inj hx, hgroup]
  exact hne

/-- A row put where room was made stands between the rows before its position and the rest. -/
theorem Arranges.insert_shift (h : place.Arranges t g l) {n : ℕ} (hk : t.get? k = none)
    (hg : place.group x = g) (hn : place.position x = n) :
    place.Arranges ((place.shift t g n).insert k x) g
      (l.filter (place.at? t · < n) ++ k :: l.filter (n ≤ place.at? t ·)) := by
  have hkl : k ∉ l := fun hmem => by
    obtain ⟨y, hy, -⟩ := (h.mem_iff k).mp hmem
    rw [hk] at hy
    cases hy
  have hnew : place.at? ((place.shift t g n).insert k x) k = n := by
    rw [at?_of_get? (Table.get?_insert_self ..), hn]
  have hold {a : κ} (ha : a ∈ l) : place.at? ((place.shift t g n).insert k x) a =
      if n ≤ place.at? t a then place.at? t a + 1 else place.at? t a := by
    obtain ⟨y, hy, hgy⟩ := (h.mem_iff a).mp ha
    rw [← at?_shift hy hgy, at?, Table.get?_insert_of_ne (ne_of_mem_of_not_mem ha hkl),
      ← at?]
  constructor
  · refine List.pairwise_append.mpr ⟨?_, List.pairwise_cons.mpr ⟨?_, ?_⟩, ?_⟩
    · refine (h.increasing.filter _).imp_of_mem fun ha hb hlt => ?_
      obtain ⟨ha, hna⟩ := List.mem_filter.mp ha
      obtain ⟨hb, hnb⟩ := List.mem_filter.mp hb
      simp only [decide_eq_true_eq] at hna hnb
      rw [hold ha, hold hb, if_neg (by omega), if_neg (by omega)]
      exact hlt
    · intro b hb
      obtain ⟨hb, hnb⟩ := List.mem_filter.mp hb
      simp only [decide_eq_true_eq] at hnb
      rw [hnew, hold hb, if_pos hnb]
      omega
    · refine (h.increasing.filter _).imp_of_mem fun ha hb hlt => ?_
      obtain ⟨ha, hna⟩ := List.mem_filter.mp ha
      obtain ⟨hb, hnb⟩ := List.mem_filter.mp hb
      simp only [decide_eq_true_eq] at hna hnb
      rw [hold ha, hold hb, if_pos hna, if_pos hnb]
      omega
    · intro a ha b hb
      obtain ⟨ha, hna⟩ := List.mem_filter.mp ha
      simp only [decide_eq_true_eq] at hna
      rw [hold ha, if_neg (by omega)]
      rcases List.mem_cons.mp hb with rfl | hb
      · rw [hnew]
        exact hna
      · obtain ⟨hb, hnb⟩ := List.mem_filter.mp hb
        simp only [decide_eq_true_eq] at hnb
        rw [hold hb, if_pos hnb]
        omega
  · intro a
    rw [List.mem_append, List.mem_cons, List.mem_filter, List.mem_filter, Table.get?_insert]
    by_cases ha : a = k
    · subst ha
      simp [hg]
    · rw [if_neg ha, shift, mem_assign_iff _ (nodup_shifted t g n), ← h.mem_iff]
      have := le_or_gt n (place.at? t a)
      simp only [ha, false_or, decide_eq_true_eq]
      tauto

theorem Arranges.insert_last (h : place.Arranges t g l) {n : ℕ} (hk : t.get? k = none)
    (hg : place.group x = g) (hn : place.position x = n) (hlt : ∀ a ∈ l, place.at? t a < n) :
    place.Arranges (t.insert k x) g (l ++ [k]) := by
  have hnil : (place.arranged t g).filter (fun row => n ≤ place.position row.2) = [] := by
    refine List.filter_eq_nil_iff.mpr fun row hrow => ?_
    obtain ⟨hrow, hgroup⟩ := mem_arranged.mp hrow
    have := hlt row.1 ((h.mem_iff _).mpr ⟨row.2, hrow, hgroup⟩)
    rw [at?_of_get? hrow] at this
    simpa using this
  have hshift : place.shift t g n = t := by
    rw [shift, hnil]
    rfl
  have hinsert := h.insert_shift hk hg hn
  rw [hshift, List.filter_eq_self.mpr fun a ha => decide_eq_true (hlt a ha),
    List.filter_eq_nil_iff.mpr fun a ha => by simpa using hlt a ha] at hinsert
  exact hinsert

omit [DecidableEq γ] in
/-- The rows before a position come first. -/
theorem Arranges.split (h : place.Arranges t g l) (n : ℕ) :
    l = l.filter (place.at? t · < n) ++ l.filter (n ≤ place.at? t ·) := by
  have hincreasing := h.increasing
  clear h
  induction l with
  | nil => rfl
  | cons a l ih =>
    obtain ⟨ha, hl⟩ := List.pairwise_cons.mp hincreasing
    by_cases hn : place.at? t a < n
    · rw [List.filter_cons_of_pos (by simpa using hn), List.filter_cons_of_neg (by simpa using hn),
        List.cons_append, ← ih hl]
    · have hle : ∀ b ∈ l, n ≤ place.at? t b := fun b hb => by have := ha b hb; omega
      rw [List.filter_cons_of_neg (by simpa using hn), List.filter_cons_of_pos (by simpa using hn),
        List.filter_eq_nil_iff.mpr fun b hb => by simpa using hle b hb,
        List.filter_eq_self.mpr fun b hb => by simpa using hle b hb]
      rfl

omit [DecidableEq γ] in
/-- Removing rows keeps the others in their order. -/
theorem Arranges.filter (h : place.Arranges t g l) (p : κ → Bool) :
    place.Arranges (t.filter p) g (l.filter p) := by
  have hsame {a : κ} (ha : p a) : (t.filter p).get? a = t.get? a := by
    simp [ha]
  constructor
  · refine (h.increasing.filter _).imp_of_mem fun ha hb hlt => ?_
    rw [at?, at?, hsame (List.mem_filter.mp ha).2, hsame (List.mem_filter.mp hb).2]
    exact hlt
  · intro a
    rw [List.mem_filter, h.mem_iff]
    by_cases ha : p a <;> simp [ha]

end Placement

end Apanel
