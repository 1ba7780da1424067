import Apanel.Library.Base64
import Apanel.Library.IsoFormat
import Apanel.Library.Keyset
import Mathlib.Data.Prod.Lex
import Mathlib.Order.OrderDual

/-!
# Notification history

The alert history is read in pages, newest first. The cursor of a page is the creation time and the
id of its last row, as text. Notifications of one time are told apart by their ids, so that no page
boundary repeats or skips one (`notificationHistory_complete`).
-/

namespace Apanel.NotificationHistory

/-! ## Cursors -/

/-- `str` of an integer. -/
def str : ℤ → List Char
  | .ofNat n => Nat.toDigits 10 n
  | .negSucc n => '-' :: Nat.toDigits 10 (n + 1)

/-- The parsers of the standard library. They read more spellings than `isoformat` and `str` write;
a cursor in one of these is refused because it is not what its key is encoded as. -/
structure TextParsers where
  fromisoformat : List Char → Option DateTime
  int : List Char → Option ℤ
  fromisoformat_isoformat (t : DateTime) : fromisoformat t.isoformat = some t
  int_str (n : ℤ) : int (str n) = some n

namespace TextParsers

def readNat (text : List Char) : Option ℕ :=
  if text.all Char.isDigit ∧ text ≠ [] then some (Nat.ofDigitChars 10 text 0) else none

def readInt : List Char → Option ℤ
  | '-' :: text => (readNat text).map fun n => -(n : ℤ)
  | text => (readNat text).map fun n => (n : ℤ)

theorem isDigit_of_mem_toDigits {n : ℕ} {c : Char} (h : c ∈ Nat.toDigits 10 n) : c.isDigit :=
  Nat.isDigit_of_mem_toDigits (by decide) (by decide) h

theorem readNat_toDigits (n : ℕ) : readNat (Nat.toDigits 10 n) = some n := by
  have hall : (Nat.toDigits 10 n).all Char.isDigit :=
    List.all_eq_true.mpr fun c hc => isDigit_of_mem_toDigits hc
  rw [readNat, if_pos ⟨hall, Nat.toDigits_ne_nil⟩, Nat.ofDigitChars_ten_toDigits]

/-- The parsers of the written spellings alone. -/
def canonical : TextParsers where
  fromisoformat := IsoFormat.parse
  int := readInt
  fromisoformat_isoformat := IsoFormat.parse_isoformat
  int_str n := by
    cases n with
    | ofNat n =>
      rw [str, readInt, readNat_toDigits]
      · rfl
      · intro text htext
        have hminus : '-' ∈ Nat.toDigits 10 n := htext ▸ List.mem_cons_self
        exact absurd (isDigit_of_mem_toDigits hminus) (by decide)
    | negSucc n =>
      rw [str, readInt, readNat_toDigits]
      rfl

end TextParsers

inductive NotificationHistoryError
  | invalidNotificationCursor
  deriving DecidableEq

def utf8Encode (text : List Char) : List UInt8 := (String.ofList text).toByteArray.data.toList

def utf8Decode (bytes : List UInt8) : Option (List Char) :=
  (ByteArray.utf8Decode? ⟨bytes.toArray⟩).map Array.toList

theorem utf8Decode_utf8Encode (text : List Char) : utf8Decode (utf8Encode text) = some text := by
  have hdecode := List.utf8Decode?_utf8Encode (l := text)
  rw [utf8Decode, utf8Encode, Array.toArray_toList, String.toByteArray_ofList, hdecode]
  rfl

def encodeNotificationCursor (createdAt : DateTime) (notificationId : ℤ) : List Char :=
  Base64.encodeUnpadded (utf8Encode (createdAt.aware.isoformat ++ '|' :: str notificationId))

/-- `str.partition`: what stands before the separator, whether there is one, and what follows. -/
def partition (separator : Char) (text : List Char) : List Char × Bool × List Char :=
  (text.takeWhile (· ≠ separator), text.elem separator, (text.dropWhile (· ≠ separator)).tail)

section Codec

variable (parsers : TextParsers)

def decodeNotificationCursor (value : List Char) :
    Except NotificationHistoryError (DateTime × ℤ) :=
  let key : Option (DateTime × ℤ) := do
    let raw ← Base64.decode (Base64.pad value)
    let text ← utf8Decode raw
    let (timestamp, separator, rawId) := partition '|' text
    let createdAt ← parsers.fromisoformat timestamp
    let notificationId ← parsers.int rawId
    if !separator || notificationId ≤ 0 || createdAt.tzinfo.isNone ||
        encodeNotificationCursor createdAt notificationId ≠ value then none
    else some (createdAt, notificationId)
  match key with
  | none => .error .invalidNotificationCursor
  | some key => .ok key

/-- The columns the history is sorted by, as the database returns them. -/
structure NotificationKey where
  createdAt : DateTime
  id : ℤ
  aware : createdAt.tzinfo.isSome
  id_pos : 0 < id

def NotificationKey.encode (key : NotificationKey) : List Char :=
  encodeNotificationCursor key.createdAt key.id

theorem partition_append {separator : Char} {before after : List Char}
    (h : ∀ c ∈ before, c ≠ separator) :
    partition separator (before ++ separator :: after) = (before, true, after) := by
  have hbefore : ∀ c ∈ before, decide (c ≠ separator) = true := fun c hc => decide_eq_true (h c hc)
  have hmem : (before ++ separator :: after).elem separator := by simp
  rw [partition, List.takeWhile_append_of_pos hbefore, List.dropWhile_append_of_pos hbefore, hmem,
    List.takeWhile_cons_of_neg (by simp), List.dropWhile_cons_of_neg (by simp), List.append_nil,
    List.tail_cons]

theorem separator_not_mem_isoformat (t : DateTime) : ∀ c ∈ t.isoformat, c ≠ '|' := by
  rintro c hc rfl
  rcases IsoFormat.mem_isoformat hc with h | h <;> exact absurd h (by decide)

variable {parsers}

theorem decode_encode (key : NotificationKey) :
    decodeNotificationCursor parsers key.encode = .ok (key.createdAt, key.id) := by
  have haware : key.createdAt.aware = key.createdAt := by
    rw [DateTime.aware, if_neg]
    simpa [Option.isNone_iff_eq_none, ← Option.isSome_iff_ne_none] using key.aware
  have htz : key.createdAt.tzinfo.isNone = false := by
    simpa [Option.isSome_iff_ne_none] using key.aware
  have hencode : key.encode = Base64.encodeUnpadded
      (utf8Encode (key.createdAt.isoformat ++ '|' :: str key.id)) := by
    rw [NotificationKey.encode, encodeNotificationCursor, haware]
  have hdecode : Base64.decode (Base64.pad key.encode) =
      some (utf8Encode (key.createdAt.isoformat ++ '|' :: str key.id)) := by
    rw [hencode, Base64.decode_pad]
  rw [decodeNotificationCursor, hdecode]
  simp only [Option.bind_eq_bind, Option.bind_some, utf8Decode_utf8Encode,
    partition_append (separator_not_mem_isoformat _), parsers.fromisoformat_isoformat,
    parsers.int_str, htz]
  simp [key.id_pos.not_ge, NotificationKey.encode]

/-- Only the text of a key is accepted. -/
theorem eq_encode_of_decode {value : List Char} {createdAt : DateTime} {notificationId : ℤ}
    (h : decodeNotificationCursor parsers value = .ok (createdAt, notificationId)) :
    value = encodeNotificationCursor createdAt notificationId ∧ createdAt.tzinfo.isSome ∧
      0 < notificationId := by
  rw [decodeNotificationCursor] at h
  split at h
  · cases h
  · next key hkey =>
    cases h
    simp only [Option.bind_eq_bind, Option.bind_eq_some_iff] at hkey
    obtain ⟨raw, -, text, -, t, -, n, -, hkey⟩ := hkey
    split at hkey
    · cases hkey
    · next hvalid =>
      cases hkey
      simp only [Bool.or_eq_true, not_or, decide_eq_true_eq, not_not, not_le] at hvalid
      obtain ⟨⟨⟨-, hpos⟩, htz⟩, hvalue⟩ := hvalid
      refine ⟨hvalue.symm, ?_, hpos⟩
      simpa [Option.isSome_iff_ne_none] using htz

end Codec

/-! ## Pages -/

/-- A notification has the columns its history reads. -/
structure Notification extends NotificationKey where
  userId : ℤ

section Order

/-- The `where` clause of a cursor: rows of the same time are told apart by their ids. -/
def precedes (row : Notification) (before : DateTime × ℤ) : Bool :=
  row.createdAt.instant < before.1.instant ||
    (row.createdAt.instant = before.1.instant && row.id < before.2)

/-- `created_at` descending, then `id` descending. -/
def NewestFirst (a b : Notification) : Prop :=
  b.createdAt.instant < a.createdAt.instant ∨
    b.createdAt.instant = a.createdAt.instant ∧ b.id ≤ a.id

instance : DecidableRel NewestFirst := fun _ _ => inferInstanceAs (Decidable (_ ∨ _))

/-- `b` is older than `a`. -/
def Older (a b : Notification) : Prop :=
  b.createdAt.instant < a.createdAt.instant ∨
    b.createdAt.instant = a.createdAt.instant ∧ b.id < a.id

instance : DecidableRel Older := fun _ _ => inferInstanceAs (Decidable (_ ∨ _))

/-- The position of a key in the history. -/
def position (key : DateTime × ℤ) : ℤᵒᵈ ×ₗ ℤᵒᵈ :=
  toLex (OrderDual.toDual key.1.instant, OrderDual.toDual key.2)

def Notification.position (row : Notification) : ℤᵒᵈ ×ₗ ℤᵒᵈ :=
  NotificationHistory.position (row.createdAt, row.id)

theorem newestFirst_iff {a b : Notification} : NewestFirst a b ↔ a.position ≤ b.position := by
  rw [Notification.position, Notification.position, position, position, Prod.Lex.le_iff]
  simp [NewestFirst, eq_comm]

theorem older_iff {a b : Notification} : Older a b ↔ a.position < b.position := by
  rw [Notification.position, Notification.position, position, position, Prod.Lex.lt_iff]
  simp [Older, eq_comm]

theorem precedes_iff {row : Notification} {before : DateTime × ℤ} :
    precedes row before ↔ position before < row.position := by
  rw [Notification.position, position, position, Prod.Lex.lt_iff]
  simp [precedes, eq_comm (b := row.createdAt.instant)]

end Order

def notificationHistoryPage (table : List Notification) (userId : ℤ) (limit : ℕ)
    (before : Option (DateTime × ℤ)) : List Notification :=
  (((table.filter (·.userId = userId)).filter fun row => before.all (precedes row)).insertionSort
    NewestFirst).take (limit + 1)

structure NotificationHistoryData where
  items : List Notification
  nextCursor : Option (List Char)

section History

variable (parsers : TextParsers) (userId : ℤ) (limit : ℕ)

def decodeOptional : Option (List Char) → Except NotificationHistoryError (Option (DateTime × ℤ))
  | none => .ok none
  | some cursor => (decodeNotificationCursor parsers cursor).map some

def notificationHistory (table : List Notification) (cursor : Option (List Char)) :
    Except NotificationHistoryError NotificationHistoryData := do
  let before ← decodeOptional parsers cursor
  let records := notificationHistoryPage table userId limit before
  let visible := records.take limit
  .ok
    { items := visible
      nextCursor := if limit < records.length then
          visible.getLast?.map fun last => encodeNotificationCursor last.createdAt last.id
        else none }

/-- A reader that follows `next_cursor` until it is absent. Each request reads the table of its own
time. -/
def followHistory : Option (List Char) → List (List Notification) →
    Except NotificationHistoryError (List Notification × Bool)
  | _, [] => .ok ([], false)
  | cursor, table :: tables => do
    let data ← notificationHistory parsers userId limit table cursor
    match data.nextCursor with
    | none => .ok (data.items, true)
    | some next => do
      let (items, finished) ← followHistory (some next) tables
      .ok (data.items ++ items, finished)

/-- The tables that the requests find between which `batches` are inserted. -/
def tablesAt : List Notification → List (List Notification) → List (List Notification)
  | table, [] => [table]
  | table, batch :: batches => table :: tablesAt (table ++ batch) batches

variable {userId limit}

theorem insertionSort_congr {α : Type} {r s : α → α → Prop} [DecidableRel r] [DecidableRel s]
    (h : ∀ a b, r a b ↔ s a b) (l : List α) : l.insertionSort r = l.insertionSort s := by
  have heq : r = s := funext fun a => funext fun b => propext (h a b)
  subst heq
  congr!

theorem notificationHistoryPage_eq (table : List Notification) (before : Option (DateTime × ℤ)) :
    notificationHistoryPage table userId limit before =
      (Keyset.after Notification.position (table.filter (·.userId = userId))
        (before.map position)).take (limit + 1) := by
  have hbeyond : (table.filter (·.userId = userId)).filter (fun row => before.all (precedes row)) =
      Keyset.beyond Notification.position (before.map position)
        (table.filter (·.userId = userId)) := by
    refine List.filter_congr fun row _ => ?_
    cases before with
    | none => rfl
    | some before =>
      rw [Bool.eq_iff_iff]
      simpa using precedes_iff
  rw [notificationHistoryPage, hbeyond, Keyset.after,
    insertionSort_congr fun _ _ => newestFirst_iff]

variable (userId limit) in
/-- A request with the cursor of a row is a page of the table; the next cursor is that of a row. -/
theorem exists_notificationHistory (table : List Notification) (cursor : Option Notification) :
    ∃ next : Option Notification,
      notificationHistory parsers userId limit table (cursor.map (·.toNotificationKey.encode)) =
        .ok ⟨(Keyset.page Notification.position limit (table.filter (·.userId = userId))
          (cursor.map (·.position))).items, next.map (·.toNotificationKey.encode)⟩ ∧
      (Keyset.page Notification.position limit (table.filter (·.userId = userId))
        (cursor.map (·.position))).nextCursor = next.map (·.position) := by
  have hdecode : decodeOptional parsers (cursor.map (·.toNotificationKey.encode)) =
      .ok (cursor.map fun row => (row.createdAt, row.id)) := by
    cases cursor with
    | none => rfl
    | some row => simp [decodeOptional, decode_encode, Except.map]
  have hposition : (cursor.map fun row => (row.createdAt, row.id)).map position =
      cursor.map (·.position) := by
    rw [Option.map_map]
    rfl
  have hmin (n : ℕ) : limit < min (limit + 1) n ↔ limit < n := by omega
  rw [Keyset.page_items, Keyset.page_nextCursor]
  simp only [notificationHistory, hdecode, bind, Except.bind, notificationHistoryPage_eq, hposition,
    List.take_take, List.length_take, hmin, Nat.min_eq_left (Nat.le_succ limit)]
  split
  · exact ⟨_, rfl, rfl⟩
  · exact ⟨none, rfl, rfl⟩

theorem followHistory_eq (tables : List (List Notification)) (cursor : Option Notification) :
    followHistory parsers userId limit (cursor.map (·.toNotificationKey.encode)) tables =
      .ok (Keyset.follow Notification.position limit (cursor.map (·.position))
        (tables.map (·.filter (·.userId = userId)))) := by
  induction tables generalizing cursor with
  | nil => rfl
  | cons table tables ih =>
    obtain ⟨next, hhistory, hnext⟩ := exists_notificationHistory parsers userId limit table cursor
    rw [followHistory, hhistory, List.map_cons, Keyset.follow, hnext]
    cases next with
    | none => rfl
    | some last =>
      have hrest := ih (some last)
      simp only [Option.map_some, bind, Except.bind] at hrest ⊢
      rw [hrest]

theorem mem_tablesAt {base : List Notification} {batches : List (List Notification)}
    {table : List Notification} (h : table ∈ tablesAt base batches) :
    ∃ new, table = base ++ new ∧ ∀ row ∈ new, ∃ batch ∈ batches, row ∈ batch := by
  induction batches generalizing base with
  | nil => exact ⟨[], by rw [List.mem_singleton.mp h, List.append_nil], nofun⟩
  | cons batch batches ih =>
    rcases List.mem_cons.mp h with rfl | h
    · exact ⟨[], (List.append_nil _).symm, nofun⟩
    · obtain ⟨new, rfl, hnew⟩ := ih h
      refine ⟨batch ++ new, List.append_assoc _ _ _, fun row hrow => ?_⟩
      rcases List.mem_append.mp hrow with hrow | hrow
      · exact ⟨batch, List.mem_cons_self, hrow⟩
      · obtain ⟨later, hlater, hrow⟩ := hnew row hrow
        exact ⟨later, List.mem_cons_of_mem _ hlater, hrow⟩

theorem length_tablesAt (base : List Notification) (batches : List (List Notification)) :
    (tablesAt base batches).length = batches.length + 1 := by
  induction batches generalizing base with
  | nil => rfl
  | cons batch batches ih => rw [tablesAt, List.length_cons, ih, List.length_cons]

theorem tablesAt_head (base : List Notification) (batches : List (List Notification)) :
    (tablesAt base batches).head? = some base := by
  cases batches <;> rfl

/-- Newer rows do not lie beyond the key of a row. -/
theorem beyond_append {base new : List Notification}
    (hnewer : ∀ row ∈ new, ∀ existing ∈ base, Older row existing) {next : ℤᵒᵈ ×ₗ ℤᵒᵈ}
    (hnext : next ∈ base.map Notification.position) :
    Keyset.beyond Notification.position (some next) (base ++ new) =
      Keyset.beyond Notification.position (some next) base := by
  obtain ⟨existing, hexisting, rfl⟩ := List.mem_map.mp hnext
  rw [Keyset.beyond, Keyset.beyond, List.filter_append, List.append_right_eq_self,
    List.filter_eq_nil_iff]
  intro row hrow
  simpa using (older_iff.mp (hnewer row hrow existing hexisting)).le

/-- The notifications of the user in every batch are newer than those that existed. -/
def Newer (userId : ℤ) (base : List Notification) (batches : List (List Notification)) : Prop :=
  ∀ batch ∈ batches, ∀ row ∈ batch, row.userId = userId →
    ∀ existing ∈ base, existing.userId = userId → Older row existing

instance (base : List Notification) (batches : List (List Notification)) :
    Decidable (Newer userId base batches) :=
  inferInstanceAs (Decidable (∀ batch ∈ batches, _))

variable {base : List Notification} {batches : List (List Notification)}

theorem Newer.stable (h : Newer userId base batches) :
    Keyset.Stable Notification.position (base.filter (·.userId = userId)) none
      ((tablesAt base batches).map (·.filter (·.userId = userId))) where
  head rows hrows := by
    rw [List.head?_map, tablesAt_head, Option.map_some, Option.mem_some_iff] at hrows
    exact hrows ▸ .refl _
  tail rows hrows next hnext := by
    obtain ⟨table, htable, rfl⟩ := List.mem_map.mp (List.mem_of_mem_tail hrows)
    obtain ⟨new, rfl, hnew⟩ := mem_tablesAt htable
    rw [Keyset.Agrees, List.filter_append, beyond_append ?_ hnext]
    intro row hrow existing hexisting
    obtain ⟨hrow, huser⟩ := List.mem_filter.mp hrow
    obtain ⟨hexisting, hexistingUser⟩ := List.mem_filter.mp hexisting
    obtain ⟨batch, hbatch, hrow⟩ := hnew row hrow
    exact h batch hbatch row hrow (of_decide_eq_true huser) existing hexisting
      (of_decide_eq_true hexistingUser)

variable (userId) in
theorem position_nodup (hids : (base.map (·.id)).Nodup) :
    ((base.filter (·.userId = userId)).map Notification.position).Nodup := by
  refine List.pairwise_map.mpr (((List.pairwise_map.mp hids).filter _).imp fun hne heq => hne ?_)
  have hpair := congrArg ofLex heq
  exact OrderDual.toDual_inj.mp (congrArg Prod.snd hpair)

/-- A reader that follows the cursors collects the notifications that existed at its first request,
each once, newest first, however many newer ones are inserted between its requests. The cursors are
the texts of keys, and no other text is one. -/
theorem notificationHistory_complete (hlimit : 0 < limit) (hids : (base.map (·.id)).Nodup)
    (hnewer : Newer userId base batches) :
    (∃ items finished,
      followHistory parsers userId limit none (tablesAt base batches) = .ok (items, finished) ∧
      (finished → items.Perm (base.filter (·.userId = userId)) ∧ items.Pairwise Older) ∧
      ((base.filter (·.userId = userId)).length ≤ limit * (batches.length + 1) → finished)) ∧
      (∀ key : NotificationKey,
        decodeNotificationCursor parsers key.encode = .ok (key.createdAt, key.id)) ∧
      ∀ value createdAt notificationId,
        decodeNotificationCursor parsers value = .ok (createdAt, notificationId) →
          value = encodeNotificationCursor createdAt notificationId := by
  refine ⟨?_, decode_encode, fun value createdAt id h => (eq_encode_of_decode h).1⟩
  have hkeys := position_nodup userId hids
  refine ⟨_, _, followHistory_eq parsers (tablesAt base batches) none, ?_, ?_⟩
  · intro hfinished
    rw [Option.map_none] at hfinished ⊢
    rw [Keyset.follow_eq hlimit hkeys hnewer.stable hfinished]
    constructor
    · exact Keyset.after_none_perm _
    · exact (Keyset.after_strict hkeys none).imp older_iff.mpr
  · intro hlength
    rw [Option.map_none]
    apply Keyset.follow_finished hkeys hnewer.stable
    · intro hnil
      have hcount := congrArg List.length hnil
      rw [List.length_map, length_tablesAt] at hcount
      exact Nat.succ_ne_zero _ hcount
    · rw [(Keyset.after_none_perm _).length_eq, List.length_map, length_tablesAt]
      exact hlength

end History

/-! ## Three notifications of one time, read one by one -/

/-- A notification of noon in UTC, some days after 24 September 2026. -/
def noonNotification (day : Fin 6) (id : ℕ) (userId : ℤ) : Notification where
  createdAt := ⟨2026, 9, 24 + day, 12, 0, 0, 0, some .utc, by decide +revert⟩
  id := id + 1
  aware := rfl
  id_pos := by omega
  userId

theorem notificationHistory_complete_ties :
    let base := [noonNotification 0 0 1, noonNotification 0 1 2, noonNotification 0 2 1,
      noonNotification 0 3 1]
    let batches := [[noonNotification 1 4 1, noonNotification 0 5 1], [noonNotification 0 6 1]]
    ∃ items finished, followHistory .canonical 1 1 none (tablesAt base batches) =
        .ok (items, finished) ∧
      (finished → items.Perm (base.filter (·.userId = 1)) ∧ items.Pairwise Older) ∧
      ((base.filter (·.userId = 1)).length ≤ 1 * (batches.length + 1) → finished) :=
  (notificationHistory_complete .canonical (by decide) (by decide) (by decide +kernel)).1

end Apanel.NotificationHistory
