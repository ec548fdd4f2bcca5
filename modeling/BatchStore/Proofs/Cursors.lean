import BatchStore.Proofs.Reopening
import BatchStore.Proofs.VersionOrder

/-!
# Views in order and cursors over them

The keys that a read sees come in the order of their bytes and are sorted stably, so
keys that the order of the database does not tell apart keep the order of their bytes.
In a view so sorted the keys before a target stand in front of all others, and halving
finds where they end. Calls on a cursor change nothing but its position.
-/

namespace BatchStore

namespace KeyOrder

/-- The first key comes before the second, by the order or, where this does not tell them
apart, by their bytes. -/
def Precedes (order : KeyOrder) (first second : Bytes) : Prop :=
  order.compare first second = .lt ∨
    order.compare first second = .eq ∧ Ord.compare first second = .lt

variable {order : KeyOrder} {first second : Bytes}

theorem isLE_of_precedes (h : order.Precedes first second) :
    (order.compare first second).isLE = true := by
  rcases h with hlt | ⟨heq, -⟩
  · simp [hlt]
  · simp [heq]

/-- An order that tells all keys apart never asks for their bytes. -/
theorem lt_of_precedes [Std.LawfulEqCmp order.compare] (h : order.Precedes first second) :
    order.compare first second = .lt := by
  rcases h with hlt | ⟨heq, hbytes⟩
  · exact hlt
  · exact absurd (Std.LawfulEqCmp.eq_of_compare heq) (VersionTable.ne_of_compare_lt hbytes)

-- The orders that are named beside the bytewise one are total preorders too. Only those
-- that end in comparing all bytes tell all keys apart.

instance : Std.TransCmp bytewise.compare := inferInstanceAs (Std.TransCmp Ord.compare)

instance : Std.LawfulEqCmp bytewise.compare := inferInstanceAs (Std.LawfulEqCmp Ord.compare)

instance : Std.TransCmp reversed :=
  inferInstanceAs (Std.TransCmp fun a b : Bytes => Ord.compare b a)

instance : Std.LawfulEqCmp reversed :=
  inferInstanceAs (Std.LawfulEqCmp fun a b : Bytes => Ord.compare b a)

instance : Std.TransCmp byLength :=
  inferInstanceAs (Std.TransCmp (compareLex (compareOn fun key : Bytes => key.length) Ord.compare))

instance : Std.LawfulEqCmp byLength where
  compare_self := Std.ReflCmp.compare_self
  eq_of_compare h := Std.LawfulEqCmp.eq_of_compare (Ordering.then_eq_eq.mp h).2

instance : Std.TransCmp ignoringCase :=
  inferInstanceAs (Std.TransCmp (compareOn fun key : Bytes => key.map lowerCase))

/-- The empty key has no last byte, and having none comes before having one. -/
theorem byLastByte_eq (a b : Bytes) : byLastByte a b = Ord.compare a.getLast? b.getLast? := by
  unfold byLastByte
  cases a.getLast? <;> cases b.getLast? <;> rfl

instance : Std.TransCmp byLastByte where
  eq_swap := by
    intro a b
    rw [byLastByte_eq, byLastByte_eq]
    exact Std.OrientedCmp.eq_swap
  isLE_trans := by
    intro a b c hab hbc
    rw [byLastByte_eq] at hab hbc ⊢
    exact Std.TransCmp.isLE_trans hab hbc

instance : Std.TransCmp indifferent where
  eq_swap := rfl
  isLE_trans _ _ := rfl

end KeyOrder

namespace Cursor

section Sorting

variable {order : KeyOrder} [Std.TransCmp order.compare] {entries : List (Bytes × Bytes)}

/-- Whether an entry may stand before another one. -/
def mayPrecede (order : KeyOrder) (a b : Bytes × Bytes) : Bool := order.compare a.1 b.1 ≠ .gt

omit [Std.TransCmp order.compare] in
theorem mayPrecede_iff {a b : Bytes × Bytes} :
    mayPrecede order a b = true ↔ (order.compare a.1 b.1).isLE = true := by
  simp [mayPrecede, Ordering.isLE_iff_ne_gt]

theorem mayPrecede_trans (a b c : Bytes × Bytes) (hab : mayPrecede order a b = true)
    (hbc : mayPrecede order b c = true) : mayPrecede order a c = true := by
  rw [mayPrecede_iff] at hab hbc ⊢
  exact Std.TransCmp.isLE_trans hab hbc

theorem mayPrecede_total (a b : Bytes × Bytes) :
    (mayPrecede order a b || mayPrecede order b a) = true := by
  rw [Bool.or_eq_true, mayPrecede_iff, mayPrecede_iff,
    @Std.OrientedCmp.eq_swap _ order.compare _ b.1]
  cases order.compare a.1 b.1 <;> simp

theorem entries_ofEntries (order : KeyOrder) (entries : List (Bytes × Bytes)) :
    (ofEntries order entries).entries = entries.mergeSort (mayPrecede order) := rfl

/-- Sorting leaves the entries that the order does not tell from a key as they stand. -/
theorem filter_ofEntries (key : Bytes) :
    (ofEntries order entries).entries.filter (fun entry => order.compare entry.1 key = .eq) =
      entries.filter fun entry => order.compare entry.1 key = .eq := by
  rw [entries_ofEntries]
  generalize hsame : (fun entry : Bytes × Bytes => decide (order.compare entry.1 key = .eq)) = same
  have hequal : (entries.filter same).Pairwise fun a b => mayPrecede order a b = true := by
    refine List.pairwise_of_forall_mem_list fun a ha b hb => ?_
    have hfirst := (List.mem_filter.mp ha).2
    have hsecond := (List.mem_filter.mp hb).2
    simp only [← hsame, decide_eq_true_eq] at hfirst hsecond
    rw [mayPrecede_iff, Std.TransCmp.congr_left hfirst,
      @Std.OrientedCmp.eq_swap _ order.compare, hsecond]
    rfl
  have hkept : (entries.filter same).Sublist
      ((entries.mergeSort (mayPrecede order)).filter same) := by
    have hsub := (List.sublist_mergeSort mayPrecede_trans mayPrecede_total hequal
      (List.filter_sublist (l := entries))).filter same
    simpa only [List.filter_filter, Bool.and_self] using hsub
  have hlength := ((List.mergeSort_perm entries (mayPrecede order)).filter same).length_eq
  exact (hkept.eq_of_length hlength.symm).symm

/-- Entries that come in the order of their bytes are arranged by the order, and by
their bytes where it does not tell them apart. -/
theorem pairwise_ofEntries (hbytes : entries.Pairwise fun a b => compare a.1 b.1 = .lt) :
    (ofEntries order entries).entries.Pairwise fun a b => order.Precedes a.1 b.1 := by
  have hsorted := @List.pairwise_mergeSort _ (mayPrecede order) mayPrecede_trans
    mayPrecede_total entries
  rw [← entries_ofEntries, List.pairwise_iff_forall_sublist] at hsorted
  refine List.pairwise_iff_forall_sublist.mpr fun {a b} hab => ?_
  have hle := mayPrecede_iff.mp (hsorted hab)
  cases hcompare : order.compare a.1 b.1 with
  | gt => simp [hcompare] at hle
  | lt => exact .inl hcompare
  | eq =>
    -- among the entries like `b` the view has the order of the bytes
    have hlike := hab.filter fun entry => order.compare entry.1 b.1 = .eq
    rw [filter_ofEntries] at hlike
    simp only [List.filter_cons, List.filter_nil, hcompare, Std.ReflCmp.compare_self, decide_true,
      if_true] at hlike
    exact .inr ⟨hcompare,
      List.pairwise_iff_forall_sublist.mp hbytes (hlike.trans List.filter_sublist)⟩

end Sorting

/-- Where a test fails once, it fails for all that comes later: halving finds where. -/
theorem bisect_spec {below : Nat → Bool} {low high : Nat} (hle : low ≤ high)
    (hfalls : ∀ i j, i ≤ j → j < high → below j = true → below i = true) :
    low ≤ bisect below low high ∧ bisect below low high ≤ high ∧
      ∀ i, low ≤ i → i < high → (below i = true ↔ i < bisect below low high) := by
  fun_induction bisect below low high with
  | case1 low high hlt middle hbelow ih =>
    have hmiddle : low ≤ middle ∧ middle < high := by omega
    obtain ⟨hlow, hhigh, hfound⟩ := ih (by omega) hfalls
    refine ⟨by omega, hhigh, fun i hi hend => ?_⟩
    by_cases hleft : i ≤ middle
    · exact iff_of_true (hfalls i middle hleft hmiddle.2 hbelow) (by omega)
    · exact hfound i (by omega) hend
  | case2 low high hlt middle hnot ih =>
    have hmiddle : low ≤ middle ∧ middle < high := by omega
    obtain ⟨hlow, hhigh, hfound⟩ := ih (by omega) fun i j hij hj => hfalls i j hij (by omega)
    refine ⟨hlow, by omega, fun i hi hend => ?_⟩
    by_cases hleft : i < middle
    · exact hfound i hi hleft
    · exact iff_of_false (fun h => hnot (hfalls middle i (by omega) hend h)) (by omega)
  | case3 low high hnot => exact ⟨Nat.le_refl _, hle, fun i hi hend => by omega⟩

end Cursor

inductive CursorCall where
  | first
  | last
  | seek (key : Bytes)
  | next
  | previous
  deriving DecidableEq, Repr

/-- Whether the call goes on from where the cursor stands. -/
def CursorCall.isMove : CursorCall → Bool
  | next | previous => true
  | first | last | seek _ => false

namespace Cursor

def call (cursor : Cursor) : CursorCall → Cursor
  | .first => cursor.first
  | .last => cursor.last
  | .seek key => cursor.seek key
  | .next => cursor.next
  | .previous => cursor.previous

def run (cursor : Cursor) (calls : List CursorCall) : Cursor := calls.foldl call cursor

theorem run_append (cursor : Cursor) (earlier later : List CursorCall) :
    cursor.run (earlier ++ later) = (cursor.run earlier).run later := List.foldl_append

theorem run_concat (cursor : Cursor) (earlier : List CursorCall) (again : CursorCall) :
    cursor.run (earlier ++ [again]) = (cursor.run earlier).call again := by
  rw [run_append]
  rfl

/-- The cursor stands nowhere or on an entry of its view. -/
def Within (cursor : Cursor) : Prop := ∀ index, cursor.position = some index → index < cursor.size

theorem Within.isValid_eq {cursor : Cursor} (h : cursor.Within) :
    cursor.isValid = cursor.entry?.isSome := by
  cases hposition : cursor.position with
  | none => simp [isValid, entry?, hposition]
  | some index =>
    have hindex : index < cursor.entries.length := h index hposition
    simp [isValid, entry?, hposition, hindex]

theorem within_place (cursor : Cursor) (index : Nat) : (cursor.place index).Within := by
  intro found hfound
  simp only [place, Option.ite_none_right_eq_some, Option.some.injEq] at hfound
  exact hfound.2 ▸ hfound.1

/-- A call changes nothing but the position, and that to one in the view. -/
theorem call_effect {cursor : Cursor} (h : cursor.Within) (again : CursorCall) :
    (∃ position, cursor.call again = { cursor with position }) ∧ (cursor.call again).Within := by
  cases again with
  | first => exact ⟨⟨_, rfl⟩, within_place cursor 0⟩
  | last =>
    simp only [call, last]
    cases hlength : cursor.entries.length with
    | zero => exact ⟨⟨_, rfl⟩, nofun⟩
    | succ n => exact ⟨⟨_, rfl⟩, fun index hindex => by simp_all [size]⟩
  | seek key => exact ⟨⟨_, rfl⟩, within_place cursor _⟩
  | next =>
    simp only [call, next]
    cases cursor.position with
    | none => exact ⟨⟨cursor.position, rfl⟩, h⟩
    | some index => exact ⟨⟨_, rfl⟩, within_place cursor (index + 1)⟩
  | previous =>
    simp only [call, previous]
    match hposition : cursor.position with
    | none => exact ⟨⟨_, rfl⟩, nofun⟩
    | some 0 => exact ⟨⟨_, rfl⟩, nofun⟩
    | some (index + 1) =>
      have hindex := h (index + 1) hposition
      exact ⟨⟨_, rfl⟩, fun found hfound => by simp_all [size]; omega⟩

theorem run_effect {cursor : Cursor} (h : cursor.Within) (calls : List CursorCall) :
    (∃ position, cursor.run calls = { cursor with position }) ∧ (cursor.run calls).Within := by
  induction calls generalizing cursor with
  | nil => exact ⟨⟨cursor.position, rfl⟩, h⟩
  | cons again calls ih =>
    obtain ⟨⟨position, hcall⟩, hwithin⟩ := call_effect h again
    obtain ⟨⟨final, hrun⟩, hend⟩ := ih hwithin
    refine ⟨⟨final, ?_⟩, hend⟩
    show (cursor.call again).run calls = _
    rw [hrun, hcall]

theorem view_run {cursor : Cursor} (h : cursor.Within) (calls : List CursorCall) :
    (cursor.run calls).entries = cursor.entries ∧ (cursor.run calls).order = cursor.order := by
  obtain ⟨⟨position, hrun⟩, -⟩ := run_effect h calls
  simp [hrun]

/-- Moves do not bring a cursor back that stands nowhere. -/
theorem position_run_moves {cursor : Cursor} (h : cursor.position = none) (moves : List CursorCall)
    (hmoves : ∀ move ∈ moves, move.isMove = true) : (cursor.run moves).position = none := by
  induction moves generalizing cursor with
  | nil => exact h
  | cons move moves ih =>
    obtain ⟨hmove, hrest⟩ := List.forall_mem_cons.mp hmoves
    refine ih ?_ hrest
    cases move with
    | next => simp [call, next, h]
    | previous => simp [call, previous, h]
    | first | last | seek => cases hmove

theorem position_forward (cursor : Cursor) (moves : Nat) :
    (cursor.run (.first :: List.replicate moves .next)).position =
      if moves < cursor.size then some moves else none := by
  induction moves with
  | zero => rfl
  | succ moves ih =>
    obtain ⟨⟨position, hrun⟩, -⟩ := run_effect (within_place cursor 0) (List.replicate moves .next)
    rw [List.replicate_succ', ← List.cons_append, run_concat]
    simp only [call, next]
    change (cursor.run (.first :: List.replicate moves .next)) = _ at hrun
    rw [ih]
    by_cases hmoves : moves < cursor.size
    · rw [if_pos hmoves, hrun]
      rfl
    · rw [if_neg hmoves, if_neg (by omega)]
      simpa only [if_neg hmoves] using ih

theorem position_backward (cursor : Cursor) (moves : Nat) :
    (cursor.run (.last :: List.replicate moves .previous)).position =
      if moves < cursor.size then some (cursor.size - 1 - moves) else none := by
  induction moves with
  | zero =>
    show cursor.last.position = _
    unfold last size
    split
    · next hlength => simp [hlength]
    · next hlength => simp [hlength]
  | succ moves ih =>
    rw [List.replicate_succ', ← List.cons_append, run_concat]
    simp only [call, previous]
    rw [ih]
    by_cases hmoves : moves < cursor.size
    · rw [if_pos hmoves]
      cases hindex : cursor.size - 1 - moves with
      | zero => simp [show ¬moves + 1 < cursor.size by omega]
      | succ index => simp [show moves + 1 < cursor.size by omega]; omega
    · simp [hmoves, show ¬moves + 1 < cursor.size by omega]

/-- In a sorted view the entries before a key are those in front. -/
theorem isBefore_falls {cursor : Cursor} [Std.TransCmp cursor.order.compare]
    (hsorted : cursor.entries.Pairwise fun a b => cursor.order.Precedes a.1 b.1) (key : Bytes)
    {i j : Nat} (hij : i ≤ j) (hbefore : cursor.isBefore key j = true) :
    cursor.isBefore key i = true := by
  rcases Nat.eq_or_lt_of_le hij with rfl | hlt
  · exact hbefore
  unfold isBefore at hbefore ⊢
  cases hlast : cursor.entries[j]? with
  | none => simp [hlast] at hbefore
  | some last =>
    obtain ⟨hj, rfl⟩ := List.getElem?_eq_some_iff.mp hlast
    have hi : i < cursor.entries.length := by omega
    have hle := KeyOrder.isLE_of_precedes (List.pairwise_iff_getElem.mp hsorted i j hi hj hlt)
    simp only [hlast, List.getElem?_eq_getElem hi, decide_eq_true_eq] at hbefore ⊢
    exact Std.TransCmp.lt_of_isLE_of_lt hle hbefore

/-- Seeking stands on the first entry that does not come before the key. -/
theorem position_seek {cursor : Cursor} [Std.TransCmp cursor.order.compare]
    (hsorted : cursor.entries.Pairwise fun a b => cursor.order.Precedes a.1 b.1) (key : Bytes) :
    (cursor.seek key).position =
      cursor.entries.findIdx? fun entry => cursor.order.compare entry.1 key ≠ .lt := by
  obtain ⟨-, hle, hfound⟩ := bisect_spec (Nat.zero_le cursor.entries.length)
    fun i j hij _ hbefore => isBefore_falls hsorted key hij hbefore
  generalize hindex : bisect (cursor.isBefore key) 0 cursor.entries.length = index at hle hfound
  have hbefore : ∀ i (hi : i < cursor.entries.length),
      cursor.order.compare cursor.entries[i].1 key = .lt ↔ i < index := by
    intro i hi
    rw [← hfound i (Nat.zero_le i) hi]
    simp [isBefore, hi]
  unfold seek place
  rw [hindex]
  symm
  by_cases hlt : index < cursor.entries.length
  · rw [if_pos hlt, List.findIdx?_eq_some_iff_getElem]
    refine ⟨hlt, ?_, fun j hj => ?_⟩
    · simpa using (hbefore index hlt).not.mpr (Nat.lt_irrefl index)
    · simpa using (hbefore j (by omega)).mpr hj
  · rw [if_neg hlt, List.findIdx?_eq_none_iff]
    intro entry hentry
    obtain ⟨i, hi, rfl⟩ := List.getElem_of_mem hentry
    simpa using (hbefore i hi).mpr (by omega)

/-- What the entries are after each number of moves is what the moves visit. -/
theorem visit_eq_take {move : Cursor → Cursor} {entries : List (Bytes × Bytes)} {cursor : Cursor}
    (h : ∀ moves, entry? (move^[moves] cursor) = entries[moves]?) (moves : Nat) :
    visit move moves cursor = entries.take moves := by
  induction moves generalizing cursor entries with
  | zero => rfl
  | succ moves ih =>
    have hfirst : cursor.entry? = entries[0]? := h 0
    unfold visit
    cases entries with
    | nil => simp [hfirst]
    | cons entry entries =>
      have hrest : visit move moves (move cursor) = entries.take moves :=
        ih fun moves => by simpa using h (moves + 1)
      simp [hfirst, hrest]

theorem run_replicate (cursor : Cursor) (again : CursorCall) (moves : Nat) :
    cursor.run (List.replicate moves again) = (fun cursor => cursor.call again)^[moves] cursor := by
  induction moves generalizing cursor with
  | zero => rfl
  | succ moves ih => exact ih (cursor.call again)

/-- How a cursor goes over its view, wherever earlier calls have left it. -/
structure Walks (cursor : Cursor) : Prop where
  /-- The view stays. -/
  kept : ∀ calls, (cursor.run calls).entries = cursor.entries
  /-- The position is none, or an index of the view. -/
  within : ∀ calls, (cursor.run calls).Within
  /-- A position that is lost stays so until the cursor is placed again. -/
  lost : ∀ calls moves, (cursor.run calls).position = none →
    (∀ move ∈ moves, move.isMove = true) → (cursor.run (calls ++ moves)).position = none
  /-- The entries are met in the order of the view, and nothing after the last. -/
  forward : ∀ calls moves,
    entry? (cursor.run (calls ++ .first :: List.replicate moves .next)) = cursor.entries[moves]? ∧
    ((cursor.run (calls ++ .first :: List.replicate moves .next)).isValid = true ↔
      moves < cursor.size)
  backward : ∀ calls moves,
    entry? (cursor.run (calls ++ .last :: List.replicate moves .previous)) =
      cursor.entries.reverse[moves]? ∧
    ((cursor.run (calls ++ .last :: List.replicate moves .previous)).isValid = true ↔
      moves < cursor.size)
  /-- All of them are met, each once. -/
  visited : ∀ calls, (cursor.run calls).forward = cursor.entries ∧
    (cursor.run calls).backward = cursor.entries.reverse
  /-- The first entry is found that does not come before the key. -/
  seek : ∀ calls key, (cursor.run (calls ++ [.seek key])).position =
    cursor.entries.findIdx? fun entry => cursor.order.compare entry.1 key ≠ .lt
  passed : ∀ calls key, (cursor.run (calls ++ [.seek key])).isValid = false ↔
    ∀ entry ∈ cursor.entries, cursor.order.compare entry.1 key = .lt

section Walks

variable {cursor : Cursor} (h : cursor.Within)

include h

theorem entry_forward (moves : Nat) :
    entry? (cursor.run (.first :: List.replicate moves .next)) = cursor.entries[moves]? := by
  unfold entry?
  rw [position_forward, (view_run h _).1, size]
  by_cases hmoves : moves < cursor.entries.length
  · simp [hmoves]
  · simp [hmoves]

theorem entry_backward (moves : Nat) :
    entry? (cursor.run (.last :: List.replicate moves .previous)) =
      cursor.entries.reverse[moves]? := by
  unfold entry?
  rw [position_backward, (view_run h _).1, size]
  by_cases hmoves : moves < cursor.entries.length
  · simp [hmoves]
  · simp [hmoves]

theorem forward_eq : cursor.forward = cursor.entries := by
  have hentry (moves : Nat) : entry? (next^[moves] cursor.first) = cursor.entries[moves]? := by
    rw [← entry_forward h moves]
    exact congrArg entry? (run_replicate cursor.first .next moves).symm
  exact (visit_eq_take hentry cursor.size).trans (List.take_of_length_le (Nat.le_refl _))

theorem backward_eq : cursor.backward = cursor.entries.reverse := by
  have hentry (moves : Nat) :
      entry? (previous^[moves] cursor.last) = cursor.entries.reverse[moves]? := by
    rw [← entry_backward h moves]
    exact congrArg entry? (run_replicate cursor.last .previous moves).symm
  exact (visit_eq_take hentry cursor.size).trans (List.take_of_length_le (by simp [size]))

/-- A cursor over a sorted view, whatever was called on it before. -/
theorem walks [Std.TransCmp cursor.order.compare]
    (hsorted : cursor.entries.Pairwise fun a b => cursor.order.Precedes a.1 b.1) :
    cursor.Walks := by
  have hview := view_run h
  have hwithin (calls : List CursorCall) : (cursor.run calls).Within := (run_effect h calls).2
  have hseek (calls : List CursorCall) (key : Bytes) :
      (cursor.run (calls ++ [.seek key])).position =
        cursor.entries.findIdx? fun entry => cursor.order.compare entry.1 key ≠ .lt := by
    obtain ⟨⟨position, hrun⟩, -⟩ := run_effect h calls
    rw [run_concat, hrun]
    exact position_seek (show ({ cursor with position } : Cursor).entries.Pairwise _ from hsorted)
      key
  refine ⟨fun calls => (hview calls).1, hwithin, ?_, ?_, ?_, ?_, hseek, ?_⟩
  · intro calls moves hlost hmoves
    rw [run_append]
    exact position_run_moves hlost moves hmoves
  · intro calls moves
    have hentry : entry? (cursor.run (calls ++ .first :: List.replicate moves .next)) =
        cursor.entries[moves]? := by
      rw [run_append, entry_forward (hwithin calls), (hview calls).1]
    refine ⟨hentry, ?_⟩
    rw [(hwithin _).isValid_eq, hentry]
    simp [size]
  · intro calls moves
    have hentry : entry? (cursor.run (calls ++ .last :: List.replicate moves .previous)) =
        cursor.entries.reverse[moves]? := by
      rw [run_append, entry_backward (hwithin calls), (hview calls).1]
    refine ⟨hentry, ?_⟩
    rw [(hwithin _).isValid_eq, hentry]
    simp [size]
  · intro calls
    rw [forward_eq (hwithin calls), backward_eq (hwithin calls), (hview calls).1]
    exact ⟨rfl, rfl⟩
  · intro calls key
    simp [isValid, hseek]

end Walks

end Cursor

namespace Database

/-- A new cursor over the keys that the read sees, each with the value that it gets, in
the order of the database. -/
structure Views (db : Database) (reading : ReadSettings) (cursor : Cursor) : Prop where
  order : cursor.order = db.settings.keyOrder
  position : cursor.position = none
  /-- The bindings are those that the read sees. -/
  mem : ∀ key value, (key, value) ∈ cursor.entries ↔ db.get reading key = .ok (some value)
  /-- Keys that the order does not tell apart come in the order of their bytes. -/
  sorted : cursor.entries.Pairwise fun a b => cursor.order.Precedes a.1 b.1
  /-- An order that tells all keys apart has them strictly ascending. -/
  strict : Std.LawfulEqCmp cursor.order.compare →
    cursor.entries.Pairwise fun a b => cursor.order.compare a.1 b.1 = .lt

theorem readSequence_ok_iff {db : Database} {reading : ReadSettings} :
    (∃ sequence, db.readSequence reading = .ok sequence) ↔
      db.isOpen = true ∧
        ∀ snapshot, reading.snapshot = some snapshot → snapshot.database = db.id := by
  unfold readSequence
  cases hopen : db.isOpen with
  | false => simp
  | true =>
    cases hsnapshot : reading.snapshot with
    | none => simp
    | some snapshot => by_cases hown : snapshot.database = db.id <;> simp [hown]

theorem views_of_ordered {db : Database} [Std.TransCmp db.settings.keyOrder.compare]
    (hordered : db.table.Ordered) {reading : ReadSettings} {cursor : Cursor}
    (h : db.cursor reading = .ok cursor) : db.Views reading cursor := by
  cases hsequence : db.readSequence reading with
  | error error => simp [Database.cursor, hsequence, Except.map] at h
  | ok sequence =>
    obtain rfl :
        Cursor.ofEntries db.settings.keyOrder (db.table.visibleEntries sequence) = cursor := by
      simpa [Database.cursor, hsequence, Except.map] using h
    have hsorted : (Cursor.ofEntries db.settings.keyOrder
        (db.table.visibleEntries sequence)).entries.Pairwise fun a b =>
          db.settings.keyOrder.Precedes a.1 b.1 :=
      Cursor.pairwise_ofEntries (VersionTable.ascending_visibleEntries hordered sequence)
    obtain ⟨hget, -⟩ := answers_of_sequence hordered hsequence
    refine ⟨rfl, rfl, fun key value => ?_, hsorted, fun hlawful => ?_⟩
    · rw [Cursor.entries_ofEntries, List.mem_mergeSort,
        VersionTable.mem_visibleEntries hordered, hget]
      simp [contentsAt]
    · exact hsorted.imp fun hab => @KeyOrder.lt_of_precedes _ _ _ hlawful hab

end Database

namespace Session

variable {δ : Type} [LogDevice δ]

/-- Whatever log a database opens on, and whatever is done with it then: a read that may
see something gets a cursor over exactly the bindings that it sees, in the order of the
database, and any calls walk this cursor as one expects. -/
theorem cursors_in_order {id : Nat} {settings : Settings} {directory : Option Directory}
    {log opened : δ} {db : Database} {actions : List Action} {events : List (Event δ)}
    {session : Session δ} [Std.TransCmp settings.keyOrder.compare]
    (hopened : Database.recover id settings directory log = (.ok db, opened))
    (hrun : (start db opened).run actions = (events, session)) (reading : ReadSettings) :
    ((∃ cursor, session.database.cursor reading = .ok cursor) ↔
      session.database.isOpen = true ∧
        ∀ snapshot, reading.snapshot = some snapshot → snapshot.database = session.database.id) ∧
    session.database.settings = settings ∧
    ∀ cursor, session.database.cursor reading = .ok cursor →
      session.database.Views reading cursor ∧ cursor.Walks := by
  have hordered := ordered_of_recover hopened actions
  have hfixed : db.settings = settings :=
    congrArg Database.settings (Database.restored_of_recover hopened)
  have hsettings := settings_run (start db opened) actions
  rw [hrun] at hordered hsettings
  have hkept : session.database.settings = settings := hsettings.trans hfixed
  have : Std.TransCmp session.database.settings.keyOrder.compare := by
    rw [hkept]
    infer_instance
  refine ⟨?_, hkept, fun cursor hcursor => ?_⟩
  · rw [← Database.readSequence_ok_iff]
    unfold Database.cursor
    cases session.database.readSequence reading <;> simp [Except.map]
  · have hviews := Database.views_of_ordered hordered hcursor
    have : Std.TransCmp cursor.order.compare := by
      rw [hviews.order]
      infer_instance
    have hnowhere : cursor.Within := fun index hindex => by simp [hviews.position] at hindex
    exact ⟨hviews, Cursor.walks hnowhere hviews.sorted⟩

/-- An order that does not tell capitals apart, read at a snapshot that still sees a key
deleted since: `C` comes last, and sought for `b` the cursor stands on `B`. -/
theorem cursors_in_order_ignoringCase :
    let settings : Settings := { order := some ⟨"ignoring case", KeyOrder.ignoringCase⟩ }
    let db := Database.restored 0 settings none (VersionTable.empty, 0)
    let actions : List Action := [.put {} [98] [49], .put {} [67] [50], .put {} [66] [51],
      .takeSnapshot, .delete {} [66], .put {} [97] [52]]
    let session := ((start db MemoryLog.empty).run actions).2
    ∃ cursor, session.database.cursor { snapshot := some ⟨0, 3⟩ } = .ok cursor ∧
      session.database.Views { snapshot := some ⟨0, 3⟩ } cursor ∧ cursor.Walks ∧
      cursor.entries = [([66], [51]), ([98], [49]), ([67], [50])] ∧
      Cursor.entry? (cursor.seek [98]) = some ([66], [51]) := by
  intro settings db actions session
  have hempty : LogDevice.size MemoryLog.empty = (.ok 0, MemoryLog.empty) := rfl
  have hrun : (start db MemoryLog.empty).run actions =
      (((start db MemoryLog.empty).run actions).1, session) := rfl
  have : Std.TransCmp settings.keyOrder.compare :=
    inferInstanceAs (Std.TransCmp KeyOrder.ignoringCase)
  obtain ⟨hviewed, hkept, hcursor⟩ :=
    cursors_in_order (Database.recover_empty hempty 0 settings none) hrun { snapshot := some ⟨0, 3⟩ }
  obtain ⟨cursor, hfound⟩ := hviewed.mpr ⟨by decide +kernel, by decide +kernel⟩
  obtain ⟨hviews, hwalks⟩ := hcursor cursor hfound
  have hseen : session.database.readSequence { snapshot := some ⟨0, 3⟩ } = .ok 3 := by
    decide +kernel
  have hvisible : session.database.table.visibleEntries 3 =
      [([66], [51]), ([67], [50]), ([98], [49])] := by decide +kernel
  have hperm : cursor.entries.Perm [([66], [51]), ([98], [49]), ([67], [50])] := by
    rw [Database.cursor, hseen, Except.map, hvisible] at hfound
    rw [← Except.ok.inj hfound, Cursor.entries_ofEntries]
    exact (List.mergeSort_perm _ _).trans (by decide)
  have hdistinct : ∀ a ∈ ([([66], [51]), ([98], [49]), ([67], [50])] : List (Bytes × Bytes)),
      ∀ b ∈ ([([66], [51]), ([98], [49]), ([67], [50])] : List (Bytes × Bytes)),
        settings.keyOrder.Precedes a.1 b.1 → settings.keyOrder.Precedes b.1 a.1 → a = b := by
    unfold KeyOrder.Precedes
    decide +kernel
  have hlisted : cursor.entries = [([66], [51]), ([98], [49]), ([67], [50])] := by
    have hsorted := hviews.sorted
    rw [hviews.order, hkept] at hsorted
    refine hperm.eq_of_pairwise (fun a b ha hb => hdistinct a (hperm.mem_iff.mp ha) b hb)
      hsorted ?_
    unfold KeyOrder.Precedes
    decide +kernel
  have hposition : (cursor.seek [98]).position = some 0 := by
    have hseek := hwalks.seek [] [98]
    rw [hviews.order, hlisted] at hseek
    exact hseek.trans (by decide +kernel)
  have hsought : Cursor.entry? (cursor.seek [98]) = cursor.entries[0]? := by
    unfold Cursor.entry?
    rw [hposition]
    rfl
  exact ⟨cursor, hfound, hviews, hwalks, hlisted, by rw [hsought, hlisted]; rfl⟩

end Session

end BatchStore
