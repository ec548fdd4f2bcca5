import BatchStore.KeyOrder

/-!
# Cursors

A cursor walks over a fixed view of a database, the keys and values that a
read sees, in the order of its keys. It stands on an entry or nowhere; once it
has left the view it stays outside until it is placed again.
-/

namespace BatchStore

structure Cursor where
  order : KeyOrder
  entries : List (Bytes × Bytes)
  position : Option Nat

namespace Cursor

/-- Arranges the entries by the order; keys it does not tell apart stay as
they stand. -/
def ofEntries (order : KeyOrder) (entries : List (Bytes × Bytes)) : Cursor :=
  { order
    entries := entries.mergeSort fun a b => order.compare a.1 b.1 ≠ .gt
    position := none }

def isValid (cursor : Cursor) : Bool := cursor.position.isSome

/-- Stands on the entry of that number, if there is one. -/
def place (cursor : Cursor) (index : Nat) : Cursor :=
  { cursor with position := if index < cursor.entries.length then some index else none }

def first (cursor : Cursor) : Cursor := cursor.place 0

def last (cursor : Cursor) : Cursor :=
  match cursor.entries.length with
  | 0 => { cursor with position := none }
  | n + 1 => { cursor with position := some n }

/-- Where a test that holds for the first numbers of a range ceases to hold,
found by halving the range. -/
def bisect (below : Nat → Bool) (low high : Nat) : Nat :=
  if low < high then
    let middle := low + (high - low) / 2
    if below middle then bisect below (middle + 1) high else bisect below low middle
  else low
termination_by high - low
decreasing_by all_goals omega

/-- Whether the entry of that number comes before the key. -/
def isBefore (cursor : Cursor) (key : Bytes) (index : Nat) : Bool :=
  match cursor.entries[index]? with
  | some entry => cursor.order.compare entry.1 key = .lt
  | none => false

/-- Stands on the first entry that does not come before the key. -/
def seek (cursor : Cursor) (key : Bytes) : Cursor :=
  cursor.place (bisect (cursor.isBefore key) 0 cursor.entries.length)

def next (cursor : Cursor) : Cursor :=
  match cursor.position with
  | none => cursor
  | some index => cursor.place (index + 1)

def previous (cursor : Cursor) : Cursor :=
  match cursor.position with
  | none | some 0 => { cursor with position := none }
  | some (index + 1) => { cursor with position := some index }

/-- The entry that the cursor stands on. -/
def entry? (cursor : Cursor) : Option (Bytes × Bytes) :=
  cursor.position.bind fun index => cursor.entries[index]?

/-- The entries that a cursor stands on while it is moved again and again. -/
def visit (move : Cursor → Cursor) : (moves : Nat) → Cursor → List (Bytes × Bytes)
  | 0, _ => []
  | moves + 1, cursor =>
    match cursor.entry? with
    | none => []
    | some entry => entry :: visit move moves (move cursor)

def size (cursor : Cursor) : Nat := cursor.entries.length

/-- The entries from the first to the last. -/
def forward (cursor : Cursor) : List (Bytes × Bytes) := visit next cursor.size cursor.first

/-- The entries from the last to the first. -/
def backward (cursor : Cursor) : List (Bytes × Bytes) := visit previous cursor.size cursor.last

def describe (cursor : Cursor) : String :=
  let position := match cursor.position with
    | none => "None"
    | some index => "Some(" ++ toString index ++ ")"
  "DbIterator \x7b len: " ++ toString cursor.size ++ ", position: " ++ position
    ++ ", comparator: " ++ Text.quoted cursor.order.name ++ " \x7d"

end Cursor

end BatchStore
