import BatchStore.Bytes
import BatchStore.Text.Quoted

/-!
# Orders of keys

A database is iterated in the order that its settings name. The order must be
a total preorder; keys that it does not tell apart stay in the order of their
bytes. A database stays bound to the name of its order.
-/

namespace BatchStore

structure KeyOrder where
  name : String
  compare : Bytes → Bytes → Ordering

namespace KeyOrder

/-- The order of the bytes, compared from the front. -/
def bytewise : KeyOrder := ⟨"leveldb.BytewiseComparator", Ord.compare⟩

instance : Inhabited KeyOrder := ⟨bytewise⟩

def describe (order : KeyOrder) : String :=
  "Comparator \x7b name: " ++ Text.quoted order.name ++ " \x7d"

/-- The greatest bytes first. -/
def reversed (a b : Bytes) : Ordering := Ord.compare b a

/-- Shorter keys first, and keys of one length by their bytes. -/
def byLength (a b : Bytes) : Ordering :=
  (Ord.compare a.length b.length).then (Ord.compare a b)

def lowerCase (b : UInt8) : UInt8 := if 65 ≤ b ∧ b ≤ 90 then b + 32 else b

/-- By the bytes, where an ASCII letter is the same in either case. -/
def ignoringCase (a b : Bytes) : Ordering :=
  Ord.compare (a.map lowerCase) (b.map lowerCase)

/-- By the last byte alone; the empty key comes before all others. -/
def byLastByte (a b : Bytes) : Ordering :=
  match a.getLast?, b.getLast? with
  | none, none => .eq
  | none, some _ => .lt
  | some _, none => .gt
  | some x, some y => Ord.compare x y

/-- Tells no keys apart. -/
def indifferent (_ _ : Bytes) : Ordering := .eq

end KeyOrder

end BatchStore
