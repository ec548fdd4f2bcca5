import BatchStore.Record

/-!
# Plain maps

What a database is for: a map from keys to values that records change one by
one. Values and merge operands set their key, deletions clear it, and log data
changes nothing.
-/

namespace BatchStore

/-- The value of each key, if it has one. -/
abbrev Contents := Bytes → Option Bytes

namespace Contents

def empty : Contents := fun _ => none

def set (contents : Contents) (key : Bytes) (value : Option Bytes) : Contents :=
  fun other => if other = key then value else contents other

def apply (contents : Contents) (record : Record) : Contents :=
  match record.kind with
  | .value | .merge => contents.set record.key (some (record.value.getD []))
  | .deletion => contents.set record.key none
  | .logData | .unknown _ => contents

/-- Applies records in their order. -/
def applyAll (contents : Contents) (records : List Record) : Contents :=
  records.foldl apply contents

@[simp] theorem applyAll_nil (contents : Contents) : contents.applyAll [] = contents := rfl

@[simp] theorem applyAll_cons (contents : Contents) (record : Record) (records : List Record) :
    contents.applyAll (record :: records) = (contents.apply record).applyAll records := rfl

theorem applyAll_append (contents : Contents) (first second : List Record) :
    contents.applyAll (first ++ second) = (contents.applyAll first).applyAll second :=
  List.foldl_append

end Contents

end BatchStore
