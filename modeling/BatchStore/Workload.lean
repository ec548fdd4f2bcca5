import BatchStore.Batch.Basic

/-!
# A workload of generated pairs

Numbered keys of one width and values of one length, and the batch that puts
such pairs.
-/

namespace BatchStore.Workload

/-- The decimal digits of a number, with zeros in front up to the width. -/
def padded (width n : Nat) : String :=
  let digits := (toString n).toList
  String.ofList (List.replicate (width - digits.length) '0' ++ digits)

def key (index : Nat) : String := "key-" ++ padded 12 index

/-- The keys of a workload, each with the length of its value. -/
def pairs (count valueSize : Nat) : List (String × Nat) :=
  (List.range count).map fun index => (key index, valueSize)

/-- The batch that puts each pair in turn. -/
def batch (pairs : List (Bytes × Bytes)) : Batch :=
  pairs.foldl (fun batch (key, value) => batch.put key value) .empty

end BatchStore.Workload
