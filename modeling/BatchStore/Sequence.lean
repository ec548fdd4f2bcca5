/-!
# Sequence numbers

Every committed mutation takes the next number. Zero stands for the state
before the first. The store counts with plain numbers; here is how one is shown.
-/

namespace BatchStore

abbrev SequenceNumber := Nat

namespace SequenceNumber

def display (n : SequenceNumber) : String := "seq:" ++ toString n

def describe (n : SequenceNumber) : String := "SequenceNumber(" ++ toString n ++ ")"

end SequenceNumber

end BatchStore
