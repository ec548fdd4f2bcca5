import BatchStore.Varint

/-!
# Length-prefixed byte strings

A byte string is stored as its length, a variable-length integer, followed by
its octets.
-/

namespace BatchStore.Varstring

def encode (data : Bytes) : Bytes := Varint.encode data.length ++ data

/-- The string at the front of the octets and how many of them it takes up. It
is refused when the length is malformed or runs past the end. -/
def decode? (bytes : Bytes) : Option (Bytes × Nat) :=
  match Varint.decode? bytes with
  | none => none
  | some (length, used) =>
    let data := (bytes.drop used).take length
    if data.length = length then some (data, used + length) else none

theorem decode?_bounds {bytes data : Bytes} {used : Nat} (h : decode? bytes = some (data, used)) :
    0 < used ∧ used ≤ bytes.length := by
  unfold decode? at h
  split at h
  · simp at h
  · next length lengthUsed hv =>
    have hb := Varint.decode?_bounds hv
    simp only at h
    split at h
    · next hl =>
      simp only [Option.some.injEq, Prod.mk.injEq] at h
      rw [List.length_take, List.length_drop] at hl
      omega
    · simp at h

end BatchStore.Varstring
