import BatchStore.Bytes

/-!
# Variable-length integers

A number below `2 ^ 64` is written in groups of seven bits, the lowest group
first; every octet but the last carries the bit `0x80`. A reader takes at most
ten octets, and the tenth has room for one bit.
-/

namespace BatchStore.Varint

/-- The longest encoding a reader accepts. -/
def maxSize : Nat := 10

def encode (n : Nat) : Bytes :=
  if n < 128 then [UInt8.ofNat n] else UInt8.ofNat (n % 128 + 128) :: encode (n / 128)
termination_by n
decreasing_by omega

/-- The number of octets in the encoding of `n`. -/
def size (n : Nat) : Nat :=
  if n < 128 then 1 else size (n / 128) + 1
termination_by n
decreasing_by omega

/-- Reads the groups from the octet at `position` on: the number they hold and
how many octets it took. -/
def decodeFrom? (position : Nat) : Bytes → Option (Nat × Nat)
  | [] => none
  | b :: rest =>
    if maxSize ≤ position then none
    else if position + 1 = maxSize ∧ 1 < b.toNat % 128 then none
    else if b.toNat < 128 then some (b.toNat, 1)
    else (decodeFrom? (position + 1) rest).map fun (high, used) =>
      (b.toNat % 128 + 128 * high, used + 1)

/-- The number at the front of the octets and the size of its encoding. -/
def decode? (bytes : Bytes) : Option (Nat × Nat) := decodeFrom? 0 bytes

theorem length_encode (n : Nat) : (encode n).length = size n := by
  fun_induction encode n with
  | case1 n h => rw [size, if_pos h]; rfl
  | case2 n h ih => rw [size, if_neg h, List.length_cons, ih]

/-- A successful read consumes at least one octet and no more than there are. -/
theorem decodeFrom?_bounds {position : Nat} {bytes : Bytes} {n used : Nat}
    (h : decodeFrom? position bytes = some (n, used)) : 0 < used ∧ used ≤ bytes.length := by
  induction bytes generalizing position n used with
  | nil => simp [decodeFrom?] at h
  | cons b rest ih =>
    simp only [decodeFrom?] at h
    split at h
    · simp at h
    split at h
    · simp at h
    split at h
    · simp only [Option.some.injEq, Prod.mk.injEq] at h
      simp only [← h.2, List.length_cons]; omega
    · obtain ⟨⟨high, rest_used⟩, hr, he⟩ := Option.map_eq_some_iff.1 h
      simp only [Prod.mk.injEq] at he
      have := ih hr
      simp only [← he.2, List.length_cons]; omega

theorem decode?_bounds {bytes : Bytes} {n used : Nat} (h : decode? bytes = some (n, used)) :
    0 < used ∧ used ≤ bytes.length := decodeFrom?_bounds h

end BatchStore.Varint
