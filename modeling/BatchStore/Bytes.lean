/-!
# Byte strings

Keys, values, batches and log images are lists of octets. Fixed-width integers
are stored least significant octet first.
-/

namespace BatchStore

abbrev Bytes := List UInt8

namespace Bytes

/-- The `width` least significant octets of a number, the lowest first. -/
def ofNat : (width : Nat) → Nat → Bytes
  | 0, _ => []
  | width + 1, n => UInt8.ofNat n :: ofNat width (n / 256)

/-- The number whose octets these are, the lowest first. -/
def toNat : Bytes → Nat
  | [] => 0
  | b :: rest => b.toNat + 256 * toNat rest

/-- How many numbers fit into that many octets. -/
def range : (width : Nat) → Nat
  | 0 => 1
  | width + 1 => 256 * range width

def ofWord32 (w : UInt32) : Bytes := ofNat 4 w.toNat

def ofWord64 (w : UInt64) : Bytes := ofNat 8 w.toNat

/-- The first `width` octets as a number, when there are that many. -/
def front? (width : Nat) (bytes : Bytes) : Option Nat :=
  let taken := bytes.take width
  if taken.length = width then some (toNat taken) else none

def word32? (bytes : Bytes) : Option UInt32 := (front? 4 bytes).map UInt32.ofNat

def word64? (bytes : Bytes) : Option UInt64 := (front? 8 bytes).map UInt64.ofNat

@[simp] theorem length_ofNat (width n : Nat) : (ofNat width n).length = width := by
  induction width generalizing n with
  | zero => rfl
  | succ width ih => simp only [ofNat, List.length_cons, ih]

theorem toNat_lt (bytes : Bytes) : toNat bytes < range bytes.length := by
  induction bytes with
  | nil => exact Nat.zero_lt_one
  | cons b rest ih =>
    have hb := b.toNat_lt
    simp only [toNat, List.length_cons, range]
    omega

theorem toNat_ofNat (width n : Nat) : toNat (ofNat width n) = n % range width := by
  induction width generalizing n with
  | zero => simp only [ofNat, toNat, range, Nat.mod_one]
  | succ width ih =>
    have octet : (UInt8.ofNat n).toNat = n % 256 := UInt8.toNat_ofNat'
    rw [ofNat, toNat, ih, octet, range, Nat.mod_mul]

end Bytes

end BatchStore
