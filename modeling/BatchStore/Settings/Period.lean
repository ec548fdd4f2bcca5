/-!
# Periods of time

Whole seconds and the nanoseconds of a started one.
-/

namespace BatchStore

structure Period where
  seconds : UInt64
  nanoseconds : UInt32
  nanoseconds_lt : nanoseconds.toNat < 1000000000
  deriving DecidableEq, Repr

namespace Period

def ofSeconds (seconds : UInt64) : Period := ⟨seconds, 0, by decide⟩

/-- The period of that many seconds and nanoseconds, where full seconds among
the nanoseconds are carried; `none` if there are too many. -/
def ofParts? (seconds : UInt64) (nanoseconds : UInt32) : Option Period :=
  let total := seconds.toNat + nanoseconds.toNat / 1000000000
  if total < UInt64.size then
    some ⟨UInt64.ofNat total, UInt32.ofNat (nanoseconds.toNat % 1000000000), by
      have h := Nat.mod_lt nanoseconds.toNat (show 1000000000 > 0 by decide)
      rw [UInt32.toNat_ofNat']
      omega⟩
  else none

def ofMilliseconds (milliseconds : UInt64) : Period :=
  ⟨milliseconds / 1000, UInt32.ofNat (milliseconds.toNat % 1000 * 1000000), by
    have h := Nat.mod_lt milliseconds.toNat (show 1000 > 0 by decide)
    rw [UInt32.toNat_ofNat']
    exact Nat.lt_of_le_of_lt (Nat.mod_le _ _) (by omega)⟩

end Period

end BatchStore
