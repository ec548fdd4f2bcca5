import BatchStore.Bytes

/-!
# Lower-case hexadecimal

Fixed-width hexadecimal, as checksums and record tags are shown.
-/

namespace BatchStore.Text.Hex

/-- The lower-case digit of a number below sixteen. -/
def digit (n : Nat) : Char :=
  if n < 10 then Char.ofNat (48 + n) else Char.ofNat (87 + n)

/-- The lowest `width` hexadecimal digits of a number, the highest first. -/
def digits : (width : Nat) → Nat → List Char
  | 0, _ => []
  | width + 1, n => digits width (n / 16) ++ [digit (n % 16)]

/-- The digits without leading zeros, as in a code point. -/
def shortest (n : Nat) : List Char :=
  if n < 16 then [digit n] else shortest (n / 16) ++ [digit (n % 16)]
termination_by n
decreasing_by omega

def byte (b : UInt8) : String := String.ofList (digits 2 b.toNat)

def word (w : UInt32) : String := String.ofList (digits 8 w.toNat)

/-- The value of a hexadecimal digit in either case. -/
def value? (c : Char) : Option Nat :=
  if '0' ≤ c ∧ c ≤ '9' then some (c.toNat - 48)
  else if 'a' ≤ c ∧ c ≤ 'f' then some (c.toNat - 87)
  else if 'A' ≤ c ∧ c ≤ 'F' then some (c.toNat - 55)
  else none

/-- Two digits for each octet. -/
def ofBytes (bytes : Bytes) : String :=
  bytes.foldl (fun text b => text ++ byte b) ""

/-- The octets that pairs of digits name. -/
def ofDigits : List Char → Bytes
  | high :: low :: rest =>
    UInt8.ofNat ((value? high).getD 0 * 16 + (value? low).getD 0) :: ofDigits rest
  | _ => []

def toBytes (text : String) : Bytes := ofDigits text.toList

end BatchStore.Text.Hex
