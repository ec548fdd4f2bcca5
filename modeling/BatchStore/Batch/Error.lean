import BatchStore.Text.Hex

/-!
# What can be wrong with a batch
-/

namespace BatchStore

/-- The octets of the sequence number and of the record count. -/
def Batch.headerSize : Nat := 12

inductive BatchError where
  /-- A record is cut off, or a length in it is malformed or runs past the end. -/
  | shortBuffer
  /-- There is no room for a header. -/
  | tooSmall (size : Nat)
  /-- A record's tag names no known kind. -/
  | unknownKind (tag : UInt8)
  /-- The header declares another number of records than the body holds. -/
  | countMismatch (declared held : UInt32)
  deriving DecidableEq, Repr

namespace BatchError

def message : BatchError → String
  | shortBuffer => "short buffer: record truncated or length field out of range"
  | tooSmall size =>
    "batch too small: " ++ toString size ++ " bytes, header needs " ++ toString Batch.headerSize
  | unknownKind tag => "unknown record type tag 0x" ++ Text.Hex.byte tag
  | countMismatch declared held =>
    "record count mismatch: header declares " ++ toString declared.toNat ++ ", body holds "
      ++ toString held.toNat

/-- Whether more bytes could mend the error. -/
def isTruncation : BatchError → Bool
  | shortBuffer => true
  | _ => false

end BatchError

end BatchStore
