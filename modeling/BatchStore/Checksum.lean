import BatchStore.Bytes

/-!
# The frame checksum

CRC-32 with the reflected polynomial `0xEDB88320`: the register starts with all
bits set, takes in one octet at a time, and is complemented at the end.
-/

namespace BatchStore.Checksum

/-- One shift of the register. -/
def shift (register : UInt32) : UInt32 :=
  if register &&& 1 = 1 then (register >>> 1) ^^^ 0xEDB88320 else register >>> 1

/-- Takes one octet into the register. -/
def feed (register : UInt32) (b : UInt8) : UInt32 :=
  shift (shift (shift (shift (shift (shift (shift (shift (register ^^^ b.toUInt32))))))))

def crc32 (bytes : Bytes) : UInt32 := bytes.foldl feed 0xFFFFFFFF ^^^ 0xFFFFFFFF

end BatchStore.Checksum
