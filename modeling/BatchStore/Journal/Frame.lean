import BatchStore.Checksum

/-!
# Frames

The journal is a log of frames. A frame is a header of eight octets, the
length and the checksum of its payload, followed by the payload.
-/

namespace BatchStore

structure Frame where
  /-- Where in the log the frame begins. -/
  offset : Nat
  payload : Bytes
  deriving DecidableEq, Repr

namespace Frame

def headerSize : Nat := 8

/-- Where in the log the frame ends. -/
def finish (frame : Frame) : Nat := frame.offset + headerSize + frame.payload.length

/-- The stored form of a payload. -/
def encode (payload : Bytes) : Bytes :=
  Bytes.ofNat 4 payload.length ++ Bytes.ofWord32 (Checksum.crc32 payload) ++ payload

/-- The length and the checksum that a header holds. -/
def decodeHeader (header : Bytes) : Nat × UInt32 :=
  (Bytes.toNat (header.take 4), UInt32.ofNat (Bytes.toNat ((header.drop 4).take 4)))

theorem length_encode (payload : Bytes) :
    (encode payload).length = headerSize + payload.length := by
  simp only [encode, Bytes.ofWord32, headerSize, List.length_append, Bytes.length_ofNat]

end Frame

end BatchStore
