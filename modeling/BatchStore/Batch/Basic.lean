import BatchStore.Batch.Error
import BatchStore.Record

/-!
# Batches

A batch is a header of twelve octets, the sequence number of its first
mutation and the number of its records, followed by the stored records. The
count is kept modulo `2 ^ 32`; a batch adopted from bytes may declare any.
-/

namespace BatchStore

namespace Batch

structure Header where
  sequence : UInt64
  count : UInt32
  deriving DecidableEq, Repr

namespace Header

def empty : Header := ⟨0, 0⟩

def encode (header : Header) : Bytes :=
  Bytes.ofWord64 header.sequence ++ Bytes.ofWord32 header.count

/-- The header at the front of the bytes, when they are long enough. -/
def decode? (bytes : Bytes) : Option Header :=
  match Bytes.word64? bytes, Bytes.word32? (bytes.drop 8) with
  | some sequence, some count => some ⟨sequence, count⟩
  | _, _ => none

end Header

end Batch

structure Batch where
  header : Batch.Header
  /-- The stored records. -/
  body : Bytes
  deriving DecidableEq, Repr

namespace Batch

def empty : Batch := ⟨.empty, []⟩

instance : Inhabited Batch := ⟨empty⟩

/-- An empty batch with room for stored bytes. The room does not show in it. -/
def withCapacity (_room : Nat) : Batch := empty

/-- Adopts stored bytes. The body is not examined. -/
def ofBytes (bytes : Bytes) : Except BatchError Batch :=
  match Header.decode? bytes with
  | some header => .ok ⟨header, bytes.drop headerSize⟩
  | none => .error (.tooSmall bytes.length)

/-- The stored form. -/
def data (batch : Batch) : Bytes := batch.header.encode ++ batch.body

def size (batch : Batch) : Nat := headerSize + batch.body.length

def isEmpty (batch : Batch) : Bool := batch.body.isEmpty

def sequence (batch : Batch) : UInt64 := batch.header.sequence

def count (batch : Batch) : UInt32 := batch.header.count

/-- Queues a record behind those already held. -/
def push (batch : Batch) (record : Record) : Batch :=
  { header.sequence := batch.header.sequence
    header.count := batch.header.count + 1
    body := batch.body ++ record.encode }

def put (batch : Batch) (key value : Bytes) : Batch := batch.push (.put key value)

def delete (batch : Batch) (key : Bytes) : Batch := batch.push (.deletion key)

def merge (batch : Batch) (key operand : Bytes) : Batch := batch.push (.merge key operand)

/-- Queues a blob that is logged with the batch and never applied. -/
def logData (batch : Batch) (blob : Bytes) : Batch := batch.push (.logData blob)

/-- Queues the records of another batch; the sequence number stays. -/
def append (batch other : Batch) : Batch :=
  { header.sequence := batch.header.sequence
    header.count := batch.header.count + other.header.count
    body := batch.body ++ other.body }

/-- Drops all records and resets the header. -/
def clear (_batch : Batch) : Batch := empty

def setSequence (batch : Batch) (sequence : UInt64) : Batch :=
  { header.sequence := sequence, header.count := batch.header.count, body := batch.body }

theorem length_encode_header (header : Header) : header.encode.length = headerSize := by
  simp [Header.encode, Bytes.ofWord64, Bytes.ofWord32, headerSize]

theorem length_data (batch : Batch) : batch.data.length = batch.size := by
  rw [data, List.length_append, length_encode_header, size]

end Batch

end BatchStore
