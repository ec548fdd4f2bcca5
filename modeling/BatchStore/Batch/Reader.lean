import BatchStore.Batch.Basic

/-!
# Reading the records of a batch

A reader walks over the body of a batch, one record at a time, and stops at
the end or at the first fault, which it keeps. A strict reader also refuses
unknown kinds of records and, at a clean end, a count that the header declares
wrongly. Bytes too short for a header hold no records.
-/

namespace BatchStore.Batch

/-- What stands at the front of a body: a record and the bytes after it, or a
fault and the bytes after the fields that could still be read. -/
inductive Front where
  | record (record : Record) (rest : Bytes)
  | fault (error : BatchError) (rest : Bytes)
  deriving DecidableEq, Repr

namespace Front

/-- The value of a record whose kind and key have been read. -/
def ofValue (kind : RecordKind) (key bytes : Bytes) : Front :=
  if kind.hasValue then
    match Varstring.decode? bytes with
    | some (value, used) => .record ⟨kind, key, some value⟩ (bytes.drop used)
    | none => .fault .shortBuffer bytes
  else .record ⟨kind, key, none⟩ bytes

/-- The record whose tag and further fields are given. -/
def ofTag (strict : Bool) (tag : UInt8) (bytes : Bytes) : Front :=
  if strict && !(RecordKind.ofTag tag).isKnown then .fault (.unknownKind tag) bytes
  else
    match Varstring.decode? bytes with
    | some (key, used) => ofValue (RecordKind.ofTag tag) key (bytes.drop used)
    | none => .fault .shortBuffer bytes

/-- The bytes left after what was read. -/
def rest : Front → Bytes
  | record _ rest => rest
  | fault _ rest => rest

theorem length_rest_ofValue (kind : RecordKind) (key bytes : Bytes) :
    (ofValue kind key bytes).rest.length ≤ bytes.length := by
  unfold ofValue
  split
  · split <;> simp [rest]
  · exact Nat.le_refl _

theorem length_rest_ofTag (strict : Bool) (tag : UInt8) (bytes : Bytes) :
    (ofTag strict tag bytes).rest.length ≤ bytes.length := by
  unfold ofTag
  split
  · exact Nat.le_refl _
  · split
    · next key used h =>
      refine Nat.le_trans (length_rest_ofValue _ _ _) ?_
      simp
    · exact Nat.le_refl _

end Front

structure Reader where
  strict : Bool
  header : Option Header
  /-- The part of the body that has not been read. -/
  remaining : Bytes
  /-- The record read last; the empty deletion when there is none. -/
  record : Record
  /-- The fault that ended the reading. -/
  error : Option BatchError
  /-- The number of records read. -/
  decoded : UInt32
  /-- Whether `next` has handed out the fault. -/
  reported : Bool
  deriving DecidableEq, Repr

namespace Reader

def ofBytes (strict : Bool) (bytes : Bytes) : Reader :=
  { strict
    header := Header.decode? bytes
    remaining := bytes.drop headerSize
    record := .deletion []
    error := none
    decoded := 0
    reported := false }

/-- The fault of a body that has ended, if the header miscounts it. -/
def countFault (reader : Reader) : Option BatchError :=
  match reader.strict, reader.header with
  | true, some header =>
    if header.count = reader.decoded then none
    else some (.countMismatch header.count reader.decoded)
  | _, _ => none

/-- Reads the next record into `record`, and tells whether there was one. -/
def advance (reader : Reader) : Bool × Reader :=
  let cleared := { reader with record := Record.deletion [] }
  if reader.error.isSome then (false, cleared)
  else
    match reader.remaining with
    | [] => (false, { cleared with error := reader.countFault })
    | tag :: fields =>
      match Front.ofTag reader.strict tag fields with
      | .record record rest =>
        (true, { cleared with record, remaining := rest, decoded := reader.decoded + 1 })
      | .fault error rest => (false, { cleared with error := some error, remaining := rest })

/-- Reads the next record; after the last one, hands out the fault once. -/
def next (reader : Reader) : Option (Except BatchError Record) × Reader :=
  match reader.advance with
  | (true, after) => (some (.ok after.record), after)
  | (false, after) =>
    if after.reported then (none, after)
    else
      match after.error with
      | some error => (some (.error error), { after with reported := true })
      | none => (none, after)

theorem advance_shortens {reader after : Reader} (h : reader.advance = (true, after)) :
    after.remaining.length < reader.remaining.length := by
  unfold advance at h
  simp only at h
  split at h
  · simp at h
  split at h
  · simp at h
  · next tag fields hr =>
    have hl := Front.length_rest_ofTag reader.strict tag fields
    split at h
    · next record rest hf =>
      rw [hf] at hl
      simp only [Prod.mk.injEq, true_and] at h
      simp only [← h, hr, List.length_cons, Front.rest] at hl ⊢
      omega
    · simp at h

/-- All the records still to come, and the reader after them. -/
def drain (reader : Reader) : List Record × Reader :=
  match h : reader.advance with
  | (true, after) =>
    have := advance_shortens h
    let (records, last) := after.drain
    (after.record :: records, last)
  | (false, after) => ([], after)
termination_by reader.remaining.length

/-- The records of stored bytes, or the fault that reading them ends with. -/
def records (strict : Bool) (bytes : Bytes) : Except BatchError (List Record) :=
  let (records, last) := (ofBytes strict bytes).drain
  match last.error with
  | none => .ok records
  | some error => .error error

/-- What `next` hands out until it has nothing more: the records still to
come, then the fault unless it has been handed out before. -/
def collect (reader : Reader) : List (Except BatchError Record) × Reader :=
  let (records, last) := reader.drain
  match last.next with
  | (some item, after) => (records.map .ok ++ [item], after)
  | (none, after) => (records.map .ok, after)

end Reader

end BatchStore.Batch
