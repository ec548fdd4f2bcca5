import BatchStore.Batch.Reader

/-!
# The version table

Each key has a list of versions, oldest first: values or tombstones under
their sequence numbers. A read at a sequence number sees the last version that
is not above it. Each mutation drops the versions of its key that no reader at
or above the horizon can see.
-/

namespace BatchStore

structure Version where
  sequence : Nat
  /-- The value; a tombstone has none. -/
  value : Option Bytes
  deriving DecidableEq, Repr

namespace Version

/-- The bytes that the version holds. -/
def weight (version : Version) : Nat := (version.value.map List.length).getD 0

/-- The last of the versions that is not above the sequence number. -/
def visible? (versions : List Version) (sequence : Nat) : Option Version :=
  versions.reverse.find? (·.sequence ≤ sequence)

/-- Drops all that is older than the last version not above the horizon, and
that version too when it is a tombstone. -/
def prune (horizon : Nat) : List Version → List Version
  | [] => []
  | version :: newer =>
    if newer.any (·.sequence ≤ horizon) then prune horizon newer
    else if version.sequence ≤ horizon ∧ version.value = none then newer
    else version :: newer

end Version

/-- A batch that strict reading accepts: the sequence number of its first
mutation and its records. -/
structure DecodedBatch where
  first : Nat
  records : List Record
  deriving DecidableEq, Repr

def DecodedBatch.ofBytes (bytes : Bytes) : Except BatchError DecodedBatch :=
  match Batch.Reader.records true bytes with
  | .error error => .error error
  | .ok records =>
    let first := ((Batch.Header.decode? bytes).map (·.sequence.toNat)).getD 0
    .ok ⟨first, records⟩

/-- The value that a mutation gives its key, `none` for a tombstone; records
that mutate nothing have no such value. -/
def Record.mutation? (record : Record) : Option (Option Bytes) :=
  match record.kind with
  | .deletion => some none
  | .value | .merge => some (some (record.value.getD []))
  | .logData | .unknown _ => none

/-- What a batch did: the mutations it applied from its first number on, counted
in 32 bits. -/
structure Applied where
  first : Nat
  count : UInt32
  deriving DecidableEq, Repr

/-- The number of the last mutation that was counted. -/
def Applied.last? (applied : Applied) : Option Nat :=
  if 0 < applied.count then some (applied.first + applied.count.toNat - 1) else none

structure VersionTable where
  /-- The keys in the order of their bytes, each with its versions. -/
  entries : List (Bytes × List Version)
  /-- The bytes of the keys and values that the versions hold. -/
  size : Nat
  deriving DecidableEq, Repr

namespace VersionTable

def empty : VersionTable := ⟨[], 0⟩

/-- Puts a key before the entries after it, unless it has no versions. -/
def place (key : Bytes) (versions : List Version) (entries : List (Bytes × List Version)) :
    List (Bytes × List Version) :=
  if versions.isEmpty then entries else (key, versions) :: entries

/-- Replaces the versions of one key; a key without versions leaves. -/
def alter (key : Bytes) (f : List Version → List Version) :
    List (Bytes × List Version) → List (Bytes × List Version)
  | [] => place key (f []) []
  | (other, versions) :: rest =>
    match compare key other with
    | .lt => place key (f []) ((other, versions) :: rest)
    | .eq => place key (f versions) rest
    | .gt => (other, versions) :: alter key f rest

def versions (table : VersionTable) (key : Bytes) : List Version :=
  (table.entries.lookup key).getD []

/-- Adds a version of a key and prunes the key at the horizon. -/
def insert (table : VersionTable) (key : Bytes) (version : Version) (horizon : Nat) :
    VersionTable :=
  let all := table.versions key ++ [version]
  let kept := Version.prune horizon all
  let dropped := all.take (all.length - kept.length)
  { entries := alter key (fun _ => kept) table.entries
    size := dropped.foldl (fun size old => size - (key.length + old.weight))
      (table.size + key.length + version.weight) }

/-- Applies records, of which the mutations are numbered from `sequence` on:
the table after them and the number after the last. -/
def applyRecords (horizon : Nat) :
    List Record → VersionTable × Nat → VersionTable × Nat
  | [], state => state
  | record :: records, (table, sequence) =>
    match record.mutation? with
    | none => applyRecords horizon records (table, sequence)
    | some value =>
      applyRecords horizon records
        (table.insert record.key ⟨sequence, value⟩ horizon, sequence + 1)

/-- Applies a batch. The count of its mutations wraps at `2 ^ 32`. -/
def apply (table : VersionTable) (batch : DecodedBatch) (horizon : Nat) :
    Applied × VersionTable :=
  let (table, next) := applyRecords horizon batch.records (table, batch.first)
  (⟨batch.first, UInt32.ofNat (next - batch.first)⟩, table)

/-- The value of a key as of a sequence number. -/
def get? (table : VersionTable) (key : Bytes) (sequence : Nat) : Option Bytes :=
  (Version.visible? (table.versions key) sequence).bind (·.value)

/-- The keys that have a value as of a sequence number, with it. -/
def visibleEntries (table : VersionTable) (sequence : Nat) : List (Bytes × Bytes) :=
  table.entries.filterMap fun (key, versions) =>
    ((Version.visible? versions sequence).bind (·.value)).map fun value => (key, value)

end VersionTable

end BatchStore
