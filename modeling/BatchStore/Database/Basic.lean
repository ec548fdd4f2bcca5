import BatchStore.Cursor
import BatchStore.Directory
import BatchStore.Journal.Basic
import BatchStore.Sequence
import BatchStore.SnapshotRegistry
import BatchStore.VersionTable

/-!
# Databases

A database is a version table over a journal. A write first logs its batch and
then applies it under the next sequence numbers; reads see the latest state or
that of a snapshot. The log device is handed to the operations that use it and
comes back with their results.
-/

namespace BatchStore

structure Database where
  /-- Tells the snapshots of this database from those of others. -/
  id : Nat
  settings : Settings
  /-- The locked directory of a database on disk. -/
  directory : Option Directory
  table : VersionTable
  /-- The sequence number of the last committed mutation. -/
  last : Nat
  snapshots : SnapshotRegistry
  isOpen : Bool

namespace Database

variable {δ : Type} [LogDevice δ]

/-- The sequence number up to which no reader tells versions apart. -/
def horizon (db : Database) : Nat :=
  match db.snapshots.oldest? with
  | some oldest => min oldest db.last
  | none => db.last

/-- Applies a decoded batch and returns the number of its first mutation, or
the latest number when it has none. -/
def applyBatch (db : Database) (batch : DecodedBatch) : Nat × Database :=
  let (applied, table) := db.table.apply batch db.horizon
  let first := if 0 < applied.count then applied.first else db.last
  (first, { db with table, last := applied.last?.getD db.last })

/-- Logs bytes unless the settings say not to. -/
def logBatch (settings : WriteSettings) (log : δ) (bytes : Bytes) : Except StoreError Unit × δ :=
  if settings.disableLog then (.ok (), log)
  else
    match Journal.append log bytes settings.sync with
    | (.error error, log) => (.error error, log)
    | (.ok _, log) => (.ok (), log)

/-- Logs and applies a batch that carries its sequence number. -/
def commit (db : Database) (log : δ) (settings : WriteSettings) (batch : Batch) :
    Except StoreError Nat × Database × δ :=
  match DecodedBatch.ofBytes batch.data with
  | .error error => (.error (.batch error), db, log)
  | .ok decoded =>
    match logBatch settings log batch.data with
    | (.error error, log) => (.error error, db, log)
    | (.ok _, log) =>
      let (first, db) := db.applyBatch decoded
      (.ok first, db, log)

/-- What a write leaves behind. -/
structure Written (δ : Type) where
  result : Except StoreError Nat
  batch : Batch
  database : Database
  log : δ

/-- Commits a batch under the next sequence numbers, the first of which is
stored in its header. An empty batch commits nothing. On an error the header
gets back the number that it had. -/
def write (db : Database) (log : δ) (settings : WriteSettings) (batch : Batch) : Written δ :=
  if !db.isOpen then ⟨.error .closed, batch, db, log⟩
  else if batch.isEmpty then ⟨.ok db.last, batch, db, log⟩
  else
    let numbered := batch.setSequence (UInt64.ofNat (db.last + 1))
    match db.commit log settings numbered with
    | (.ok first, db, log) => ⟨.ok first, numbered, db, log⟩
    | (.error error, db, log) => ⟨.error error, numbered.setSequence batch.sequence, db, log⟩

def put (db : Database) (log : δ) (settings : WriteSettings) (key value : Bytes) : Written δ :=
  db.write log settings (Batch.empty.put key value)

def delete (db : Database) (log : δ) (settings : WriteSettings) (key : Bytes) : Written δ :=
  db.write log settings (Batch.empty.delete key)

def merge (db : Database) (log : δ) (settings : WriteSettings) (key operand : Bytes) : Written δ :=
  db.write log settings (Batch.empty.merge key operand)

/-- The sequence number that a read sees. -/
def readSequence (db : Database) (settings : ReadSettings) : Except StoreError Nat :=
  if !db.isOpen then .error .closed
  else
    match settings.snapshot with
    | none => .ok db.last
    | some snapshot =>
      if snapshot.database = db.id then .ok snapshot.sequence
      else .error (.invalidArgument .foreignSnapshot)

def get (db : Database) (settings : ReadSettings) (key : Bytes) :
    Except StoreError (Option Bytes) :=
  (db.readSequence settings).map fun sequence => db.table.get? key sequence

/-- A cursor over the keys that a read sees. -/
def cursor (db : Database) (settings : ReadSettings) : Except StoreError Cursor :=
  (db.readSequence settings).map fun sequence =>
    .ofEntries db.settings.keyOrder (db.table.visibleEntries sequence)

/-- Takes a snapshot of the latest state. -/
def takeSnapshot (db : Database) : Except StoreError Snapshot × Database :=
  if !db.isOpen then (.error .closed, db)
  else (.ok ⟨db.id, db.last⟩, { db with snapshots := db.snapshots.acquire db.last })

/-- Gives up a snapshot that was taken from this database. -/
def releaseSnapshot (db : Database) (snapshot : Snapshot) : Database :=
  { db with snapshots := db.snapshots.release snapshot.sequence }

/-- Makes the log durable and ends all use of the database. When that fails
the database stays open. -/
def close (db : Database) (log : δ) : Except StoreError Unit × Database × δ :=
  if !db.isOpen then (.ok (), db, log)
  else
    match Journal.sync log with
    | (.error error, log) => (.error error, db, log)
    | (.ok _, log) => (.ok (), { db with isOpen := false }, log)

/-- The number of bytes that the table holds. -/
def memoryUsage (db : Database) : Nat := db.table.size

def path? (db : Database) : Option Path := db.directory.map (·.path)

def describe (db : Database) : String :=
  let path := match db.path? with
    | none => "None"
    | some path => "Some(" ++ Text.quoted path.text ++ ")"
  "Database \x7b path: " ++ path ++ ", is_open: " ++ toString db.isOpen
    ++ ", latest_sequence: " ++ SequenceNumber.describe db.last
    ++ ", comparator: " ++ Text.quoted db.settings.keyOrder.name ++ ", .. \x7d"

end Database

end BatchStore
