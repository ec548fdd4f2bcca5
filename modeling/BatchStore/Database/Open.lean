import BatchStore.Database.Basic
import BatchStore.Device.File

/-!
# Opening databases

Opening replays the journal into a fresh table. Strict checks turn a frame
that holds no decodable batch into an error; lenient ones pass over it.
-/

namespace BatchStore.Database

variable {δ : Type} [LogDevice δ]

/-- The table and the highest sequence number found so far in a replay. -/
abbrev Replayed := VersionTable × Nat

/-- Applies the batch that a frame holds. -/
def replayFrame (paranoid : Bool) (replayed : Replayed) (frame : Frame) :
    Except StoreError Replayed :=
  match DecodedBatch.ofBytes frame.payload with
  | .error error =>
    if paranoid then .error (.corruptLog (.undecodable frame.offset error)) else .ok replayed
  | .ok batch =>
    let (applied, table) := replayed.1.apply batch replayed.2
    .ok (table, max replayed.2 (applied.last?.getD 0))

/-- Replays a journal into a database. -/
def recover (id : Nat) (settings : Settings) (directory : Option Directory) (log : δ) :
    Except StoreError Database × δ :=
  let recovered :=
    Journal.recover log settings.paranoidChecks (replayFrame settings.paranoidChecks)
      (VersionTable.empty, 0)
  let database := recovered.result.map fun _ =>
    { id, settings, directory
      table := recovered.state.1
      last := recovered.state.2
      snapshots := .empty
      isOpen := true }
  (database, recovered.log)

/-- Opens a database over a log. -/
def openLog (id : Nat) (settings : Settings) (log : δ) : Except StoreError Database × δ :=
  match settings.fault? with
  | some fault => (.error (.invalidArgument (.settings fault)), log)
  | none => recover id settings none log

/-- Checks that the flags for opening allow what is in the directory. -/
def checkPresence (settings : Settings) (directory : Directory) (files : FileSystem) :
    Except StoreError Unit :=
  if directory.isNew files then
    if settings.createIfMissing then .ok ()
    else .error (.invalidDatabase (.missing directory.path))
  else if settings.errorIfExists then .error (.invalidDatabase (.present directory.path))
  else .ok ()

/-- Binds a directory to the order of keys, or checks that it is bound to it. -/
def bindOrder (settings : Settings) (directory : Directory) (files : FileSystem) :
    Except StoreError Unit × FileSystem :=
  let name := settings.keyOrder.name
  match directory.loadOrderName files with
  | .error error => (.error error, files)
  | .ok none => directory.saveOrderName files name
  | .ok (some stored) =>
    if stored = name then (.ok (), files)
    else (.error (.invalidArgument (.orderMismatch name stored)), files)

/-- Opens the database in a locked directory. -/
def openLocked (id : Nat) (settings : Settings) (directory : Directory) (files : FileSystem) :
    Except StoreError (Database × OpenLog) × FileSystem :=
  match checkPresence settings directory files with
  | .error error => (.error error, files)
  | .ok _ =>
    match bindOrder settings directory files with
    | (.error error, files) => (.error error, files)
    | (.ok _, files) =>
      match FileLog.openWithDirectories files directory.journalPath with
      | (.error error, files) => (.error (.device error), files)
      | (.ok log, files) =>
        let (result, device) := recover id settings (some directory) (⟨files, log⟩ : FileLog)
        (result.map fun db => (db, device.log), device.files)

/-- Opens the database in a directory, with its journal. A failure gives the
lock of the directory back. -/
def openDirectory (id : Nat) (settings : Settings) (files : FileSystem) (path : Path) :
    Except StoreError (Database × OpenLog) × FileSystem :=
  match settings.fault? with
  | some fault => (.error (.invalidArgument (.settings fault)), files)
  | none =>
    match Directory.acquire files path settings.createIfMissing with
    | (.error error, files) => (.error error, files)
    | (.ok directory, files) =>
      match openLocked id settings directory files with
      | (.error error, files) => (.error error, directory.release files)
      | (.ok opened, files) => (.ok opened, files)

end BatchStore.Database
