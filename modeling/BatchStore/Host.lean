import BatchStore.Database.Open
import BatchStore.Device.Monitored
import BatchStore.Device.Stored

/-!
# A host of databases

One process: a file system, the logs it has opened, the databases over them
and the snapshots taken from these. Several databases may share a log. Logs,
databases and snapshots are known by number; a dropped one keeps its number.
-/

namespace BatchStore

/-- A database and the log it writes to. -/
structure HostedDatabase where
  database : Database
  log : Nat

structure Host where
  files : FileSystem
  logs : List (Monitored StoredLog)
  databases : List (Option HostedDatabase)
  snapshots : List HeldSnapshot

namespace Host

def initial (files : FileSystem) : Host := ⟨files, [], [], []⟩

/-- Adds a log and returns its number. -/
def addLog (host : Host) (log : StoredLog) : Nat × Host :=
  (host.logs.length, { host with logs := host.logs ++ [.ofDevice log] })

/-- Makes a log file ready, with or without the directories above it. -/
def openLogFile (host : Host) (path : Path) (makeDirectories : Bool) :
    Except DeviceError Nat × Host :=
  let opened :=
    if makeDirectories then FileLog.openWithDirectories host.files path
    else FileLog.openAt host.files path
  match opened with
  | (.error error, files) => (.error error, { host with files })
  | (.ok log, files) =>
    let (number, host) := { host with files }.addLog (.file log)
    (.ok number, host)

def log (host : Host) (number : Nat) : Monitored StoredLog :=
  host.logs.getD number (.ofDevice (.memory .empty))

def setLog (host : Host) (number : Nat) (log : Monitored StoredLog) : Host :=
  { host with logs := host.logs.set number log }

/-- Lets a log act as a device in the host's file system. -/
def withLog {α : Type} (host : Host) (number : Nat)
    (act : Monitored Mounted → α × Monitored Mounted) : α × Host :=
  let (result, after) := act ((host.log number).map fun log => ⟨host.files, log⟩)
  (result, { host with files := after.device.files }.setLog number (after.map Mounted.log))

def database? (host : Host) (number : Nat) : Option Database :=
  (host.databases[number]?.join).map (·.database)

/-- The number that the next database gets. -/
def nextDatabase (host : Host) : Nat := host.databases.length

def addDatabase (host : Host) (database : Database) (log : Nat) : Host :=
  { host with databases := host.databases ++ [some ⟨database, log⟩] }

def setDatabase (host : Host) (number : Nat) (database : Database) : Host :=
  let update (hosted : HostedDatabase) := { hosted with database }
  { host with databases := host.databases.modify number (Option.map update) }

/-- Opens a database over a log of the host. -/
def openOn (host : Host) (settings : Settings) (log : Nat) : Except StoreError Nat × Host :=
  let number := host.nextDatabase
  match host.withLog log (Database.openLog number settings) with
  | (.error error, host) => (.error error, host)
  | (.ok database, host) => (.ok number, host.addDatabase database log)

/-- Opens a database over a new log in memory. -/
def openMemory (host : Host) (settings : Settings) : Except StoreError Nat × Host :=
  let (log, host) := host.addLog (.memory .empty)
  host.openOn settings log

/-- Opens the database in a directory. -/
def openDirectory (host : Host) (settings : Settings) (path : Path) :
    Except StoreError Nat × Host :=
  let number := host.nextDatabase
  match Database.openDirectory number settings host.files path with
  | (.error error, files) => (.error error, { host with files })
  | (.ok (database, log), files) =>
    let (log, host) := { host with files }.addLog (.file log)
    (.ok number, host.addDatabase database log)

/-- Writes a batch to a database: the result and the batch afterwards. -/
def write (host : Host) (number : Nat) (settings : WriteSettings) (batch : Batch) :
    Except StoreError Nat × Batch × Host :=
  match host.databases[number]?.join with
  | none => (.error .closed, batch, host)
  | some hosted =>
    let act (log : Monitored Mounted) :=
      let written := hosted.database.write log settings batch
      ((written.result, written.batch, written.database), written.log)
    let ((result, batch, database), host) := host.withLog hosted.log act
    (result, batch, host.setDatabase number database)

def close (host : Host) (number : Nat) : Except StoreError Unit × Host :=
  match host.databases[number]?.join with
  | none => (.ok (), host)
  | some hosted =>
    let act (log : Monitored Mounted) :=
      let (result, database, log) := hosted.database.close log
      ((result, database), log)
    let ((result, database), host) := host.withLog hosted.log act
    (result, host.setDatabase number database)

/-- Gives up a database: it is closed as far as that succeeds, and the lock of
its directory is given back. -/
def drop (host : Host) (number : Nat) : Host :=
  let (_, closed) := host.close number
  let files := match (host.database? number).bind (·.directory) with
    | some directory => directory.release closed.files
    | none => closed.files
  { closed with files, databases := closed.databases.set number none }

/-- Takes a snapshot of a database, with one holder. -/
def takeSnapshot (host : Host) (number : Nat) : Except StoreError Nat × Host :=
  match host.database? number with
  | none => (.error .closed, host)
  | some database =>
    match database.takeSnapshot with
    | (.error error, _) => (.error error, host)
    | (.ok snapshot, database) =>
      let host := host.setDatabase number database
      (.ok host.snapshots.length, { host with snapshots := host.snapshots ++ [⟨snapshot, 1⟩] })

def snapshot? (host : Host) (number : Nat) : Option Snapshot :=
  host.snapshots[number]?.map (·.snapshot)

/-- Adds a holder to a snapshot. -/
def shareSnapshot (host : Host) (number : Nat) : Host :=
  { host with snapshots := host.snapshots.modify number HeldSnapshot.share }

/-- Takes a holder from a snapshot. The database forgets the snapshot with its
last holder. -/
def releaseSnapshot (host : Host) (number : Nat) : Host :=
  match host.snapshots[number]? with
  | none => host
  | some held =>
    let host := { host with snapshots := host.snapshots.modify number HeldSnapshot.leave }
    if held.holders = 1 then
      match host.database? held.snapshot.database with
      | none => host
      | some database =>
        host.setDatabase held.snapshot.database (database.releaseSnapshot held.snapshot)
    else host

end Host

end BatchStore
