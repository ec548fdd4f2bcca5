import BatchStore.Error
import BatchStore.FileSystem
import BatchStore.Text.Blank
import BatchStore.Text.Utf8

/-!
# Database directories

A database on disk is a directory with three files: `LOCK`, whose lock keeps
other handles out, `COMPARATOR`, the name of the order that the keys are in,
and `wal.log`, the journal.
-/

namespace BatchStore

/-- A directory whose lock is held. -/
structure Directory where
  path : Path
  lock : FileId
  deriving DecidableEq, Repr

namespace Directory

def lockName : String := "LOCK"

def journalName : String := "wal.log"

def orderName : String := "COMPARATOR"

/-- The name under which a new order file is written before it takes the
place of the old one. -/
def orderDraftName : String := "COMPARATOR.tmp"

def journalPath (directory : Directory) : Path := directory.path.child journalName

def orderPath (directory : Directory) : Path := directory.path.child orderName

def orderDraftPath (directory : Directory) : Path := directory.path.child orderDraftName

/-- Lifts the outcome of a file operation. -/
def lift {α : Type} : Except FileError α × FileSystem → Except StoreError α × FileSystem
  | (.ok value, files) => (.ok value, files)
  | (.error error, files) => (.error (.io (.file error)), files)

/-- Makes sure that there is something at the path. -/
def ensure (files : FileSystem) (path : Path) (create : Bool) :
    Except StoreError Unit × FileSystem :=
  if files.exists? path then (.ok (), files)
  else if create then lift (files.makeDirectories path)
  else (.error (.invalidDatabase (.missing path)), files)

/-- Opens the file `LOCK` and takes its lock. -/
def takeLock (files : FileSystem) (path : Path) : Except StoreError Directory × FileSystem :=
  match lift (files.openFile (path.child lockName)) with
  | (.error error, files) => (.error error, files)
  | (.ok lock, files) =>
    match files.tryLock lock with
    | some files => (.ok ⟨path, lock⟩, files)
    | none => (.error .locked, files)

/-- Opens and locks a directory, which is made first if `create` says so. -/
def acquire (files : FileSystem) (path : Path) (create : Bool) :
    Except StoreError Directory × FileSystem :=
  match ensure files path create with
  | (.error error, files) => (.error error, files)
  | (.ok _, files) =>
    if files.isDirectory path then takeLock files path
    else (.error (.invalidDatabase (.notADirectory path)), files)

/-- Gives the lock back. -/
def release (directory : Directory) (files : FileSystem) : FileSystem :=
  files.unlock directory.lock

/-- Whether no database has been written here. -/
def isNew (directory : Directory) (files : FileSystem) : Bool :=
  !files.exists? directory.journalPath && !files.exists? directory.orderPath

/-- The name of the order, without white space at its end, if one is stored. -/
def loadOrderName (directory : Directory) (files : FileSystem) :
    Except StoreError (Option String) :=
  match files.read directory.orderPath with
  | .error .notFound => .ok none
  | .error error => .error (.io (.file error))
  | .ok bytes =>
    match Text.Utf8.decode? bytes with
    | some text => .ok (some (Text.trimEnd text))
    | none => .error (.io .notText)

/-- Stores the name of the order as a line, in place of an earlier one. -/
def saveOrderName (directory : Directory) (files : FileSystem) (name : String) :
    Except StoreError Unit × FileSystem :=
  match lift (files.write directory.orderDraftPath (Text.Utf8.encode name ++ [10])) with
  | (.error error, files) => (.error error, files)
  | (.ok _, files) => lift (files.rename directory.orderDraftPath directory.orderPath)

end Directory

end BatchStore
