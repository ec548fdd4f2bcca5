import BatchStore.Batch.Error
import BatchStore.Device.Error
import BatchStore.Path
import BatchStore.Settings.Basic

/-!
# Why an operation of the store fails
-/

namespace BatchStore

/-- What makes a log unfit for replay although its frames are intact. -/
inductive LogFault where
  | undecodable (offset : Nat) (error : BatchError)
  | other (message : String)
  deriving DecidableEq, Repr

inductive ArgumentFault where
  | settings (fault : SettingsFault)
  /-- The database is bound to the order `stored`. -/
  | orderMismatch (given stored : String)
  | foreignSnapshot
  /-- A batch is longer than a frame can be. -/
  | frameTooLarge
  | other (message : String)
  deriving DecidableEq, Repr

/-- What makes a directory unfit for opening a database in it. -/
inductive DirectoryFault where
  | missing (path : Path)
  | present (path : Path)
  | notADirectory (path : Path)
  | other (message : String)
  deriving DecidableEq, Repr

inductive StoreError where
  | device (error : DeviceError)
  | batch (error : BatchError)
  | io (error : IoError)
  | corruptLog (fault : LogFault)
  | checksumMismatch (offset : Nat) (expected actual : UInt32)
  | invalidArgument (fault : ArgumentFault)
  | locked
  | invalidDatabase (fault : DirectoryFault)
  | closed
  deriving DecidableEq, Repr

def BatchError.storeMessage (error : BatchError) : String := "batch codec error: " ++ error.message

def LogFault.message : LogFault → String
  | undecodable offset error =>
    "undecodable batch at offset " ++ toString offset ++ ": " ++ error.storeMessage
  | other message => message

def ArgumentFault.message : ArgumentFault → String
  | settings fault => fault.message
  | orderMismatch given stored =>
    "comparator " ++ given ++ " does not match existing comparator " ++ stored
  | foreignSnapshot => "snapshot was taken from a different database"
  | frameTooLarge => "batch too large for a WAL frame"
  | other message => message

def DirectoryFault.message : DirectoryFault → String
  | missing path => path.text ++ " does not exist (create_if_missing is false)"
  | present path => path.text ++ " exists (error_if_exists is true)"
  | notADirectory path => path.text ++ " is not a directory"
  | other message => message

def StoreError.message : StoreError → String
  | device error => "storage error: " ++ error.message
  | batch error => error.storeMessage
  | io error => "I/O error: " ++ error.message
  | corruptLog fault => "WAL corruption: " ++ fault.message
  | checksumMismatch offset expected actual =>
    "checksum mismatch at offset " ++ toString offset ++ ": expected " ++ Text.Hex.word expected
      ++ ", got " ++ Text.Hex.word actual
  | invalidArgument fault => "invalid argument: " ++ fault.message
  | locked => "database locked: another process has exclusive access"
  | invalidDatabase fault => "invalid database: " ++ fault.message
  | closed => "database is closed"

end BatchStore
