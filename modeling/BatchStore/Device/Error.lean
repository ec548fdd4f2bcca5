/-!
# Failures of files and log devices
-/

namespace BatchStore

/-- Why the file system refuses an operation. -/
inductive FileError where
  | notFound
  | notADirectory
  | isADirectory
  | alreadyExists
  /-- A name, or the whole path, is longer than the system allows. -/
  | nameTooLong
  /-- The path holds the character zero, which ends paths inside the system. -/
  | zeroInPath
  | invalidArgument
  deriving DecidableEq, Repr

/-- The system's text and number for the refusal; paths that the system cannot
even be asked for have no number. -/
def FileError.message : FileError → String
  | notFound => "No such file or directory (os error 2)"
  | notADirectory => "Not a directory (os error 20)"
  | isADirectory => "Is a directory (os error 21)"
  | alreadyExists => "File exists (os error 17)"
  | nameTooLong => "File name too long (os error 36)"
  | zeroInPath => "file name contained an unexpected NUL byte"
  | invalidArgument => "Invalid argument (os error 22)"

inductive IoError where
  | file (error : FileError)
  /-- A file ended before the bytes asked for. -/
  | shortRead
  /-- A text file holds bytes that are no text. -/
  | notText
  | other (message : String)
  deriving DecidableEq, Repr

def IoError.message : IoError → String
  | file error => error.message
  | shortRead => "failed to fill whole buffer"
  | notText => "stream did not contain valid UTF-8"
  | other message => message

inductive DeviceError where
  | io (error : IoError)
  | readPastEnd (offset length size : Nat)
  | truncateBeyondEnd (requested size : Nat)
  deriving DecidableEq, Repr

def DeviceError.message : DeviceError → String
  | io error => "I/O error: " ++ error.message
  | readPastEnd offset length size =>
    "read beyond end of log: offset " ++ toString offset ++ ", len " ++ toString length
      ++ ", size " ++ toString size
  | truncateBeyondEnd requested size =>
    "cannot truncate log of " ++ toString size ++ " bytes to " ++ toString requested ++ " bytes"

end BatchStore
