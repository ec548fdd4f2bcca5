import BatchStore.Device.File
import BatchStore.Device.Memory

/-!
# Logs of either kind

A log is held in memory or in a file. Mounting it beside the file system gives
a device.
-/

namespace BatchStore

inductive StoredLog where
  | memory (log : MemoryLog)
  | file (log : OpenLog)
  deriving DecidableEq, Repr

structure Mounted where
  files : FileSystem
  log : StoredLog
  deriving DecidableEq, Repr

namespace Mounted

/-- Lets the device of the log's own kind act. -/
def act {α : Type} (mounted : Mounted) (inMemory : MemoryLog → α × MemoryLog)
    (inFile : FileLog → α × FileLog) : α × Mounted :=
  match mounted.log with
  | .memory log =>
    let (result, log) := inMemory log
    (result, ⟨mounted.files, .memory log⟩)
  | .file log =>
    let (result, device) := inFile ⟨mounted.files, log⟩
    (result, ⟨device.files, .file device.log⟩)

end Mounted

instance : LogDevice Mounted where
  size mounted := mounted.act LogDevice.size LogDevice.size
  readAt mounted offset length :=
    mounted.act (LogDevice.readAt · offset length) (LogDevice.readAt · offset length)
  append mounted data := mounted.act (LogDevice.append · data) (LogDevice.append · data)
  flush mounted := mounted.act LogDevice.flush LogDevice.flush
  sync mounted := mounted.act LogDevice.sync LogDevice.sync
  truncate mounted newSize :=
    mounted.act (LogDevice.truncate · newSize) (LogDevice.truncate · newSize)

end BatchStore
