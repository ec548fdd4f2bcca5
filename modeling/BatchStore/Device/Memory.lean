import BatchStore.Device.Basic

/-!
# Logs held in memory

The plain log device: none of its calls fails but a read or a cut past the end.
-/

namespace BatchStore

structure MemoryLog where
  bytes : Bytes
  deriving DecidableEq, Repr

namespace MemoryLog

def empty : MemoryLog := ⟨[]⟩

def readAt (log : MemoryLog) (offset length : Nat) : Except DeviceError Bytes :=
  if offset + length ≤ log.bytes.length then .ok ((log.bytes.drop offset).take length)
  else .error (.readPastEnd offset length log.bytes.length)

def append (log : MemoryLog) (data : Bytes) : MemoryLog := ⟨log.bytes ++ data⟩

def truncate (log : MemoryLog) (newSize : Nat) : Except DeviceError Unit × MemoryLog :=
  if newSize ≤ log.bytes.length then (.ok (), ⟨log.bytes.take newSize⟩)
  else (.error (.truncateBeyondEnd newSize log.bytes.length), log)

end MemoryLog

instance : LogDevice MemoryLog where
  size log := (.ok log.bytes.length, log)
  readAt log offset length := (log.readAt offset length, log)
  append log data := (.ok log.bytes.length, log.append data)
  flush log := (.ok (), log)
  sync log := (.ok (), log)
  truncate log newSize := log.truncate newSize

end BatchStore
