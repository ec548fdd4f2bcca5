import BatchStore.Device.Basic
import BatchStore.FileSystem

/-!
# Logs held in files

An open log remembers the size it knows the file to have, which another writer
of the file can make wrong: reads are checked against the remembered size, and
appends go to the end that the file really has.
-/

namespace BatchStore

structure OpenLog where
  path : Path
  file : FileId
  size : Nat
  deriving DecidableEq, Repr

/-- An open log together with the file system it lies in. -/
structure FileLog where
  files : FileSystem
  log : OpenLog
  deriving DecidableEq, Repr

namespace FileLog

def bytes (device : FileLog) : Bytes := device.files.content device.log.file

def readAt (device : FileLog) (offset length : Nat) : Except DeviceError Bytes :=
  if offset + length ≤ device.log.size then
    let data := (device.bytes.drop offset).take length
    if data.length = length then .ok data else .error (.io .shortRead)
  else .error (.readPastEnd offset length device.log.size)

def append (device : FileLog) (data : Bytes) : FileLog :=
  if data = [] then device
  else
    { files := device.files.setContent device.log.file (device.bytes ++ data)
      log := { device.log with size := device.log.size + data.length } }

/-- Cuts the file to the new size, or fills it up with zeros where the file is
shorter than remembered. -/
def truncate (device : FileLog) (newSize : Nat) : Except DeviceError Unit × FileLog :=
  if newSize ≤ device.log.size then
    let kept := device.bytes.take newSize
    let filled := kept ++ List.replicate (newSize - kept.length) 0
    (.ok (), { files := device.files.setContent device.log.file filled
               log := { device.log with size := newSize } })
  else (.error (.truncateBeyondEnd newSize device.log.size), device)

/-- Opens the log at a path, making an empty file when there is none. -/
def openAt (files : FileSystem) (path : Path) : Except DeviceError OpenLog × FileSystem :=
  match files.openFile path with
  | (.error error, files) => (.error (.io (.file error)), files)
  | (.ok file, files) => (.ok ⟨path, file, (files.content file).length⟩, files)

/-- Opens the log at a path, making the directories above it first. -/
def openWithDirectories (files : FileSystem) (path : Path) :
    Except DeviceError OpenLog × FileSystem :=
  match path.parent? with
  | none => openAt files path
  | some parent =>
    match files.makeDirectories parent with
    | (.error error, files) => (.error (.io (.file error)), files)
    | (.ok _, files) => openAt files path

end FileLog

instance : LogDevice FileLog where
  size device := (.ok device.log.size, device)
  readAt device offset length := (device.readAt offset length, device)
  append device data := (.ok device.log.size, device.append data)
  flush device := (.ok (), device)
  sync device := (.ok (), device)
  truncate device newSize := device.truncate newSize

end BatchStore
