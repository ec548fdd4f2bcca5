import BatchStore.Device.File
import BatchStore.Proofs.Device
import BatchStore.Proofs.FileOperations

/-!
# Logs in files and in memory

As long as nothing else writes its file, an open log is a log in memory whose bytes
lie in the file: each call does to the file what it does to the memory, and answers
the same, errors and all that they tell included. So a log can be closed and opened
again between the calls, and no answer shows which of the two it is.
-/

namespace BatchStore

open LogDevice (Reliable)

namespace FileLog

variable {files opened : FileSystem} {path : Path} {file : FileId}

/-- The log in memory, put into a file of this tree. -/
def backed (base : FileSystem) (path : Path) (file : FileId) (memory : MemoryLog) : FileLog :=
  ⟨base.setContent file memory.bytes, ⟨path, file, memory.bytes.length⟩⟩

/-- An opened log is one in memory that holds what the file does. -/
theorem backed_content (hfile : file < files.contents.length) :
    backed files path file ⟨files.content file⟩ =
      ⟨files, ⟨path, file, (files.content file).length⟩⟩ := by
  unfold backed
  rw [FileSystem.setContent_content hfile]

/-- Only what was put into the file last is there. -/
theorem backed_backed (files : FileSystem) (path : Path) (file : FileId)
    (memory other : MemoryLog) :
    backed (backed files path file memory).files path file other =
      backed files path file other := by
  unfold backed
  rw [FileSystem.setContent_setContent]

section Calls

variable (hfile : file < files.contents.length)
include hfile

theorem bytes_backed (memory : MemoryLog) : (backed files path file memory).bytes = memory.bytes :=
  FileSystem.content_setContent hfile memory.bytes

theorem readAt_backed (memory : MemoryLog) (offset length : Nat) :
    (backed files path file memory).readAt offset length = memory.readAt offset length := by
  unfold readAt MemoryLog.readAt
  rw [bytes_backed hfile]
  show (if offset + length ≤ memory.bytes.length then _ else _) = _
  by_cases hle : offset + length ≤ memory.bytes.length
  · -- what is inside the size that the log remembers is in the file
    have hlength : ((memory.bytes.drop offset).take length).length = length := by
      rw [List.length_take, List.length_drop]
      omega
    rw [if_pos hle, if_pos hle]
    exact if_pos hlength
  · rw [if_neg hle, if_neg hle]
    rfl

theorem append_backed (memory : MemoryLog) (data : Bytes) :
    (backed files path file memory).append data = backed files path file (memory.append data) := by
  unfold append
  by_cases hempty : data = []
  · rw [if_pos hempty, hempty]
    unfold MemoryLog.append
    rw [List.append_nil]
  · rw [if_neg hempty, bytes_backed hfile]
    unfold backed MemoryLog.append
    rw [FileSystem.setContent_setContent, List.length_append]

theorem truncate_backed (memory : MemoryLog) (newSize : Nat) :
    (backed files path file memory).truncate newSize =
      ((memory.truncate newSize).1, backed files path file (memory.truncate newSize).2) := by
  unfold truncate MemoryLog.truncate
  rw [bytes_backed hfile]
  show (if newSize ≤ memory.bytes.length then _ else _) = _
  by_cases hle : newSize ≤ memory.bytes.length
  · have hlength : (memory.bytes.take newSize).length = newSize := List.length_take_of_le hle
    rw [if_pos hle, if_pos hle]
    simp only [backed, hlength, Nat.sub_self, List.replicate_zero, List.append_nil,
      FileSystem.setContent_setContent]
  · rw [if_neg hle, if_neg hle]
    rfl

/-- A log in a file that nothing else writes fails no call, and changes nothing of the
tree but the file. -/
theorem reliable_backed :
    Reliable fun (device : FileLog) bytes => device = backed files path file ⟨bytes⟩ where
  size := by
    rintro _ bytes rfl
    exact ⟨_, rfl, rfl⟩
  readAt := by
    rintro _ bytes offset length rfl hle
    refine ⟨_, ?_, rfl⟩
    show ((backed files path file ⟨bytes⟩).readAt offset length, _) = _
    rw [readAt_backed hfile, MemoryLog.readAt, if_pos hle]
  append := by
    rintro _ bytes data rfl
    exact ⟨_, rfl, append_backed hfile ⟨bytes⟩ data⟩
  flush := by
    rintro _ bytes rfl
    exact ⟨_, rfl, rfl⟩
  sync := by
    rintro _ bytes rfl
    exact ⟨_, rfl, rfl⟩
  truncate := by
    rintro _ bytes newSize rfl hle
    refine ⟨_, (truncate_backed hfile ⟨bytes⟩ newSize).trans ?_, rfl⟩
    rw [MemoryLog.truncate, if_pos hle]

end Calls

theorem openAt_ok {log : OpenLog} (h : openAt files path = (.ok log, opened)) :
    files.openFile path = (.ok log.file, opened) ∧
      log = ⟨path, log.file, (opened.content log.file).length⟩ := by
  unfold openAt at h
  split at h
  · cases (Prod.mk.inj h).1
  · next hopen =>
    obtain ⟨hlog, rfl⟩ := Prod.mk.inj h
    obtain rfl := Except.ok.inj hlog
    exact ⟨hopen, rfl⟩

theorem openAt_error {error : DeviceError} (h : openAt files path = (.error error, opened)) :
    opened = files := by
  unfold openAt at h
  split at h
  · next hopen =>
    obtain ⟨-, rfl⟩ := Prod.mk.inj h
    exact FileSystem.openFile_error hopen
  · cases (Prod.mk.inj h).1

theorem openAt_found (h : files.openFile path = (.ok file, files)) :
    openAt files path = (.ok ⟨path, file, (files.content file).length⟩, files) := by
  unfold openAt
  rw [h]

/-- Opening a log finds what the file held, and leaves all other files. -/
theorem openAt_backed (h : files.WellFormed) {log : OpenLog}
    (hopen : openAt files path = (.ok log, opened)) :
    (⟨opened, log⟩ : FileLog) =
        backed opened path log.file ⟨(files.file? path.names).getD []⟩ ∧
      log.file < opened.contents.length := by
  obtain ⟨hfile, hlog⟩ := openAt_ok hopen
  have hbecomes := FileSystem.becomes_openFile h hfile
  have hstored := hbecomes.wellFormed.stored (FileSystem.lookup_opened h hfile)
  have hentry := congrFun hbecomes.view path.names
  rw [Function.update_self] at hentry
  refine ⟨?_, hstored⟩
  rw [← (FileSystem.lookup_of_stored? hentry).2, backed_content hstored, ← hlog]

/-- What can be asked of a log that is open. -/
inductive Request where
  | size
  | readAt (offset length : Nat)
  | append (data : Bytes)
  | flush
  | sync
  | truncate (newSize : Nat)
  deriving DecidableEq, Repr

/-- A request, or the log is given up and opened again. -/
inductive Use where
  | ask (request : Request)
  | reopen
  deriving DecidableEq, Repr

inductive Answer where
  | number (result : Except DeviceError Nat)
  | bytes (result : Except DeviceError Bytes)
  | done (result : Except DeviceError Unit)
  deriving DecidableEq, Repr

def Request.answer {δ : Type} [LogDevice δ] (log : δ) : Request → Answer × δ
  | size => (LogDevice.size log).map .number id
  | readAt offset length => (LogDevice.readAt log offset length).map .bytes id
  | append data => (LogDevice.append log data).map .number id
  | flush => (LogDevice.flush log).map .done id
  | sync => (LogDevice.sync log).map .done id
  | truncate newSize => (LogDevice.truncate log newSize).map .done id

/-- Opens the file of a log again. -/
def reopened (device : FileLog) : Except DeviceError Unit × FileLog :=
  match openAt device.files device.log.path with
  | (.ok log, files) => (.ok (), ⟨files, log⟩)
  | (.error error, files) => (.error error, { device with files })

/-- A log in a file is given up and opened again at its path. -/
def serve (device : FileLog) : Use → Answer × FileLog
  | .ask request => request.answer device
  | .reopen => device.reopened.map .done id

/-- A log in memory stays as it is between its users. -/
def serveMemory (memory : MemoryLog) : Use → Answer × MemoryLog
  | .ask request => request.answer memory
  | .reopen => (.done (.ok ()), memory)

/-- The answers to one use after the other, and the log after them. -/
def answers {δ : Type} (serve : δ → Use → Answer × δ) (log : δ) : List Use → List Answer × δ
  | [] => ([], log)
  | first :: rest =>
    let (answer, after) := serve log first
    let (later, last) := answers serve after rest
    (answer :: later, last)

theorem answer_backed (hfile : file < files.contents.length) (memory : MemoryLog)
    (request : Request) :
    request.answer (backed files path file memory) =
      (request.answer memory).map id (backed files path file) := by
  cases request with
  | size => rfl
  | readAt offset length =>
    show (Answer.bytes ((backed files path file memory).readAt offset length), _) = _
    rw [readAt_backed hfile]
    rfl
  | append data =>
    show (_, (backed files path file memory).append data) = _
    rw [append_backed hfile]
    rfl
  | flush => rfl
  | sync => rfl
  | truncate newSize =>
    show ((backed files path file memory).truncate newSize).map Answer.done id = _
    rw [truncate_backed hfile]
    rfl

/-- The path of an open log leads to its file, whatever the file holds by now. -/
theorem reopened_backed (hfile : file < files.contents.length) (hslash : path.endsInSlash = false)
    (hlocate : files.locate path = .ok (some (.file file))) (memory : MemoryLog) :
    (backed files path file memory).reopened = (.ok (), backed files path file memory) := by
  have hagain := openAt_found (FileSystem.openFile_found hslash
    (FileSystem.locate_setContent hlocate file memory.bytes))
  rw [FileSystem.content_setContent hfile] at hagain
  unfold reopened
  show (match openAt (files.setContent file memory.bytes) path with
    | (.ok log, files) => _
    | (.error error, files) => _) = _
  rw [hagain]
  rfl

/-- What one use of a log in memory does, it does to the log in the file. -/
theorem serve_backed (hfile : file < files.contents.length)
    (hreopen : ∀ memory, (backed files path file memory).reopened =
      (.ok (), backed files path file memory)) (memory : MemoryLog) (one : Use) :
    serve (backed files path file memory) one =
      (serveMemory memory one).map id (backed files path file) := by
  cases one with
  | ask request => exact answer_backed hfile memory request
  | reopen =>
    unfold serve
    simp only [hreopen]
    rfl

theorem answers_backed (hfile : file < files.contents.length)
    (hreopen : ∀ memory, (backed files path file memory).reopened =
      (.ok (), backed files path file memory)) (memory : MemoryLog) (uses : List Use) :
    answers serve (backed files path file memory) uses =
      (answers serveMemory memory uses).map id (backed files path file) := by
  induction uses generalizing memory with
  | nil => rfl
  | cons one uses ih =>
    unfold answers
    rw [serve_backed hfile hreopen]
    simp only [Prod.map_fst, Prod.map_snd, id_eq, ih]
    rfl

/-- A log in a file and a log in memory that begin with the same bytes answer any uses
alike, be the file closed and opened again among them, and hold the same bytes after
them; the file is then read as these bytes. -/
theorem interchangeable (h : files.WellFormed) {log : OpenLog}
    (hopen : openAt files path = (.ok log, opened)) (uses : List Use) :
    let memory : MemoryLog := ⟨(files.file? path.names).getD []⟩
    let device : FileLog := ⟨opened, log⟩
    (answers serve device uses).1 = (answers serveMemory memory uses).1 ∧
      (answers serve device uses).2.bytes = (answers serveMemory memory uses).2.bytes ∧
      (answers serve device uses).2.files.read path =
        .ok (answers serveMemory memory uses).2.bytes := by
  intro memory device
  obtain ⟨hdevice, hstored⟩ := openAt_backed h hopen
  obtain ⟨hslash, hlocate⟩ := FileSystem.locate_opened h (openAt_ok hopen).1
  have hanswers := answers_backed hstored (reopened_backed hstored hslash hlocate) memory uses
  change device = backed opened path log.file memory at hdevice
  rw [hdevice, hanswers]
  refine ⟨rfl, bytes_backed hstored _, ?_⟩
  show (opened.setContent log.file (answers serveMemory memory uses).2.bytes).read path = _
  unfold FileSystem.read
  rw [FileSystem.locate_setContent hlocate]
  exact congrArg Except.ok (FileSystem.content_setContent hstored _)

/-- Three bytes are read up to their end and not past it, cut, opened again and grown. -/
theorem interchangeable_three_bytes :
    let files := (FileSystem.empty.write ⟨["f"]⟩ [1, 2, 3]).2
    let uses : List Use := [.ask (.readAt 3 0), .ask (.readAt 2 2), .ask (.append []),
      .ask (.truncate 4), .ask (.truncate 1), .reopen, .ask (.append [9]), .ask .size,
      .ask (.readAt 0 2)]
    ∃ log opened, openAt files ⟨["f"]⟩ = (.ok log, opened) ∧
      (answers serve ⟨opened, log⟩ uses).1 =
        [.bytes (.ok []), .bytes (.error (.readPastEnd 2 2 3)), .number (.ok 3),
          .done (.error (.truncateBeyondEnd 4 3)), .done (.ok ()), .done (.ok ()),
          .number (.ok 1), .number (.ok 2), .bytes (.ok [1, 9])] ∧
      (answers serve ⟨opened, log⟩ uses).2.files.read ⟨["f"]⟩ = .ok [1, 9] := by
  intro files uses
  have hfiles : files.WellFormed := FileSystem.wellFormed_empty.write _ _
  have hopen : openAt files ⟨["f"]⟩ = (.ok ⟨⟨["f"]⟩, 0, 3⟩, files) := by decide +kernel
  have hmemory : (files.file? (⟨["f"]⟩ : Path).names).getD [] = [1, 2, 3] := by decide +kernel
  obtain ⟨hanswers, -, hread⟩ := interchangeable hfiles hopen uses
  rw [hmemory] at hanswers hread
  exact ⟨_, _, hopen, hanswers, hread⟩

end FileLog

end BatchStore
