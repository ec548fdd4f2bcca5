import BatchStore.Device.Basic
import BatchStore.Error
import BatchStore.Journal.Frame

/-!
# Scanning a log for frames

A scan asks for the size of the log once and then reads frames from the front,
header first. It ends for good at the first frame that is not complete, or on
an error. A frame with a wrong checksum ends a lenient scan like a torn one
and is an error in a paranoid scan.
-/

namespace BatchStore

structure Scan where
  /-- The size of the log when the scan began. -/
  total : Nat
  /-- The end of the last intact frame. -/
  offset : Nat
  paranoid : Bool
  finished : Bool
  deriving DecidableEq, Repr

namespace Scan

variable {δ σ : Type} [LogDevice δ]

def start (log : δ) (paranoid : Bool) : Except StoreError Scan × δ :=
  match LogDevice.size log with
  | (.error error, log) => (.error (.device error), log)
  | (.ok total, log) => (.ok ⟨total, 0, paranoid, false⟩, log)

/-- The payload, if it has the checksum that its header holds. -/
def check (scan : Scan) (stored : UInt32) (payload : Bytes) : Except StoreError (Option Frame) :=
  let computed := Checksum.crc32 payload
  if computed = stored then .ok (some ⟨scan.offset, payload⟩)
  else if scan.paranoid then .error (.checksumMismatch scan.offset stored computed)
  else .ok none

/-- The frame at the scan's offset, if it is complete. -/
def readFrame (scan : Scan) (log : δ) : Except StoreError (Option Frame) × δ :=
  let remaining := scan.total - scan.offset
  if remaining < Frame.headerSize then (.ok none, log)
  else
    match LogDevice.readAt log scan.offset Frame.headerSize with
    | (.error error, log) => (.error (.device error), log)
    | (.ok header, log) =>
      let (length, stored) := Frame.decodeHeader header
      if remaining - Frame.headerSize < length then (.ok none, log)
      else
        match LogDevice.readAt log (scan.offset + Frame.headerSize) length with
        | (.error error, log) => (.error (.device error), log)
        | (.ok payload, log) => (scan.check stored payload, log)

/-- The next frame, or the error that ends the scan, or nothing once it has
ended. -/
def next (scan : Scan) (log : δ) : Option (Except StoreError Frame) × Scan × δ :=
  if scan.finished then (none, scan, log)
  else
    match scan.readFrame log with
    | (.ok (some frame), log) => (some (.ok frame), { scan with offset := frame.finish }, log)
    | (.ok none, log) => (none, { scan with finished := true }, log)
    | (.error error, log) => (some (.error error), { scan with finished := true }, log)

theorem offset_of_check {scan : Scan} {stored : UInt32} {payload : Bytes} {frame : Frame}
    (h : scan.check stored payload = .ok (some frame)) : frame = ⟨scan.offset, payload⟩ := by
  unfold check at h
  simp only at h
  split at h
  · simpa using h.symm
  · split at h <;> simp at h

theorem readFrame_offset {scan : Scan} {log after : δ} {frame : Frame}
    (h : scan.readFrame log = (.ok (some frame), after)) :
    frame.offset = scan.offset ∧ scan.offset + Frame.headerSize ≤ scan.total := by
  unfold readFrame at h
  simp only at h
  split at h
  · simp at h
  · next hr =>
    split at h
    · simp at h
    · split at h
      · simp at h
      · split at h
        · simp at h
        · simp only [Prod.mk.injEq] at h
          rw [offset_of_check h.1]
          exact ⟨rfl, by simp only [Frame.headerSize] at hr ⊢; omega⟩

/-- Every frame brings the scan nearer to the end of the log. -/
theorem next_advances {scan later : Scan} {log after : δ} {frame : Frame}
    (h : scan.next log = (some (.ok frame), later, after)) :
    later.total - later.offset < scan.total - scan.offset := by
  unfold next at h
  split at h
  · simp at h
  · split at h
    · next hf =>
      obtain ⟨ho, hle⟩ := readFrame_offset hf
      simp only [Prod.mk.injEq, Option.some.injEq, Except.ok.injEq] at h
      obtain ⟨hframe, hscan, _⟩ := h
      rw [hframe] at ho
      simp only [← hscan, hframe, Frame.finish, ho, Frame.headerSize] at hle ⊢
      omega
    · simp at h
    · simp at h

/-- How far a replay came. -/
structure Progress (σ δ : Type) where
  /-- The first error, of the log or of the one who took the frames. -/
  outcome : Except StoreError Unit
  state : σ
  /-- The number of frames taken. -/
  frames : Nat
  scan : Scan
  log : δ

/-- Hands the frames one by one to `accept`, until the scan ends or fails or a
frame is refused. -/
def replay (scan : Scan) (log : δ) (accept : σ → Frame → Except StoreError σ) (state : σ)
    (frames : Nat) : Progress σ δ :=
  match h : scan.next log with
  | (none, scan, log) => ⟨.ok (), state, frames, scan, log⟩
  | (some (.error error), scan, log) => ⟨.error error, state, frames, scan, log⟩
  | (some (.ok frame), later, after) =>
    match accept state frame with
    | .error error => ⟨.error error, state, frames, later, after⟩
    | .ok state =>
      have := next_advances h
      later.replay after accept state (frames + 1)
termination_by scan.total - scan.offset

end Scan

end BatchStore
