import BatchStore.Journal.Scan

/-!
# The write-ahead journal

Payloads are appended to a log as frames. Recovery replays the intact frames
and cuts off what comes after them, so that the next frame starts where a later
recovery looks for it.
-/

namespace BatchStore.Journal

variable {δ σ : Type} [LogDevice δ]

/-- Lifts the outcome of a device call. -/
def lift {α : Type} : Except DeviceError α × δ → Except StoreError α × δ
  | (.ok value, log) => (.ok value, log)
  | (.error error, log) => (.error (.device error), log)

def size (log : δ) : Except StoreError Nat × δ := lift (LogDevice.size log)

def flush (log : δ) : Except StoreError Unit × δ := lift (LogDevice.flush log)

def sync (log : δ) : Except StoreError Unit × δ := lift (LogDevice.sync log)

/-- Appends a payload as one frame and returns where it begins. The log is
then made durable, or only handed to the system. -/
def append (log : δ) (payload : Bytes) (durable : Bool) : Except StoreError Nat × δ :=
  if payload.length < UInt32.size then
    match LogDevice.append log (Frame.encode payload) with
    | (.error error, log) => (.error (.device error), log)
    | (.ok offset, log) =>
      match if durable then sync log else flush log with
      | (.error error, log) => (.error error, log)
      | (.ok (), log) => (.ok offset, log)
  else (.error (.invalidArgument .frameTooLarge), log)

/-- All intact frames, in order; the log is left alone. -/
def readAll (log : δ) (paranoid : Bool) : Except StoreError (List Frame) × δ :=
  match Scan.start log paranoid with
  | (.error error, log) => (.error error, log)
  | (.ok scan, log) =>
    let progress := scan.replay log (fun read frame => .ok (frame :: read)) [] 0
    (progress.outcome.map fun _ => progress.state.reverse, progress.log)

structure Recovery where
  /-- The number of frames replayed. -/
  frames : Nat
  /-- The number of bytes cut off. -/
  discarded : Nat
  deriving DecidableEq, Repr

structure Recovered (σ δ : Type) where
  result : Except StoreError Recovery
  state : σ
  log : δ

/-- Cuts the log behind the last intact frame, when there is more. -/
def trim (scan : Scan) (log : δ) : Except StoreError Nat × δ :=
  if scan.offset < scan.total then
    match LogDevice.truncate log scan.offset with
    | (.error error, log) => (.error (.device error), log)
    | (.ok _, log) =>
      match LogDevice.sync log with
      | (.error error, log) => (.error (.device error), log)
      | (.ok _, log) => (.ok (scan.total - scan.offset), log)
  else (.ok 0, log)

/-- Replays the intact frames through `accept` and then trims the log. An
error leaves the log as it is. -/
def recover (log : δ) (paranoid : Bool) (accept : σ → Frame → Except StoreError σ) (state : σ) :
    Recovered σ δ :=
  match Scan.start log paranoid with
  | (.error error, log) => ⟨.error error, state, log⟩
  | (.ok scan, log) =>
    let progress := scan.replay log accept state 0
    match progress.outcome with
    | .error error => ⟨.error error, progress.state, progress.log⟩
    | .ok _ =>
      match trim progress.scan progress.log with
      | (.error error, log) => ⟨.error error, progress.state, log⟩
      | (.ok discarded, log) => ⟨.ok ⟨progress.frames, discarded⟩, progress.state, log⟩

def describe : String := "WalManager \x7b .. \x7d"

end BatchStore.Journal
