import BatchStore.Device.Basic

/-!
# Monitored devices

A monitored device records the calls that reach it and can be told to fail
some of them. A planned fault lets a number of calls of its operation pass and
fails the next one before it reaches the device underneath; it is then used up.
A failing append first lets through the beginning of its data.
-/

namespace BatchStore

inductive LogOperation where
  | size
  | readAt
  | append
  | flush
  | sync
  | truncate
  deriving DecidableEq, Repr

def LogOperation.name : LogOperation → String
  | size => "size"
  | readAt => "read_at"
  | append => "append"
  | flush => "flush"
  | sync => "sync"
  | truncate => "truncate"

def LogOperation.ofName? (name : String) : Option LogOperation :=
  [size, readAt, append, flush, sync, truncate].find? (·.name = name)

structure PlannedFault where
  operation : LogOperation
  /-- The number of calls that still pass. -/
  skip : Nat
  /-- How many bytes of its data a failing append lets through. -/
  torn : Nat
  deriving DecidableEq, Repr

structure Monitored (δ : Type) where
  device : δ
  /-- The calls made so far, in order; reads are not recorded. -/
  calls : List LogCall
  faults : List PlannedFault
  deriving DecidableEq, Repr

namespace Monitored

variable {δ ε : Type}

def ofDevice (device : δ) : Monitored δ := ⟨device, [], []⟩

def map (f : δ → ε) (log : Monitored δ) : Monitored ε := ⟨f log.device, log.calls, log.faults⟩

/-- Plans a fault, in place of an earlier one for the same operation. -/
def plan (log : Monitored δ) (fault : PlannedFault) : Monitored δ :=
  { log with faults := fault :: log.faults.filter (·.operation ≠ fault.operation) }

def record (log : Monitored δ) (call : LogCall) : Monitored δ :=
  { log with calls := log.calls ++ [call] }

/-- Hands out the recorded calls and forgets them. -/
def takeCalls (log : Monitored δ) : List LogCall × Monitored δ :=
  (log.calls, { log with calls := [] })

/-- Counts a call of an operation against its plan: the fault, if it strikes
now, and the device with the plan brought up to date. -/
def strike (log : Monitored δ) (operation : LogOperation) :
    Option PlannedFault × Monitored δ :=
  match log.faults.find? (·.operation = operation) with
  | none => (none, log)
  | some fault =>
    let others := log.faults.filter (·.operation ≠ operation)
    if fault.skip = 0 then (some fault, { log with faults := others })
    else (none, { log with faults := { fault with skip := fault.skip - 1 } :: others })

def injected (operation : LogOperation) : DeviceError :=
  .io (.other ("injected " ++ operation.name ++ " fault"))

/-- Makes a call unless a planned fault strikes it. -/
def call {α : Type} (log : Monitored δ) (operation : LogOperation)
    (act : δ → Except DeviceError α × δ) : Except DeviceError α × Monitored δ :=
  match log.strike operation with
  | (some _, log) => (.error (injected operation), log)
  | (none, log) =>
    let (result, device) := act log.device
    (result, { log with device })

/-- Appends; a fault that strikes lets the first `torn` bytes through. -/
def append [LogDevice δ] (log : Monitored δ) (data : Bytes) :
    Except DeviceError Nat × Monitored δ :=
  match log.strike .append with
  | (some fault, log) =>
    let (_, device) := LogDevice.append log.device (data.take fault.torn)
    (.error (injected .append), { log with device })
  | (none, log) =>
    let (result, device) := LogDevice.append log.device data
    (result, { log with device })

end Monitored

instance {δ : Type} [LogDevice δ] : LogDevice (Monitored δ) where
  size log := log.call .size LogDevice.size
  readAt log offset length := log.call .readAt fun device => LogDevice.readAt device offset length
  append log data := (log.record (.append data.length)).append data
  flush log := (log.record .flush).call .flush LogDevice.flush
  sync log := (log.record .sync).call .sync LogDevice.sync
  truncate log newSize :=
    (log.record (.truncate newSize)).call .truncate fun device => LogDevice.truncate device newSize

end BatchStore
