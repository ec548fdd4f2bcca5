import BatchStore.Bytes
import BatchStore.Device.Error

/-!
# Log devices

A log device keeps one byte string that grows at its end and can be cut short.
Every call may fail, and the state it leaves behind is part of the result.
-/

namespace BatchStore

class LogDevice (δ : Type) where
  size : δ → Except DeviceError Nat × δ
  /-- The bytes at an offset, all of them or none. -/
  readAt : δ → (offset length : Nat) → Except DeviceError Bytes × δ
  /-- Adds bytes at the end and returns the size before. -/
  append : δ → Bytes → Except DeviceError Nat × δ
  /-- Hands buffered bytes to the system. -/
  flush : δ → Except DeviceError Unit × δ
  /-- Forces the bytes to durable media. -/
  sync : δ → Except DeviceError Unit × δ
  /-- Cuts the byte string to a smaller size. -/
  truncate : δ → (newSize : Nat) → Except DeviceError Unit × δ

/-- The calls that change a log or make it durable. -/
inductive LogCall where
  | append (length : Nat)
  | flush
  | sync
  | truncate (newSize : Nat)
  deriving DecidableEq, Repr

def LogCall.describe : LogCall → String
  | append length => "append " ++ toString length
  | flush => "flush"
  | sync => "sync"
  | truncate newSize => "truncate " ++ toString newSize

end BatchStore
