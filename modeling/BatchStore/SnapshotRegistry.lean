import BatchStore.Settings.Basic

/-!
# Live snapshots

A database counts its live snapshots by the sequence number they read at. The
oldest of them holds back the dropping of versions. A snapshot lives as long as
it has holders.
-/

namespace BatchStore

/-- A snapshot and the number of its holders. -/
structure HeldSnapshot where
  snapshot : Snapshot
  holders : Nat
  deriving DecidableEq, Repr

namespace HeldSnapshot

/-- Adds a holder, unless the last one has left. -/
def share (held : HeldSnapshot) : HeldSnapshot :=
  if held.holders = 0 then held else { held with holders := held.holders + 1 }

/-- Takes a holder away. -/
def leave (held : HeldSnapshot) : HeldSnapshot := { held with holders := held.holders - 1 }

end HeldSnapshot

structure SnapshotRegistry where
  /-- The sequence numbers in ascending order, each with its snapshots. -/
  counts : List (Nat × Nat)
  deriving DecidableEq, Repr

namespace SnapshotRegistry

def empty : SnapshotRegistry := ⟨[]⟩

def insert (sequence : Nat) :
    List (Nat × Nat) → List (Nat × Nat)
  | [] => [(sequence, 1)]
  | (other, count) :: rest =>
    if sequence < other then (sequence, 1) :: (other, count) :: rest
    else if sequence = other then (other, count + 1) :: rest
    else (other, count) :: insert sequence rest

def erase (sequence : Nat) :
    List (Nat × Nat) → List (Nat × Nat)
  | [] => []
  | (other, count) :: rest =>
    if sequence = other then
      if count ≤ 1 then rest else (other, count - 1) :: rest
    else (other, count) :: erase sequence rest

/-- Counts one more snapshot at a sequence number. -/
def acquire (registry : SnapshotRegistry) (sequence : Nat) : SnapshotRegistry :=
  ⟨insert sequence registry.counts⟩

/-- Counts one snapshot less at a sequence number. -/
def release (registry : SnapshotRegistry) (sequence : Nat) : SnapshotRegistry :=
  ⟨erase sequence registry.counts⟩

/-- The lowest sequence number that a live snapshot reads at. -/
def oldest? (registry : SnapshotRegistry) : Option Nat :=
  registry.counts.head?.map (·.1)

/-- The number of live snapshots. -/
def size (registry : SnapshotRegistry) : Nat :=
  registry.counts.foldr (fun entry total => entry.2 + total) 0

end SnapshotRegistry

end BatchStore
