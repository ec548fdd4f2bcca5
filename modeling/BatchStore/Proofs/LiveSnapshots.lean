import BatchStore.Proofs.Session

/-!
# Live snapshots over a session

Taking a snapshot registers it, and dropping its last holder takes it out of the
registry. New holders, other drops, writes and closing leave the registry alone. So it
counts the snapshots that have holders in every state of a session, whichever calls
fail.
-/

namespace BatchStore

theorem Database.snapshots_write {δ : Type} [LogDevice δ] (db : Database) (log : δ)
    (settings : WriteSettings) (batch : Batch) :
    (db.write log settings batch).database.snapshots = db.snapshots := by
  have houtcome := db.write_outcome log settings batch
  generalize db.write log settings batch = written at houtcome ⊢
  cases houtcome with
  | closed | empty | refused | unlogged | committed => rfl

/-- The snapshots that events hand out. -/
def Event.taken {δ : Type} (events : List (Event δ)) : List Snapshot :=
  events.filterMap fun
    | .tookSnapshot (.ok snapshot) => some snapshot
    | _ => none

theorem Event.taken_cons {δ : Type} (event : Event δ) (events : List (Event δ)) :
    taken (event :: events) = taken [event] ++ taken events := by
  unfold taken
  rw [← List.filterMap_append, List.singleton_append]

namespace Session

variable {δ : Type} {session : Session δ}

/-- The registry counts the snapshots that have holders. -/
def Counted (session : Session δ) : Prop :=
  session.database.snapshots.Counts (HeldSnapshot.live session.held)

theorem counted_start {db : Database} (h : db.snapshots = .empty) (log : δ) :
    (start db log).Counted := by
  show db.snapshots.Counts []
  rw [h]
  exact SnapshotRegistry.counts_empty

theorem counted_takeSnapshot (h : session.Counted) : session.takeSnapshot.2.Counted := by
  rw [takeSnapshot]
  cases hopen : session.database.isOpen with
  | false =>
    rw [Database.takeSnapshot_closed hopen]
    exact h
  | true =>
    rw [Database.takeSnapshot_open hopen]
    refine (SnapshotRegistry.counts_acquire h session.database.last).congr fun sequence => ?_
    rw [HeldSnapshot.live_append]
    exact (List.perm_append_singleton session.database.last _).symm.count_eq sequence

theorem counted_share (h : session.Counted) (number : Nat) :
    ({ session with held := session.held.modify number HeldSnapshot.share } :
      Session δ).Counted := by
  show session.database.snapshots.Counts _
  rw [HeldSnapshot.live_share]
  exact h

theorem counted_drop (h : session.Counted) (number : Nat) :
    (session.dropSnapshot number).Counted := by
  rw [dropSnapshot]
  cases hheld : session.held[number]? with
  | none => exact h
  | some held =>
    show (if held.holders = 1 then _ else session.database).snapshots.Counts
      (HeldSnapshot.live (session.held.modify number HeldSnapshot.leave))
    by_cases hlast : held.holders = 1
    · rw [if_pos hlast]
      refine (SnapshotRegistry.counts_release h held.snapshot.sequence).congr fun sequence => ?_
      exact ((HeldSnapshot.live_leave_last hheld hlast).count_eq sequence).symm
    · rw [if_neg hlast, HeldSnapshot.live_leave_of_ne hheld hlast]
      exact h

variable [LogDevice δ]

theorem counted_write (h : session.Counted) (settings : WriteSettings) (batch : Batch) :
    (session.write settings batch).2.Counted := by
  show (session.database.write session.log settings batch).database.snapshots.Counts _
  rw [Database.snapshots_write]
  exact h

theorem counted_close (h : session.Counted) : session.close.2.Counted := by
  obtain ⟨isOpen, hdatabase, -⟩ := session.database.close_effect session.log
  show (session.database.close session.log).2.1.snapshots.Counts _
  rw [hdatabase]
  exact h

theorem counted_step (h : session.Counted) (action : Action) :
    (session.step action).2.Counted := by
  cases action with
  | write settings batch => exact counted_write h settings batch
  | put settings key value => exact counted_write h settings _
  | delete settings key => exact counted_write h settings _
  | merge settings key operand => exact counted_write h settings _
  | takeSnapshot => exact counted_takeSnapshot h
  | shareSnapshot number => exact counted_share h number
  | dropSnapshot number => exact counted_drop h number
  | close => exact counted_close h

/-- A step takes a snapshot at the latest number, or it takes none and brings none back
to life. -/
theorem held_step (session : Session δ) (action : Action) :
    (∃ snapshot : Snapshot, snapshot = ⟨session.database.id, session.database.last⟩ ∧
      (session.step action).2.held = session.held ++ [⟨snapshot, 1⟩] ∧
      Event.taken [(session.step action).1] = [snapshot]) ∨
    (session.step action).2.held.map (·.snapshot) = session.held.map (·.snapshot) ∧
      HeldSnapshot.live (session.step action).2.held ⊆ HeldSnapshot.live session.held ∧
      Event.taken [(session.step action).1] = [] := by
  cases action with
  | write settings batch => exact .inr ⟨rfl, List.Subset.refl _, rfl⟩
  | put settings key value => exact .inr ⟨rfl, List.Subset.refl _, rfl⟩
  | delete settings key => exact .inr ⟨rfl, List.Subset.refl _, rfl⟩
  | merge settings key operand => exact .inr ⟨rfl, List.Subset.refl _, rfl⟩
  | takeSnapshot =>
    rw [step, takeSnapshot]
    cases hopen : session.database.isOpen with
    | false =>
      rw [Database.takeSnapshot_closed hopen]
      exact .inr ⟨rfl, List.Subset.refl _, rfl⟩
    | true =>
      rw [Database.takeSnapshot_open hopen]
      exact .inl ⟨_, rfl, rfl, rfl⟩
  | shareSnapshot number =>
    refine .inr ⟨HeldSnapshot.map_snapshot_modify HeldSnapshot.snapshot_share _ _, ?_, rfl⟩
    rw [step, HeldSnapshot.live_share]
    exact List.Subset.refl _
  | dropSnapshot number =>
    right
    rw [step, dropSnapshot]
    cases hheld : session.held[number]? with
    | none => exact ⟨rfl, List.Subset.refl _, rfl⟩
    | some held =>
      exact ⟨HeldSnapshot.map_snapshot_modify HeldSnapshot.snapshot_leave _ _,
        HeldSnapshot.live_leave_subset hheld, rfl⟩
  | close => exact .inr ⟨rfl, List.Subset.refl _, rfl⟩

/-- The held snapshots are those that were taken, in their order. -/
theorem map_snapshot_run (session : Session δ) (actions : List Action) :
    (session.run actions).2.held.map (·.snapshot) =
      session.held.map (·.snapshot) ++ Event.taken (session.run actions).1 := by
  induction actions generalizing session with
  | nil => exact (List.append_nil _).symm
  | cons action actions ih =>
    have hcons : Event.taken (session.run (action :: actions)).1 =
        Event.taken [(session.step action).1] ++
          Event.taken ((session.step action).2.run actions).1 := Event.taken_cons _ _
    rw [hcons, ← List.append_assoc]
    refine (ih (session.step action).2).trans (congrArg (· ++ _) ?_)
    rcases session.held_step action with ⟨snapshot, -, hheld, htaken⟩ | ⟨hheld, -, htaken⟩
    · rw [hheld, htaken, List.map_append, List.map_singleton]
    · rw [hheld, htaken, List.append_nil]

theorem counted_run (h : session.Counted) (actions : List Action) :
    (session.run actions).2.Counted := by
  induction actions generalizing session with
  | nil => exact h
  | cons action actions ih => exact ih (counted_step h action)

end Session

end BatchStore
