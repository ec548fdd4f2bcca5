import BatchStore.Proofs.Numbering

/-!
# The horizon over a session

The horizon of a write is the least of the latest number and the numbers that live
snapshots read at. A step gives snapshots up, takes one at the latest number or moves
the latest number on. So a number at or below the horizon stays there for the rest of
the session, and no snapshot is ever taken below it.
-/

namespace BatchStore

/-- The registry has one entry for each number that a held snapshot with holders reads at,
and gives such a snapshot up by taking one from its count. -/
structure SnapshotRegistry.Registers (registry : SnapshotRegistry) (held : List HeldSnapshot) :
    Prop extends registry.Counts (HeldSnapshot.live held) where
  size : registry.size = (HeldSnapshot.live held).length
  oldest : registry.oldest? = (HeldSnapshot.live held).min?
  released : ∀ sequence ∈ HeldSnapshot.live held,
    (registry.release sequence).countAt sequence + 1 = registry.countAt sequence

namespace SnapshotRegistry

theorem Counts.registers {registry : SnapshotRegistry} {held : List HeldSnapshot}
    (h : registry.Counts (HeldSnapshot.live held)) : registry.Registers held where
  toCounts := h
  size := h.size
  oldest := h.oldest
  released := by
    intro sequence hlive
    have hpositive := List.count_pos_iff.mpr hlive
    rw [(counts_release h sequence).count, h.count, List.count_erase_self]
    omega

end SnapshotRegistry

namespace Session

variable {δ : Type} [LogDevice δ] {session : Session δ}

/-- A snapshot that is live after a step was live before it, or was taken by it. -/
theorem live_step (session : Session δ) (action : Action) {sequence : Nat}
    (h : sequence ∈ HeldSnapshot.live (session.step action).2.held) :
    sequence ∈ HeldSnapshot.live session.held ∨ sequence = session.database.last := by
  rcases session.held_step action with ⟨snapshot, rfl, hheld, -⟩ | ⟨-, hsubset, -⟩
  · rw [hheld, HeldSnapshot.live_append] at h
    exact (List.mem_append.mp h).imp_right List.mem_singleton.mp
  · exact .inl (hsubset h)

theorem horizon_le_step (hcounted : session.Counted)
    (hfits : session.database.last + 1 < UInt64.size) (action : Action) :
    session.database.horizon ≤ (session.step action).2.database.horizon := by
  have hlast := session.database.horizon_le_last
  refine (Database.le_horizon_iff (counted_step hcounted action)).mpr
    ⟨Nat.le_trans hlast (last_le_step hfits action), fun sequence hlive => ?_⟩
  rcases session.live_step action hlive with hbefore | rfl
  · exact Database.horizon_le hcounted hbefore
  · exact hlast

/-- What lies at or below the horizon stays there: later writes have no lower horizon, and
later snapshots read no lower. -/
theorem floor_run {floor : Nat} (actions : List Action) (hcounted : session.Counted)
    (hnumbered : session.Numbered actions) (hfloor : floor ≤ session.database.horizon) :
    (∀ call ∈ Event.writes (session.run actions).1, floor ≤ call.database.horizon) ∧
      ∀ snapshot ∈ Event.taken (session.run actions).1, floor ≤ snapshot.sequence := by
  constructor
  · refine forall_writes_of_step (Q := fun db => floor ≤ db.horizon)
      (P := fun session actions =>
        session.Counted ∧ session.Numbered actions ∧ floor ≤ session.database.horizon)
      ?_ ⟨hcounted, hnumbered, hfloor⟩
    intro session action actions ⟨hcounted, ⟨hfits, hrest⟩, hfloor⟩
    exact ⟨hfloor, counted_step hcounted action, hrest,
      Nat.le_trans hfloor (horizon_le_step hcounted hfits action)⟩
  · induction actions generalizing session with
    | nil => exact fun snapshot hmem => nomatch hmem
    | cons action actions ih =>
      obtain ⟨hfits, hrest⟩ := hnumbered
      have hlater := ih (counted_step hcounted action) hrest
        (Nat.le_trans hfloor (horizon_le_step hcounted hfits action))
      intro snapshot hmem
      have hcons : Event.taken (session.run (action :: actions)).1 =
          Event.taken [(session.step action).1] ++
            Event.taken ((session.step action).2.run actions).1 := Event.taken_cons _ _
      rw [hcons, List.mem_append] at hmem
      rcases hmem with hhere | hmem
      · rcases session.held_step action with ⟨found, rfl, -, htaken⟩ | ⟨-, -, htaken⟩
        · rw [htaken] at hhere
          rw [List.mem_singleton.mp hhere]
          exact Nat.le_trans hfloor session.database.horizon_le_last
        · rw [htaken] at hhere
          cases hhere
      · exact hlater snapshot hmem

/-- A call that a state meets prunes with a horizon that lies at or below the snapshots
which are live then or taken later, and above no later horizon. -/
structure Bounds (found : Session δ) (call : WriteCall δ) (later : List (Event δ)) : Prop where
  database : call.database = found.database
  prunes : call.written.database.table =
    call.numbered.foldl (VersionTable.insertNumbered call.database.horizon) call.database.table
  live : ∀ held ∈ found.held, 0 < held.holders →
    call.database.horizon ≤ held.snapshot.sequence
  taken : ∀ snapshot ∈ Event.taken later, call.database.horizon ≤ snapshot.sequence
  writes : ∀ other ∈ Event.writes later, call.database.horizon ≤ other.database.horizon

theorem bounds_of_step {action : Action} {later : List Action} {call : WriteCall δ}
    (hcounted : session.Counted) (hnumbered : session.Numbered (action :: later))
    (hwrote : (session.step action).1 = .wrote call) :
    session.Bounds call ((session.step action).2.run later).1 := by
  obtain ⟨hfits, hrest⟩ := hnumbered
  rcases session.step_log_cases action with ⟨other, hother, hdatabase, -⟩ | ⟨hnone, -⟩
  · obtain rfl := Event.wrote.inj (hwrote.symm.trans hother)
    have hstep := horizon_le_step hcounted hfits action
    rw [← hdatabase] at hstep hfits
    obtain ⟨hwrites, htaken⟩ := floor_run later (counted_step hcounted action) hrest hstep
    refine ⟨hdatabase, WriteCall.table_written hfits, fun held hmem hlive => ?_, htaken, hwrites⟩
    obtain ⟨number, hheld⟩ := List.mem_iff_getElem?.mp hmem
    rw [hdatabase]
    exact Database.horizon_le hcounted (HeldSnapshot.mem_live hheld (Nat.ne_of_gt hlive))
  · exact absurd hwrote (hnone call)

/-- Whatever log a database opens on, and whatever is done with it then: its registry
counts the snapshots that were taken and still have holders. The horizon that a write
prunes with is at most the number of each snapshot that is live then or taken later, and
no later write has a lower one. -/
theorem horizon_below_snapshots {id : Nat} {settings : Settings} {directory : Option Directory}
    {log opened : δ} {db : Database} {actions : List Action} {events : List (Event δ)}
    (hopened : Database.recover id settings directory log = (.ok db, opened))
    (hrun : (start db opened).run actions = (events, session)) :
    session.held.map (·.snapshot) = Event.taken events ∧
    session.database.snapshots.Registers session.held ∧
    ((start db opened).Numbered actions →
      ∀ earlier action later call, actions = earlier ++ action :: later →
        let found := ((start db opened).run earlier).2
        (found.step action).1 = .wrote call →
          found.Bounds call ((found.step action).2.run later).1) := by
  have hfresh : db.snapshots = .empty :=
    congrArg Database.snapshots (Database.restored_of_recover hopened)
  have hstart : (start db opened).Counted := counted_start hfresh opened
  have hheld := map_snapshot_run (start db opened) actions
  have hcounted := counted_run hstart actions
  rw [hrun] at hheld hcounted
  refine ⟨hheld, SnapshotRegistry.Counts.registers hcounted, ?_⟩
  rintro hnumbered earlier action later call rfl found hwrote
  exact bounds_of_step (counted_run hstart earlier) (numbered_append.mp hnumbered).2 hwrote

/-- Two snapshots read at one number, and one of them has two holders. The horizon stands
there until the last of the three has gone, and falls to the latest number then. -/
theorem horizon_below_shared_snapshots :
    let db := Database.restored 0 {} none (VersionTable.empty, 0)
    let earlier : List Action := [.put {} [97] [49], .takeSnapshot, .takeSnapshot,
      .shareSnapshot 0, .put {} [97] [50], .dropSnapshot 1, .put {} [97] [51], .dropSnapshot 0]
    let later : List Action := [.takeSnapshot, .dropSnapshot 0, .dropSnapshot 2, .put {} [97] [53],
      .takeSnapshot]
    let actions := earlier ++ .put {} [97] [52] :: later
    let found := ((start db MemoryLog.empty).run earlier).2
    let ended := (start db MemoryLog.empty).run actions
    found.database.snapshots = ⟨[(1, 1)]⟩ ∧ found.held.map (·.holders) = [1, 0] ∧
      (Event.writes ended.1).map (·.database.horizon) = [0, 1, 1, 1, 4] ∧
      (Event.taken ended.1).map (·.sequence) = [1, 1, 4, 5] ∧
      ended.2.database.snapshots.Registers ended.2.held ∧
      found.Bounds ⟨found.database, found.log, {}, Batch.empty.put [97] [52]⟩
        ((found.step (.put {} [97] [52])).2.run later).1 := by
  intro db earlier later actions found ended
  have hempty : LogDevice.size MemoryLog.empty = (.ok 0, MemoryLog.empty) := rfl
  have hrun : (start db MemoryLog.empty).run actions = (ended.1, ended.2) := Prod.mk.eta.symm
  obtain ⟨-, hregisters, hbounds⟩ :=
    horizon_below_snapshots (Database.recover_empty hempty 0 {} none) hrun
  exact ⟨by decide +kernel, by decide +kernel, by decide +kernel, by decide +kernel, hregisters,
    hbounds (by decide +kernel) earlier _ later _ rfl rfl⟩

end Session

end BatchStore
