import BatchStore.Proofs.Refinement

/-!
# The order of versions

The versions of a key are kept in ascending order of their numbers, although
nothing checks a number when it comes in. A batch is applied over a horizon that
is either the highest number so far, in a replay, or below the number that the
batch begins with, in a live write. A number above the horizon is above all that
the table holds; a number at or below it makes the version hide everything
before it, and pruning leaves at most that one.
-/

namespace BatchStore

namespace Version

/-- Versions in strictly ascending order of their numbers. -/
def Rising (versions : List Version) : Prop :=
  versions.Pairwise fun older newer => older.sequence < newer.sequence

instance (versions : List Version) : Decidable (Rising versions) :=
  inferInstanceAs (Decidable (List.Pairwise _ _))

theorem Rising.prune {versions : List Version} (h : Rising versions) (horizon : Nat) :
    Rising (prune horizon versions) :=
  h.sublist (prune_suffix horizon versions).sublist

end Version

namespace VersionTable

/-- Each key stands once in the table, and has versions, in ascending order. -/
structure Tidy (table : VersionTable) : Prop where
  ordered : table.Ordered
  present : ∀ entry ∈ table.entries, entry.2 ≠ []
  rising : ∀ entry ∈ table.entries, Version.Rising entry.2

theorem Tidy.versions {table : VersionTable} (h : table.Tidy) (key : Bytes) :
    Version.Rising (table.versions key) := by
  unfold VersionTable.versions
  cases hlookup : table.entries.lookup key with
  | none => exact .nil
  | some versions => exact h.rising _ ((Lookup.lookup_eq_some_iff (r := Before) h.ordered).mp hlookup)

theorem mem_place_iff {key : Bytes} {versions : List Version}
    {entries : List (Bytes × List Version)} {entry : Bytes × List Version} :
    entry ∈ place key versions entries ↔ entry = (key, versions) ∧ versions ≠ [] ∨ entry ∈ entries := by
  unfold place
  split
  · next hempty =>
    have hnil := List.isEmpty_iff.mp hempty
    exact ⟨.inr, fun h => h.resolve_left fun hfresh => hfresh.2 hnil⟩
  · next hfull =>
    have hsome : versions ≠ [] := fun hnil => hfull (List.isEmpty_iff.mpr hnil)
    rw [List.mem_cons]
    exact or_congr_left (iff_self_and.mpr fun _ => hsome)

end VersionTable

/-- Every frame of a kind that is accepted leaves the property intact. -/
def Frame.Preserves {σ : Type} (kind : Frame → Prop) (accept : σ → Frame → Except StoreError σ)
    (p : σ → Prop) : Prop :=
  ∀ (state : σ) (frame : Frame) (next : σ), kind frame → p state → accept state frame = .ok next →
    p next

/-- Scans of such devices read frames of this kind only. -/
def Scan.Reads (δ : Type) [LogDevice δ] (kind : Frame → Prop) : Prop :=
  ∀ {scan later : Scan} {log after : δ} {frame : Frame},
    scan.next log = (some (.ok frame), later, after) → kind frame

section Replay

variable {δ σ : Type} [LogDevice δ] {kind : Frame → Prop}
  {accept : σ → Frame → Except StoreError σ} {p : σ → Prop}

/-- What every accepted frame preserves holds after a replay, whatever the
device answers. -/
theorem Scan.replay_preserves (hreads : Scan.Reads δ kind) (haccept : Frame.Preserves kind accept p)
    (scan : Scan) (log : δ) {state : σ} (h : p state) (frames : Nat) :
    p (scan.replay log accept state frames).state := by
  induction hn : scan.total - scan.offset using Nat.strongRecOn
    generalizing scan log state frames with
  | ind n ih =>
    subst hn
    rcases hnext : scan.next log with ⟨result, later, after⟩
    cases result with
    | none =>
      rw [replay_end hnext]
      exact h
    | some result =>
      cases result with
      | error error =>
        rw [replay_error hnext]
        exact h
      | ok frame =>
        rw [replay_frame hnext]
        cases hstate : accept state frame with
        | error error => exact h
        | ok next =>
          exact ih _ (next_advances hnext) later after (haccept _ _ _ (hreads hnext) h hstate) _ rfl

theorem Journal.recover_preserves (hreads : Scan.Reads δ kind)
    (haccept : Frame.Preserves kind accept p) (log : δ) (paranoid : Bool) {state : σ}
    (h : p state) : p (recover log paranoid accept state).state := by
  unfold recover
  rcases Scan.start log paranoid with ⟨result, after⟩
  cases result with
  | error error => exact h
  | ok scan =>
    have hreplay := Scan.replay_preserves hreads haccept scan after h 0
    simp only
    split
    · exact hreplay
    · split
      · exact hreplay
      · exact hreplay

end Replay

namespace Database

/-- A frame is passed over, or its batch is replayed. -/
theorem replayFrame_cases {paranoid : Bool} {state next : Replayed} {frame : Frame}
    (h : replayFrame paranoid state frame = .ok next) :
    next = state ∨ ∃ batch, DecodedBatch.ofBytes frame.payload = .ok batch ∧
      next = replayBatch state batch := by
  cases hdecode : DecodedBatch.ofBytes frame.payload with
  | ok batch =>
    rw [replayFrame_decoded hdecode] at h
    exact .inr ⟨batch, rfl, (Except.ok.inj h).symm⟩
  | error error =>
    rw [replayFrame_undecodable hdecode] at h
    split at h
    · cases h
    · exact .inl (Except.ok.inj h).symm

theorem ordered_replayFrame (paranoid : Bool) :
    Frame.Preserves (fun _ => True) (replayFrame paranoid) fun state => state.1.Ordered := by
  intro state frame next _ hordered haccept
  rcases replayFrame_cases haccept with rfl | ⟨batch, -, rfl⟩
  · exact hordered
  · exact VersionTable.ordered_applyRecords _ _ hordered _

section Recover

variable {δ : Type} [LogDevice δ] {id : Nat} {settings : Settings} {directory : Option Directory}
  {log opened : δ} {db : Database} (h : recover id settings directory log = (.ok db, opened))
include h

/-- A database that is recovered is restored from what the replay of its log came to. -/
theorem restored_of_recover : db = restored id settings directory (Journal.recover log
    settings.paranoidChecks (replayFrame settings.paranoidChecks) (VersionTable.empty, 0)).state := by
  unfold recover at h
  obtain ⟨hdb, -⟩ := Prod.mk.inj h
  cases hresult : (Journal.recover log settings.paranoidChecks
    (replayFrame settings.paranoidChecks) (VersionTable.empty, 0)).result with
  | error error =>
    rw [hresult] at hdb
    cases hdb
  | ok recovery =>
    rw [hresult] at hdb
    exact (Except.ok.inj hdb).symm

/-- What every frame keeps holds of a database that is recovered, whatever the device
answers. -/
theorem of_recover_preserves {p : Replayed → Prop}
    (hpreserves : Frame.Preserves (fun _ => True) (replayFrame settings.paranoidChecks) p)
    (hempty : p (VersionTable.empty, 0)) :
    ∃ state, p state ∧ db = restored id settings directory state :=
  ⟨_, Journal.recover_preserves (fun _ => trivial) hpreserves log settings.paranoidChecks hempty,
    restored_of_recover h⟩

end Recover

end Database

namespace Session

variable {δ : Type} [LogDevice δ]

/-- Only writes change the table. -/
theorem table_step (session : Session δ) (action : Action) :
    (∃ settings batch, session.step action = session.write settings batch) ∨
      (session.step action).2.database.table = session.database.table := by
  cases action with
  | write settings batch => exact .inl ⟨settings, batch, rfl⟩
  | put settings key value => exact .inl ⟨settings, _, rfl⟩
  | delete settings key => exact .inl ⟨settings, _, rfl⟩
  | merge settings key operand => exact .inl ⟨settings, _, rfl⟩
  | takeSnapshot =>
    right
    unfold step takeSnapshot
    cases hopen : session.database.isOpen with
    | true => rw [Database.takeSnapshot_open hopen]
    | false => rw [Database.takeSnapshot_closed hopen]
  | shareSnapshot number => exact .inr rfl
  | dropSnapshot number =>
    right
    show (session.dropSnapshot number).database.table = _
    unfold dropSnapshot
    cases session.held[number]? with
    | none => rfl
    | some held =>
      by_cases hlast : held.holders = 1
      · simp only [if_pos hlast]
        rfl
      · simp only [if_neg hlast]
  | close =>
    right
    obtain ⟨isOpen, hdatabase, -⟩ := session.database.close_effect session.log
    show (session.database.close session.log).2.1.table = _
    rw [hdatabase]

theorem ordered_step {session : Session δ} (h : session.database.table.Ordered)
    (action : Action) : (session.step action).2.database.table.Ordered := by
  rcases session.table_step action with ⟨settings, batch, hwrite⟩ | hsame
  · have houtcome := Database.write_outcome session.database session.log settings batch
    rw [hwrite, write]
    generalize session.database.write session.log settings batch = written at houtcome ⊢
    cases houtcome with
    | closed | empty | refused | unlogged => exact h
    | committed => exact VersionTable.ordered_applyRecords _ _ h _
  · rw [hsame]
    exact h

/-- The keys stand in order in every state of a database, whatever it is recovered from. -/
theorem ordered_of_recover {id : Nat} {settings : Settings} {directory : Option Directory}
    {log opened : δ} {db : Database}
    (hopened : Database.recover id settings directory log = (.ok db, opened))
    (actions : List Action) : ((start db opened).run actions).2.database.table.Ordered := by
  have hrun : ∀ {session : Session δ}, session.database.table.Ordered →
      (session.run actions).2.database.table.Ordered := by
    induction actions with
    | nil => exact fun h => h
    | cons action actions ih => exact fun h => ih (ordered_step h action)
  obtain ⟨state, hordered, rfl⟩ := Database.of_recover_preserves hopened
    (p := fun state => state.1.Ordered)
    (Database.ordered_replayFrame settings.paranoidChecks) VersionTable.ordered_empty
  exact hrun hordered

theorem last_le_step {session : Session δ} (hfits : session.database.last + 1 < UInt64.size)
    (action : Action) : session.database.last ≤ (session.step action).2.database.last := by
  rcases session.step_cases action with ⟨settings, batch, hwrite⟩ | ⟨-, hrests⟩
  · rw [hwrite]
    show _ ≤ (session.database.write session.log settings batch).database.last
    rcases Database.write_effect hfits session.log settings batch with
      ⟨hsame, -⟩ | ⟨decoded, hfollows, -, -, hdatabase⟩
    · exact Nat.le_of_eq (congrArg Database.last hsame).symm
    · rw [hdatabase]
      exact Database.last_le_applyBatch hfollows
  · exact Nat.le_of_eq hrests.last.symm

/-- Every snapshot that was taken is one of this database, at a number that it has
reached. -/
def Reached (session : Session δ) : Prop :=
  ∀ snapshot ∈ session.held.map (·.snapshot),
    snapshot.database = session.database.id ∧ snapshot.sequence ≤ session.database.last

theorem reached_step {session : Session δ} (h : session.Reached)
    (hfits : session.database.last + 1 < UInt64.size) (action : Action) :
    (session.step action).2.Reached := by
  have hid := (session.fixed_step action).2
  have hlast := last_le_step hfits action
  have hbefore : ∀ snapshot ∈ session.held.map (·.snapshot),
      snapshot.database = (session.step action).2.database.id ∧
        snapshot.sequence ≤ (session.step action).2.database.last := by
    intro snapshot hmem
    obtain ⟨hown, hle⟩ := h snapshot hmem
    exact ⟨hown.trans hid.symm, Nat.le_trans hle hlast⟩
  unfold Reached
  rcases session.held_step action with ⟨taken, rfl, hheld, -⟩ | ⟨hheld, -, -⟩
  · rw [hheld, List.map_append, List.map_singleton]
    exact List.forall_mem_append.mpr ⟨hbefore, List.forall_mem_singleton.mpr ⟨hid.symm, hlast⟩⟩
  · rw [hheld]
    exact hbefore

theorem reached_run {session : Session δ} (actions : List Action) (h : session.Reached)
    (hnumbered : session.Numbered actions) : (session.run actions).2.Reached := by
  induction actions generalizing session with
  | nil => exact h
  | cons action actions ih =>
    obtain ⟨hfits, hrest⟩ := hnumbered
    exact ih (reached_step h hfits action) hrest

end Session

end BatchStore
