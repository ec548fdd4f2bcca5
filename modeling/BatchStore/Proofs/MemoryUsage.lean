import BatchStore.Proofs.Pruning
import BatchStore.Proofs.VersionOrder

/-!
# Memory usage

The table counts the bytes of its keys and values as versions come and go. The count
is the sum over the versions it holds, and taking dropped versions off it never meets
the bound at zero: what is dropped has been counted before. This is kept by every
batch that is applied to any such table, and tables change in no other way.
-/

namespace BatchStore

namespace VersionTable

/-- The bytes of a key and of the value under it, for each of the versions. -/
def heldUnder (key : Bytes) : List Version → Nat
  | [] => 0
  | version :: versions => key.length + version.weight + heldUnder key versions

def heldIn : List (Bytes × List Version) → Nat
  | [] => 0
  | (key, versions) :: entries => heldUnder key versions + heldIn entries

/-- The bytes of all keys and values, those of a key as often as it has versions. -/
def held (table : VersionTable) : Nat := heldIn table.entries

theorem heldUnder_append (key : Bytes) (older newer : List Version) :
    heldUnder key (older ++ newer) = heldUnder key older + heldUnder key newer := by
  induction older with
  | nil => exact (Nat.zero_add _).symm
  | cons version older ih => rw [List.cons_append, heldUnder, heldUnder, ih, ← Nat.add_assoc]

theorem heldIn_place (key : Bytes) (versions : List Version)
    (entries : List (Bytes × List Version)) :
    heldIn (place key versions entries) = heldUnder key versions + heldIn entries := by
  unfold place
  split
  · next hempty =>
    rw [List.isEmpty_iff.mp hempty]
    exact (Nat.zero_add _).symm
  · rfl

/-- Giving a key other versions exchanges their bytes for those it had. -/
theorem heldIn_alter {key : Bytes} {versions : List Version}
    {entries : List (Bytes × List Version)} (h : Ascending entries) :
    heldIn (alter key (fun _ => versions) entries) +
        heldUnder key ((entries.lookup key).getD []) =
      heldIn entries + heldUnder key versions := by
  induction entries with
  | nil =>
    show heldIn (place key versions []) + 0 = 0 + _
    rw [heldIn_place, Nat.zero_add]
    rfl
  | cons head rest ih =>
    obtain ⟨first, older⟩ := head
    obtain ⟨-, hrest⟩ := List.pairwise_cons.mp h
    unfold alter
    split
    · next hlt =>
      have hall := Lookup.lt_of_lt_head (r := Before) h hlt
      rw [heldIn_place, Lookup.lookup_eq_none_of_lt (r := Before) hall,
        Nat.add_comm (heldUnder key versions)]
      rfl
    · next heq =>
      obtain rfl := Std.LawfulEqCmp.eq_of_compare heq
      rw [heldIn_place, List.lookup_cons_self, heldIn, Option.getD_some]
      omega
    · next hgt =>
      have hne : key ≠ first := (ne_of_compare_lt (Std.OrientedCmp.gt_iff_lt.mp hgt)).symm
      have hlater := ih hrest
      rw [Lookup.lookup_cons_of_ne hne, heldIn, heldIn]
      omega

/-- The versions that an insertion drops, the new one included when it goes at once. -/
def dropped (table : VersionTable) (key : Bytes) (version : Version) (horizon : Nat) :
    List Version :=
  let all := table.versions key ++ [version]
  all.take (all.length - (Version.prune horizon all).length)

/-- Takes a dropped version off the size, and fails when the size is smaller. -/
def releaseChecked (key : Bytes) (size : Nat) (old : Version) : Option Nat :=
  if key.length + old.weight ≤ size then some (size - (key.length + old.weight)) else none

/-- An insertion that fails where taking off the dropped versions would go below zero. -/
def insertChecked (table : VersionTable) (key : Bytes) (version : Version) (horizon : Nat) :
    Option VersionTable :=
  ((table.dropped key version horizon).foldlM (releaseChecked key)
    (table.size + key.length + version.weight)).map fun size =>
      { table.insert key version horizon with size }

/-- Applies a batch by such insertions. -/
def applyChecked (table : VersionTable) (batch : DecodedBatch) (horizon : Nat) : Option VersionTable :=
  batch.made.foldlM (fun table entry => table.insertChecked entry.1 entry.2 horizon) table

/-- Applies batches one after the other by such insertions. -/
def applyEachChecked (table : VersionTable) (applications : List Application) : Option VersionTable :=
  applications.foldlM (fun table application =>
    table.applyChecked application.batch application.horizon) table

theorem dropped_append_prune (table : VersionTable) (key : Bytes) (version : Version)
    (horizon : Nat) :
    table.dropped key version horizon ++
      Version.prune horizon (table.versions key ++ [version]) = table.versions key ++ [version] :=
  List.suffix_iff_eq_append.mp (Version.prune_suffix horizon _)

/-- While there is enough to take off, nothing stops at zero. -/
theorem foldlM_releaseChecked {key : Bytes} {versions : List Version} {size : Nat}
    (h : heldUnder key versions ≤ size) :
    versions.foldlM (releaseChecked key) size = some (size - heldUnder key versions) := by
  induction versions generalizing size with
  | nil => rfl
  | cons version versions ih =>
    rw [heldUnder] at h ⊢
    have hfirst : releaseChecked key size version = some (size - (key.length + version.weight)) :=
      if_pos (by omega)
    have hrest : heldUnder key versions ≤ size - (key.length + version.weight) := by omega
    have hlater := ih hrest
    rw [Nat.sub_sub] at hlater
    rw [List.foldlM_cons, hfirst]
    exact hlater

theorem foldl_release (key : Bytes) (versions : List Version) (size : Nat) :
    versions.foldl (fun size old => size - (key.length + old.weight)) size =
      size - heldUnder key versions := by
  induction versions generalizing size with
  | nil => rfl
  | cons version versions ih =>
    rw [List.foldl_cons, ih]
    exact Nat.sub_sub _ _ _

/-- A table whose keys are in order and whose size is what it holds. -/
structure Exact (table : VersionTable) : Prop where
  ordered : table.Ordered
  size : table.size = table.held

theorem exact_empty : empty.Exact := ⟨ordered_empty, rfl⟩

section Insert

variable {table : VersionTable} (h : table.Exact) (key : Bytes) (version : Version) (horizon : Nat)

include h

/-- What an insertion drops is there to be taken off, and the rest is held. -/
theorem Exact.held_insert :
    (table.insert key version horizon).held + heldUnder key (table.dropped key version horizon) =
      table.size + key.length + version.weight := by
  have hsplit := congrArg (heldUnder key) (table.dropped_append_prune key version horizon)
  rw [heldUnder_append, heldUnder_append] at hsplit
  have hnew : heldUnder key [version] = key.length + version.weight := rfl
  have hinsert : (table.insert key version horizon).held + heldUnder key (table.versions key) =
      table.held + heldUnder key (Version.prune horizon (table.versions key ++ [version])) :=
    heldIn_alter h.ordered
  have hsize := h.size
  omega

theorem Exact.insert : (table.insert key version horizon).Exact where
  ordered := ordered_insert h.ordered key version horizon
  size := by
    have hheld := h.held_insert key version horizon
    have hsize : (table.insert key version horizon).size =
        table.size + key.length + version.weight -
          heldUnder key (table.dropped key version horizon) := foldl_release key _ _
    omega

theorem Exact.insertChecked_eq :
    table.insertChecked key version horizon = some (table.insert key version horizon) := by
  have hheld := h.held_insert key version horizon
  unfold insertChecked
  rw [foldlM_releaseChecked (by omega), Option.map_some, ← foldl_release]
  rfl

end Insert

theorem Exact.foldl {table : VersionTable} (h : table.Exact) (horizon : Nat)
    (entries : List (Bytes × Version)) :
    (entries.foldl (takeIn horizon) table).Exact ∧
      entries.foldlM (fun table entry => table.insertChecked entry.1 entry.2 horizon) table =
        some (entries.foldl (takeIn horizon) table) := by
  induction entries generalizing table with
  | nil => exact ⟨h, rfl⟩
  | cons entry entries ih =>
    rw [List.foldlM_cons, h.insertChecked_eq]
    exact ih (h.insert entry.1 entry.2 horizon)

theorem Exact.apply {table : VersionTable} (h : table.Exact) (batch : DecodedBatch)
    (horizon : Nat) :
    (table.apply batch horizon).2.Exact ∧
      table.applyChecked batch horizon = some (table.apply batch horizon).2 := by
  rw [apply_eq_foldl]
  exact h.foldl horizon batch.made

theorem Exact.applyEach {table : VersionTable} (h : table.Exact)
    (applications : List Application) :
    (table.applyEach applications).Exact ∧
      table.applyEachChecked applications = some (table.applyEach applications) := by
  induction applications generalizing table with
  | nil => exact ⟨h, rfl⟩
  | cons application applications ih =>
    obtain ⟨hexact, hfirst⟩ := h.apply application.batch application.horizon
    unfold applyEachChecked
    rw [List.foldlM_cons, hfirst]
    exact ih hexact

/-- The table has come about by applying batches to an empty one. -/
def Built (table : VersionTable) : Prop := ∃ applications, table = empty.applyEach applications

theorem built_empty : empty.Built := ⟨[], rfl⟩

theorem Built.apply {table : VersionTable} (h : table.Built) (batch : DecodedBatch)
    (horizon : Nat) : (table.apply batch horizon).2.Built := by
  obtain ⟨applications, rfl⟩ := h
  refine ⟨applications ++ [⟨batch, horizon⟩], ?_⟩
  unfold applyEach
  rw [List.foldl_append]
  rfl

end VersionTable

namespace Database

theorem built_replayFrame (paranoid : Bool) :
    Frame.Preserves (fun _ => True) (replayFrame paranoid) fun state => state.1.Built := by
  intro state frame next _ hbuilt haccept
  rcases replayFrame_cases haccept with rfl | ⟨batch, -, rfl⟩
  · exact hbuilt
  · exact hbuilt.apply batch state.2

theorem built_write {δ : Type} [LogDevice δ] {db : Database} (h : db.table.Built) (log : δ)
    (settings : WriteSettings) (batch : Batch) :
    (db.write log settings batch).database.table.Built := by
  have houtcome := db.write_outcome log settings batch
  generalize db.write log settings batch = written at houtcome ⊢
  cases houtcome with
  | closed | empty | refused | unlogged => exact h
  | committed => exact h.apply _ db.horizon

end Database

namespace Session

variable {δ : Type} [LogDevice δ]

theorem built_step {session : Session δ} (h : session.database.table.Built) (action : Action) :
    (session.step action).2.database.table.Built := by
  rcases session.table_step action with ⟨settings, batch, hwrite⟩ | hsame
  · rw [hwrite]
    exact Database.built_write h session.log settings batch
  · rw [hsame]
    exact h

theorem built_run {session : Session δ} (h : session.database.table.Built)
    (actions : List Action) : (session.run actions).2.database.table.Built := by
  induction actions generalizing session with
  | nil => exact h
  | cons action actions ih => exact ih (built_step h action)

/-- Whatever log a database opens on, whatever is done with it then and whichever calls
fail: its memory usage is the bytes of the keys and values of all versions it holds. Its
table has come about by applying batches to an empty table, and neither these nor any
further ones ever take off more than there is. -/
theorem memory_exact {id : Nat} {settings : Settings} {directory : Option Directory}
    {log opened : δ} {db : Database} {actions : List Action} {events : List (Event δ)}
    {session : Session δ} (hopened : Database.recover id settings directory log = (.ok db, opened))
    (hrun : (start db opened).run actions = (events, session)) :
    session.database.memoryUsage = session.database.table.held ∧
    ∃ applications, session.database.table = VersionTable.empty.applyEach applications ∧
      ∀ more, VersionTable.empty.applyEachChecked (applications ++ more) =
        some (VersionTable.empty.applyEach (applications ++ more)) := by
  obtain ⟨state, hbuilt, rfl⟩ := Database.of_recover_preserves hopened
    (Database.built_replayFrame settings.paranoidChecks) VersionTable.built_empty
  have hstart : (start (Database.restored id settings directory state) opened).database.table.Built :=
    hbuilt
  have hend := built_run hstart actions
  rw [hrun] at hend
  obtain ⟨applications, htable⟩ := hend
  refine ⟨?_, applications, htable, fun more => (VersionTable.exact_empty.applyEach _).2⟩
  have hexact := (VersionTable.exact_empty.applyEach applications).1
  rw [← htable] at hexact
  exact hexact.size

/-- The log drops versions while it is replayed, also one that it has just made. Then a
snapshot holds versions back, a write is refused, and a later write drops what the
snapshot has held. -/
theorem memory_exact_falling :
    let numbered (sequence : UInt64) (batch : Batch) := (batch.setSequence sequence).data
    let image := Frame.encodeAll [numbered 7 ((Batch.empty.put [97] [49, 50]).put [98] [51]),
      numbered 3 ((Batch.empty.put [97] [52]).delete [98])]
    let db := Database.restored 0 {} none (⟨[([97], [⟨3, some [52]⟩])], 2⟩, 8)
    let actions : List Action := [.takeSnapshot, .put {} [97] [53, 54, 55], .delete {} [97],
      .write {} ⟨⟨0, 1⟩, [9]⟩, .dropSnapshot 0, .merge {} [97] [56]]
    let session := ((start db (⟨image⟩ : MemoryLog)).run actions).2
    Database.recover 0 {} none (⟨image⟩ : MemoryLog) = (.ok db, ⟨image⟩) ∧
      session.database.table.versions [97] = [⟨11, some [56]⟩] ∧
      session.database.memoryUsage = session.database.table.held ∧
      session.database.memoryUsage = 2 := by
  intro numbered image db actions session
  have hlog : (⟨image⟩ : MemoryLog).bytes = image := rfl
  have hreplayed : Database.replayed ({} : Settings).paranoidChecks image =
      .ok (⟨[([97], [⟨3, some [52]⟩])], 2⟩, 8) := by decide +kernel
  have hframes : Frame.encodeAll (Frame.payloads image) = image := by decide +kernel
  obtain ⟨after, hafter, hopened⟩ :=
    Database.recover_ok MemoryLog.reliable hlog hreplayed 0 none
  rw [hframes] at hafter
  have hkept : after = ⟨image⟩ := by
    cases after
    exact congrArg MemoryLog.mk hafter
  rw [hkept] at hopened
  have hrun : (start db (⟨image⟩ : MemoryLog)).run actions =
      (((start db (⟨image⟩ : MemoryLog)).run actions).1, session) := rfl
  obtain ⟨hexact, -⟩ := memory_exact hopened hrun
  exact ⟨hopened, by decide +kernel, hexact, by decide +kernel⟩

end Session

end BatchStore
