import BatchStore.Proofs.Numbering

/-!
# Pruning

Applying a batch drops versions of the keys that it touches. Reads at or above all
horizons so far come out as in a table that takes in the same versions and drops
none, whatever the order of the sequence numbers. And nothing that could be dropped
stays with a touched key: at most its first version is not above the horizon, and
that one is a value.
-/

namespace BatchStore

namespace Version

/-- At most one of the versions is not above the horizon; it comes first and is a
value. -/
structure Settled (horizon : Nat) (versions : List Version) : Prop where
  one : versions.countP (·.sequence ≤ horizon) ≤ 1
  first : ∀ version ∈ versions, version.sequence ≤ horizon →
    versions.head? = some version ∧ version.value ≠ none

theorem settled_nil (horizon : Nat) : Settled horizon [] where
  one := Nat.zero_le 1
  first := nofun

/-- Above the horizon nothing is settled yet; below it only the version in front
matters. -/
theorem settled_cons {horizon : Nat} {version : Version} {newer : List Version}
    (habove : ∀ later ∈ newer, horizon < later.sequence)
    (hvalue : version.sequence ≤ horizon → version.value ≠ none) :
    Settled horizon (version :: newer) where
  one := by
    have hnone : newer.countP (·.sequence ≤ horizon) = 0 := by
      simpa [List.countP_eq_zero] using habove
    rw [List.countP_cons, hnone]
    split <;> omega
  first := by
    intro later hmem hle
    rcases List.mem_cons.mp hmem with rfl | hnewer
    · exact ⟨rfl, hvalue hle⟩
    · have := habove later hnewer
      omega

theorem settled_of_above {horizon : Nat} {versions : List Version}
    (h : ∀ version ∈ versions, horizon < version.sequence) : Settled horizon versions := by
  cases versions with
  | nil => exact settled_nil horizon
  | cons version newer =>
    refine settled_cons (fun later hmem => h later (List.mem_cons_of_mem _ hmem)) fun hle => ?_
    have := h version List.mem_cons_self
    omega

theorem settled_prune (horizon : Nat) (versions : List Version) :
    Settled horizon (prune horizon versions) := by
  induction versions with
  | nil => exact settled_nil horizon
  | cons version newer ih =>
    unfold prune
    split
    · exact ih
    next hnone =>
    have habove : ∀ later ∈ newer, horizon < later.sequence := by simpa using hnone
    split
    · exact settled_of_above habove
    next hkept =>
    exact settled_cons habove fun hle hvalue => hkept ⟨hle, hvalue⟩

end Version

namespace DecodedBatch

/-- The versions that the mutations make, each with its key. -/
def made (batch : DecodedBatch) : List (Bytes × Version) :=
  ((Record.mutating batch.records).zipIdx batch.first).map fun entry =>
    (entry.1.key, entry.1.version entry.2)

/-- One of the mutations is of that key. -/
def Touches (batch : DecodedBatch) (key : Bytes) : Prop :=
  ∃ record ∈ batch.records, record.mutation?.isSome ∧ record.key = key

theorem touches_iff {batch : DecodedBatch} {key : Bytes} :
    batch.Touches key ↔ ∃ entry ∈ batch.made, entry.1 = key := by
  have hkeys : batch.made.map (·.1) = (Record.mutating batch.records).map (·.key) := by
    have hfirst := List.zipIdx_map_fst batch.first (Record.mutating batch.records)
    conv => rhs; rw [← hfirst]
    unfold made
    rw [List.map_map, List.map_map]
    rfl
  have hmem : (∃ entry ∈ batch.made, entry.1 = key) ↔ key ∈ batch.made.map (·.1) :=
    List.mem_map.symm
  rw [hmem, hkeys, List.mem_map]
  unfold Touches Record.mutating
  simp only [List.mem_filter, and_assoc]

end DecodedBatch

namespace VersionTable

/-- Adds a version and prunes its key. -/
def takeIn (horizon : Nat) (table : VersionTable) (entry : Bytes × Version) : VersionTable :=
  table.insert entry.1 entry.2 horizon

/-- Applying a batch adds the versions that it makes, one by one. -/
theorem apply_eq_foldl (table : VersionTable) (batch : DecodedBatch) (horizon : Nat) :
    (table.apply batch horizon).2 = batch.made.foldl (takeIn horizon) table := by
  unfold DecodedBatch.made
  rw [List.foldl_map]
  exact applyRecords_eq_foldl horizon batch.records table batch.first

theorem ordered_takeIn {table : VersionTable} (h : table.Ordered) (horizon : Nat)
    (entry : Bytes × Version) : (takeIn horizon table entry).Ordered :=
  ordered_insert h entry.1 entry.2 horizon

theorem lookup_takeIn {table : VersionTable} (h : table.Ordered) (horizon : Nat)
    (entry : Bytes × Version) (key : Bytes) :
    (takeIn horizon table entry).entries.lookup key =
      if key = entry.1 then
        present? (Version.prune horizon (table.versions entry.1 ++ [entry.2]))
      else table.entries.lookup key :=
  lookup_alter h key

/-- What stands under a key is settled, and a key without versions is absent. -/
def Compact (horizon : Nat) (table : VersionTable) (key : Bytes) : Prop :=
  Version.Settled horizon (table.versions key) ∧ table.entries.lookup key ≠ some []

theorem compact_takeIn {table : VersionTable} (h : table.Ordered) (horizon : Nat)
    (entry : Bytes × Version) : Compact horizon (takeIn horizon table entry) entry.1 := by
  have hlookup := lookup_takeIn h horizon entry entry.1
  rw [if_pos rfl] at hlookup
  unfold Compact VersionTable.versions
  rw [hlookup, getD_present?]
  exact ⟨Version.settled_prune horizon _, present?_ne_nil _⟩

theorem Compact.congr {horizon : Nat} {table later : VersionTable} {key : Bytes}
    (h : table.Compact horizon key)
    (hsame : later.entries.lookup key = table.entries.lookup key) : later.Compact horizon key := by
  unfold Compact VersionTable.versions at h ⊢
  rw [hsame]
  exact h

theorem lookup_foldl_takeIn {table : VersionTable} (h : table.Ordered) (horizon : Nat)
    {key : Bytes} (entries : List (Bytes × Version)) (hother : ∀ entry ∈ entries, entry.1 ≠ key) :
    (entries.foldl (takeIn horizon) table).entries.lookup key = table.entries.lookup key := by
  induction entries generalizing table with
  | nil => rfl
  | cons entry entries ih =>
    have hne : key ≠ entry.1 := (hother entry List.mem_cons_self).symm
    rw [List.foldl_cons, ih (ordered_takeIn h horizon entry)
      fun later hmem => hother later (List.mem_cons_of_mem _ hmem), lookup_takeIn h, if_neg hne]

/-- The last version that a key gets leaves it compact, and the versions of other
keys do not change that. -/
theorem compact_foldl_takeIn {table : VersionTable} (h : table.Ordered) (horizon : Nat)
    {key : Bytes} (entries : List (Bytes × Version))
    (hkey : table.Compact horizon key ∨ ∃ entry ∈ entries, entry.1 = key) :
    (entries.foldl (takeIn horizon) table).Compact horizon key := by
  induction entries generalizing table with
  | nil => exact hkey.resolve_right fun ⟨_, hmem, _⟩ => nomatch hmem
  | cons entry entries ih =>
    refine ih (ordered_takeIn h horizon entry) ?_
    by_cases hentry : key = entry.1
    · subst hentry
      exact .inl (compact_takeIn h horizon entry)
    · rcases hkey with hcompact | ⟨later, hmem, hlater⟩
      · have hsame := lookup_takeIn h horizon entry key
        rw [if_neg hentry] at hsame
        exact .inl (hcompact.congr hsame)
      · rcases List.mem_cons.mp hmem with rfl | hmem
        · exact absurd hlater.symm hentry
        · exact .inr ⟨later, hmem, hlater⟩

/-- Whatever versions a table holds: after a batch, a key that one of its mutations
touched has at most one version that is not above the horizon, in front of the others
and a value, and a key that has no version left is absent. What stands under any other
key is as before. -/
theorem pruning_complete {table : VersionTable} (h : table.Ordered) (batch : DecodedBatch)
    (horizon : Nat) (key : Bytes) :
    (batch.Touches key →
      Version.Settled horizon ((table.apply batch horizon).2.versions key) ∧
        ((table.apply batch horizon).2.versions key = [] →
          (table.apply batch horizon).2.entries.lookup key = none)) ∧
    (¬batch.Touches key →
      (table.apply batch horizon).2.entries.lookup key = table.entries.lookup key) := by
  rw [apply_eq_foldl]
  constructor
  · intro htouched
    have hmade := DecodedBatch.touches_iff.mp htouched
    obtain ⟨hsettled, hpresent⟩ := compact_foldl_takeIn h horizon batch.made (.inr hmade)
    refine ⟨hsettled, fun hempty => ?_⟩
    unfold VersionTable.versions at hempty
    cases hlookup : (batch.made.foldl (takeIn horizon) table).entries.lookup key with
    | none => rfl
    | some versions =>
      rw [hlookup, Option.getD_some] at hempty
      rw [hempty] at hlookup
      exact absurd hlookup hpresent
  · intro huntouched
    refine lookup_foldl_takeIn h horizon batch.made fun entry hmem hentry => ?_
    exact huntouched (DecodedBatch.touches_iff.mpr ⟨entry, hmem, hentry⟩)

/-- The versions of the first key are out of order and the second key has a version
above the horizon. The batch touches the first twice, removes the third and leaves the
second alone. -/
theorem pruning_complete_unordered :
    let table : VersionTable :=
      ⟨[([97], [⟨7, some [1]⟩, ⟨3, some [2]⟩, ⟨9, none⟩]), ([98], [⟨4, none⟩, ⟨8, some [3]⟩]),
        ([99], [⟨5, some [4]⟩])], 8⟩
    let batch : DecodedBatch := ⟨6, [.deletion [99], .put [97] [5], .logData [98], .merge [97] [6]]⟩
    let after := (table.apply batch 7).2
    table.Ordered ∧ after.versions [97] = [⟨7, some [5]⟩, ⟨8, some [6]⟩] ∧
      Version.Settled 7 (after.versions [97]) ∧ after.entries.lookup [99] = none ∧
      after.entries.lookup [98] = some [⟨4, none⟩, ⟨8, some [3]⟩] := by
  intro table batch after
  have hordered : table.Ordered := by
    unfold VersionTable.Ordered Ascending
    decide
  have hsettled := (pruning_complete hordered batch 7 [97]).1 (by unfold DecodedBatch.Touches; decide)
  have habsent := (pruning_complete hordered batch 7 [99]).1 (by unfold DecodedBatch.Touches; decide)
  have hsame := (pruning_complete hordered batch 7 [98]).2 (by unfold DecodedBatch.Touches; decide)
  exact ⟨hordered, rfl, hsettled.1, habsent.2 rfl, hsame⟩

/-- A batch that is applied, and the horizon of its pruning. -/
structure Application where
  batch : DecodedBatch
  horizon : Nat

/-- Applies batches one after the other. -/
def applyEach (table : VersionTable) (applications : List Application) : VersionTable :=
  applications.foldl (fun table application =>
    (table.apply application.batch application.horizon).2) table

/-- Adds a version to its key and drops none. -/
def retain (table : VersionTable) (entry : Bytes × Version) : VersionTable :=
  { entries := alter entry.1 (· ++ [entry.2]) table.entries
    size := table.size + entry.1.length + entry.2.weight }

/-- Takes in the versions that batches make, one after the other, and drops none. -/
def retainEach (table : VersionTable) (applications : List Application) : VersionTable :=
  (applications.flatMap (·.batch.made)).foldl retain table

/-- The versions among the entries that are of one key, in order. -/
def versionsOf (key : Bytes) (entries : List (Bytes × Version)) : List Version :=
  (entries.filter (·.1 = key)).map (·.2)

theorem ordered_retain {table : VersionTable} (h : table.Ordered) (entry : Bytes × Version) :
    (table.retain entry).Ordered :=
  ascending_alter h

theorem versions_retain {table : VersionTable} (h : table.Ordered) (entry : Bytes × Version)
    (key : Bytes) :
    (table.retain entry).versions key =
      if key = entry.1 then table.versions entry.1 ++ [entry.2] else table.versions key :=
  getD_lookup_alter h key

/-- A table that retains versions has all of them. -/
theorem versions_foldl_retain {table : VersionTable} (h : table.Ordered)
    (entries : List (Bytes × Version)) (key : Bytes) :
    (entries.foldl retain table).versions key = table.versions key ++ versionsOf key entries := by
  induction entries generalizing table with
  | nil => exact (List.append_nil _).symm
  | cons entry entries ih =>
    rw [List.foldl_cons, ih (ordered_retain h entry), versions_retain h]
    unfold versionsOf
    by_cases hkey : key = entry.1
    · subst hkey
      rw [if_pos rfl, List.filter_cons_of_pos (by simp), List.map_cons, List.append_assoc,
        List.singleton_append]
    · rw [if_neg hkey, List.filter_cons_of_neg (by simpa using Ne.symm hkey)]

theorem get?_retain {table : VersionTable} (h : table.Ordered) (entry : Bytes × Version)
    (key : Bytes) (reader : Nat) :
    (table.retain entry).get? key reader =
      if key = entry.1 ∧ entry.2.sequence ≤ reader then entry.2.value
      else table.get? key reader := by
  rw [get?_eq_read, get?_eq_read, versions_retain h]
  by_cases hkey : key = entry.1
  · subst hkey
    rw [if_pos rfl, Version.read_append_singleton]
    simp only [true_and]
  · rw [if_neg hkey, if_neg fun hand => hkey hand.1]

/-- Two tables that answer a reader alike. -/
structure AnswersAlike (reader : Nat) (table other : VersionTable) : Prop where
  ordered : table.Ordered
  other_ordered : other.Ordered
  same : ∀ key, table.get? key reader = other.get? key reader

/-- A reader at or above the horizon does not see whether the new version prunes its
key. -/
theorem AnswersAlike.takeIn {reader horizon : Nat} {table other : VersionTable}
    (h : AnswersAlike reader table other) (hle : horizon ≤ reader) (entry : Bytes × Version) :
    AnswersAlike reader (takeIn horizon table entry) (other.retain entry) where
  ordered := ordered_takeIn h.ordered horizon entry
  other_ordered := ordered_retain h.other_ordered entry
  same := by
    intro key
    have hpruned := get?_insert h.ordered entry.1 entry.2 hle key
    rw [get?_retain h.other_ordered, ← h.same]
    exact hpruned

theorem AnswersAlike.foldl {reader horizon : Nat} {table other : VersionTable}
    (h : AnswersAlike reader table other) (hle : horizon ≤ reader)
    (entries : List (Bytes × Version)) :
    AnswersAlike reader (entries.foldl (VersionTable.takeIn horizon) table)
      (entries.foldl retain other) := by
  induction entries generalizing table other with
  | nil => exact h
  | cons entry entries ih => exact ih (h.takeIn hle entry)

theorem AnswersAlike.applyEach {reader : Nat} {table other : VersionTable}
    (h : AnswersAlike reader table other) (applications : List Application)
    (hle : ∀ application ∈ applications, application.horizon ≤ reader) :
    AnswersAlike reader (table.applyEach applications) (other.retainEach applications) := by
  induction applications generalizing table other with
  | nil => exact h
  | cons application applications ih =>
    have hfirst := h.foldl (hle application List.mem_cons_self) application.batch.made
    rw [← apply_eq_foldl] at hfirst
    have hrest := ih hfirst fun later hmem => hle later (List.mem_cons_of_mem _ hmem)
    unfold retainEach at hrest ⊢
    rw [List.flatMap_cons, List.foldl_append]
    exact hrest

/-- Batches are applied to an empty table, each at any horizon. A reader at or above
all the horizons finds under every key, and as the whole list of entries, what it finds
in a table that has kept every version that the batches made. The numbers of the batches
may be any, also falling or repeated ones. -/
theorem pruning_invisible (applications : List Application) {reader : Nat}
    (hle : ∀ application ∈ applications, application.horizon ≤ reader) :
    (∀ key, (empty.retainEach applications).versions key =
      versionsOf key (applications.flatMap (·.batch.made))) ∧
    (∀ key, (empty.applyEach applications).get? key reader =
      (empty.retainEach applications).get? key reader) ∧
    (empty.applyEach applications).visibleEntries reader =
      (empty.retainEach applications).visibleEntries reader := by
  have halike : AnswersAlike reader (empty.applyEach applications)
      (empty.retainEach applications) :=
    AnswersAlike.applyEach ⟨ordered_empty, ordered_empty, fun _ => rfl⟩ applications hle
  refine ⟨fun key => ?_, halike.same, ?_⟩
  · exact versions_foldl_retain ordered_empty _ key
  · exact visibleEntries_congr halike.ordered halike.other_ordered halike.same

/-- A reader between two versions, at the highest of three horizons: a tombstone that
sits on it is dropped, and so is what it hides. -/
theorem pruning_invisible_tombstone :
    let applications : List Application :=
      [⟨⟨1, [.put [97] [1], .put [98] [2]]⟩, 0⟩,
        ⟨⟨3, [.deletion [97], .merge [98] [3], .put [98] [4]]⟩, 2⟩,
        ⟨⟨6, [.put [97] [5], .deletion [98]]⟩, 4⟩]
    (∀ application ∈ applications, application.horizon ≤ 4) ∧
      (empty.applyEach applications).versions [97] = [⟨6, some [5]⟩] ∧
      (empty.retainEach applications).versions [97] =
        [⟨1, some [1]⟩, ⟨3, none⟩, ⟨6, some [5]⟩] ∧
      (empty.retainEach applications).visibleEntries 4 = [([98], [3])] ∧
      (empty.applyEach applications).visibleEntries 4 =
        (empty.retainEach applications).visibleEntries 4 := by
  intro applications
  have hle : ∀ application ∈ applications, application.horizon ≤ 4 := by decide
  exact ⟨hle, by decide, by decide, by decide, (pruning_invisible applications hle).2.2⟩

end VersionTable

end BatchStore
