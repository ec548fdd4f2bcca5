import BatchStore.Proofs.Contents
import BatchStore.Proofs.Lookup
import BatchStore.Proofs.Versions

/-!
# The version table as a map with history

A table whose keys are in ascending order is read key by key: inserting a
version changes the reading of its own key alone, and for readers at or above
the horizon the change is what the version says. A run of records therefore
acts on such a reader like on a plain map, or not at all when its sequence
numbers are out of the reader's sight.
-/

namespace BatchStore.VersionTable

open Lookup (lookup_cons_of_ne lookup_eq_none_of_lt lt_of_lt_head)

/-- Entries in strictly ascending order of their keys. -/
def Ascending (entries : List (Bytes × List Version)) : Prop :=
  entries.Pairwise fun a b => compare a.1 b.1 = .lt

def Ordered (table : VersionTable) : Prop := Ascending table.entries

/-- All versions have numbers below a limit. -/
def Below (limit : Nat) (table : VersionTable) : Prop :=
  ∀ key, ∀ version ∈ table.versions key, version.sequence < limit

theorem ordered_empty : empty.Ordered := List.Pairwise.nil

theorem below_empty (limit : Nat) : empty.Below limit := by
  intro key version hv
  simp [empty, versions] at hv

theorem Below.mono {low high : Nat} {table : VersionTable} (h : table.Below low)
    (hle : low ≤ high) : table.Below high :=
  fun key version hv => Nat.lt_of_lt_of_le (h key version hv) hle

theorem get?_eq_read (table : VersionTable) (key : Bytes) (sequence : Nat) :
    table.get? key sequence = Version.read (table.versions key) sequence := rfl

/-- Readers that see every version of a table read alike. -/
theorem get?_eq_of_below {table : VersionTable} {low high : Nat} (h : table.Below (low + 1))
    (hle : low ≤ high) (key : Bytes) : table.get? key high = table.get? key low :=
  Version.read_eq_of_le hle fun version hv => Nat.le_of_lt_succ (h key version hv)

/-- The order of the keys in a table. -/
abbrev Before (a b : Bytes) : Prop := compare a b = .lt

instance : Std.Irrefl Before where
  irrefl := by
    intro key h
    have hself : compare key key = .eq := Std.ReflCmp.compare_self
    rw [Before, hself] at h
    cases h

instance : Trans Before Before Before := ⟨Std.TransCmp.lt_trans⟩

theorem ne_of_compare_lt {a b : Bytes} (h : compare a b = .lt) : a ≠ b :=
  Lookup.ne_of_lt (r := Before) h

theorem mem_place {key : Bytes} {versions : List Version} {entries : List (Bytes × List Version)}
    {entry : Bytes × List Version} (h : entry ∈ place key versions entries) :
    entry.1 = key ∨ entry ∈ entries := by
  unfold place at h
  split at h
  · exact .inr h
  · rcases List.mem_cons.mp h with rfl | h
    · exact .inl rfl
    · exact .inr h

theorem mem_alter {key : Bytes} {f : List Version → List Version}
    {entries : List (Bytes × List Version)} {entry : Bytes × List Version}
    (h : entry ∈ alter key f entries) : entry.1 = key ∨ entry ∈ entries := by
  induction entries with
  | nil => exact mem_place h
  | cons head rest ih =>
    obtain ⟨other, versions⟩ := head
    unfold alter at h
    split at h
    · exact mem_place h
    · rcases mem_place h with hkey | hrest
      · exact .inl hkey
      · exact .inr (List.mem_cons_of_mem _ hrest)
    · rcases List.mem_cons.mp h with rfl | hrest
      · exact .inr List.mem_cons_self
      · rcases ih hrest with hkey | hold
        · exact .inl hkey
        · exact .inr (List.mem_cons_of_mem _ hold)

theorem ascending_place {key : Bytes} {versions : List Version}
    {entries : List (Bytes × List Version)} (h : Ascending entries)
    (hlt : ∀ entry ∈ entries, compare key entry.1 = .lt) :
    Ascending (place key versions entries) := by
  unfold place
  split
  · exact h
  · exact List.pairwise_cons.mpr ⟨hlt, h⟩

theorem ascending_alter {key : Bytes} {f : List Version → List Version}
    {entries : List (Bytes × List Version)} (h : Ascending entries) :
    Ascending (alter key f entries) := by
  induction entries with
  | nil => exact ascending_place .nil (by simp)
  | cons head rest ih =>
    obtain ⟨other, versions⟩ := head
    obtain ⟨hhead, hrest⟩ := List.pairwise_cons.mp h
    unfold alter
    split
    · next hlt => exact ascending_place h (lt_of_lt_head (r := Before) h hlt)
    · next heq =>
      refine ascending_place hrest fun entry hmem => ?_
      rw [Std.LawfulEqCmp.eq_of_compare heq]
      exact hhead entry hmem
    · next hgt =>
      refine List.pairwise_cons.mpr ⟨fun entry hmem => ?_, ih hrest⟩
      rcases mem_alter hmem with hkey | hold
      · rw [hkey]
        exact Std.OrientedCmp.gt_iff_lt.mp hgt
      · exact hhead entry hold

/-- What stands under a key with these versions: nothing when there are none. -/
def present? (versions : List Version) : Option (List Version) :=
  if versions.isEmpty then none else some versions

theorem getD_present? (versions : List Version) : (present? versions).getD [] = versions := by
  cases versions <;> rfl

theorem present?_ne_nil (versions : List Version) : present? versions ≠ some [] := by
  cases versions <;> simp [present?]

theorem lookup_place {key : Bytes} {versions : List Version}
    {entries : List (Bytes × List Version)}
    (hlt : ∀ entry ∈ entries, compare key entry.1 = .lt) (other : Bytes) :
    (place key versions entries).lookup other =
      if other = key then present? versions else entries.lookup other := by
  unfold place present?
  by_cases ho : other = key
  · subst ho
    rw [if_pos rfl]
    split
    · exact lookup_eq_none_of_lt (r := Before) hlt
    · exact List.lookup_cons_self
  · rw [if_neg ho]
    split
    · rfl
    · exact lookup_cons_of_ne ho _ _

/-- Altering a key replaces its versions and no others. -/
theorem lookup_alter {key : Bytes} {f : List Version → List Version}
    {entries : List (Bytes × List Version)} (h : Ascending entries) (other : Bytes) :
    (alter key f entries).lookup other =
      if other = key then present? (f ((entries.lookup key).getD [])) else entries.lookup other := by
  induction entries with
  | nil => exact lookup_place (by simp) other
  | cons head rest ih =>
    obtain ⟨first, versions⟩ := head
    obtain ⟨hhead, hrest⟩ := List.pairwise_cons.mp h
    unfold alter
    split
    · next hlt =>
      have hall := lt_of_lt_head (r := Before) h hlt
      rw [lookup_place hall, lookup_eq_none_of_lt (r := Before) hall, Option.getD_none]
    · next heq =>
      obtain rfl := Std.LawfulEqCmp.eq_of_compare heq
      rw [lookup_place hhead, List.lookup_cons_self, Option.getD_some]
      by_cases ho : other = key
      · rw [if_pos ho, if_pos ho]
      · rw [if_neg ho, if_neg ho, lookup_cons_of_ne ho]
    · next hgt =>
      have hne : key ≠ first := (ne_of_compare_lt (Std.OrientedCmp.gt_iff_lt.mp hgt)).symm
      rw [lookup_cons_of_ne hne]
      by_cases ho : other = first
      · subst ho
        rw [List.lookup_cons_self, List.lookup_cons_self, if_neg hne.symm]
      · rw [lookup_cons_of_ne ho, lookup_cons_of_ne ho]
        exact ih hrest

theorem getD_lookup_alter {key : Bytes} {f : List Version → List Version}
    {entries : List (Bytes × List Version)} (h : Ascending entries) (other : Bytes) :
    ((alter key f entries).lookup other).getD [] =
      if other = key then f ((entries.lookup key).getD []) else (entries.lookup other).getD [] := by
  rw [lookup_alter h]
  split
  · exact getD_present? _
  · rfl

theorem ordered_insert {table : VersionTable} (h : table.Ordered) (key : Bytes)
    (version : Version) (horizon : Nat) : (table.insert key version horizon).Ordered :=
  ascending_alter h

theorem versions_insert {table : VersionTable} (h : table.Ordered) (key : Bytes)
    (version : Version) (horizon : Nat) (other : Bytes) :
    (table.insert key version horizon).versions other =
      if other = key then Version.prune horizon (table.versions key ++ [version])
      else table.versions other :=
  getD_lookup_alter h other

/-- A reader at or above the horizon sees the new version if its number is in
sight, and everything else as before. -/
theorem get?_insert {table : VersionTable} (h : table.Ordered) (key : Bytes) (version : Version)
    {horizon sequence : Nat} (hle : horizon ≤ sequence) (other : Bytes) :
    (table.insert key version horizon).get? other sequence =
      if other = key ∧ version.sequence ≤ sequence then version.value
      else table.get? other sequence := by
  rw [get?_eq_read, get?_eq_read, versions_insert h]
  by_cases ho : other = key
  · subst ho
    rw [if_pos rfl, Version.read_prune hle, Version.read_append_singleton]
    simp only [true_and]
  · rw [if_neg ho, if_neg fun hand => ho hand.1]

theorem below_insert {table : VersionTable} {limit : Nat} (h : table.Ordered)
    (hb : table.Below limit) (key : Bytes) (version : Version) (horizon : Nat) :
    (table.insert key version horizon).Below (max limit (version.sequence + 1)) := by
  intro other old hold
  rw [versions_insert h] at hold
  split at hold
  · have hmem := (Version.prune_suffix horizon _).subset hold
    rcases List.mem_append.mp hmem with hmem | hmem
    · have := hb key old hmem
      omega
    · rw [List.mem_singleton.mp hmem]
      omega
  · have := hb other old hold
    omega

theorem apply_eq_set {record : Record} {value : Option Bytes}
    (h : record.mutation? = some value) (contents : Contents) :
    contents.apply record = contents.set record.key value := by
  unfold Record.mutation? at h
  unfold Contents.apply
  cases hk : record.kind <;> simp only [hk, Option.some.injEq, reduceCtorEq] at h ⊢ <;> rw [h]

theorem apply_eq_self {record : Record} (h : record.mutation? = none) (contents : Contents) :
    contents.apply record = contents := by
  unfold Record.mutation? at h
  unfold Contents.apply
  cases hk : record.kind <;> simp only [hk, reduceCtorEq] at h ⊢

/-- How many of the records take a sequence number. -/
def mutations (records : List Record) : Nat :=
  records.countP fun record => record.mutation?.isSome

theorem mutations_append (first second : List Record) :
    mutations (first ++ second) = mutations first + mutations second :=
  List.countP_append

theorem next_applyRecords (horizon : Nat) (records : List Record) (table : VersionTable)
    (sequence : Nat) :
    (applyRecords horizon records (table, sequence)).2 = sequence + mutations records := by
  unfold mutations
  induction records generalizing table sequence with
  | nil => rfl
  | cons record records ih =>
    unfold applyRecords
    split
    · next hnone =>
      rw [ih, List.countP_cons_of_neg (by simp [hnone])]
    · next value hvalue =>
      rw [ih, List.countP_cons_of_pos (by simp [hvalue])]
      omega

theorem le_applyRecords (horizon : Nat) (records : List Record) (table : VersionTable)
    (sequence : Nat) : sequence ≤ (applyRecords horizon records (table, sequence)).2 := by
  rw [next_applyRecords]
  exact Nat.le_add_right _ _

/-- Records that take no number change nothing. -/
theorem applyRecords_eq_self (horizon : Nat) {records : List Record} (table : VersionTable)
    (sequence : Nat) (h : mutations records = 0) :
    applyRecords horizon records (table, sequence) = (table, sequence) := by
  unfold mutations at h
  induction records with
  | nil => rfl
  | cons record records ih =>
    unfold applyRecords
    split
    · next hnone =>
      rw [List.countP_cons_of_neg (by simp [hnone])] at h
      exact ih h
    · next value hvalue =>
      rw [List.countP_cons_of_pos (by simp [hvalue])] at h
      cases h

theorem ordered_applyRecords (horizon : Nat) (records : List Record) {table : VersionTable}
    (h : table.Ordered) (sequence : Nat) :
    (applyRecords horizon records (table, sequence)).1.Ordered := by
  induction records generalizing table sequence with
  | nil => exact h
  | cons record records ih =>
    unfold applyRecords
    split
    · exact ih h sequence
    · exact ih (ordered_insert h _ _ _) (sequence + 1)

theorem below_applyRecords (horizon : Nat) (records : List Record) {table : VersionTable}
    {limit : Nat} (h : table.Ordered) (hb : table.Below limit) (sequence : Nat) :
    (applyRecords horizon records (table, sequence)).1.Below
      (max limit (applyRecords horizon records (table, sequence)).2) := by
  induction records generalizing table limit sequence with
  | nil => exact hb.mono (Nat.le_max_left _ _)
  | cons record records ih =>
    unfold applyRecords
    split
    · exact ih h hb sequence
    · next value _ =>
      have hnext := ih (ordered_insert h record.key ⟨sequence, value⟩ horizon)
        (below_insert h hb record.key ⟨sequence, value⟩ horizon) (sequence + 1)
      have hle := le_applyRecords horizon records
        (table.insert record.key ⟨sequence, value⟩ horizon) (sequence + 1)
      refine hnext.mono ?_
      simp only [] at hle ⊢
      omega

/-- A reader that sees every number the records take reads the table like a
plain map that the records are applied to. -/
theorem get?_applyRecords {horizon reader : Nat} (hle : horizon ≤ reader) (records : List Record)
    {table : VersionTable} (h : table.Ordered) (sequence : Nat)
    (hsees : ∀ taken, sequence ≤ taken →
      taken < (applyRecords horizon records (table, sequence)).2 → taken ≤ reader) :
    (fun key => (applyRecords horizon records (table, sequence)).1.get? key reader) =
      Contents.applyAll (fun key => table.get? key reader) records := by
  induction records generalizing table sequence with
  | nil => rfl
  | cons record records ih =>
    unfold applyRecords at hsees ⊢
    cases hm : record.mutation? with
    | none =>
      simp only [hm] at hsees ⊢
      rw [Contents.applyAll_cons, apply_eq_self hm]
      exact ih h sequence hsees
    | some value =>
      simp only [hm] at hsees ⊢
      have hnext := le_applyRecords horizon records
        (table.insert record.key ⟨sequence, value⟩ horizon) (sequence + 1)
      have hseen : sequence ≤ reader := hsees sequence (Nat.le_refl _) hnext
      rw [ih (ordered_insert h _ _ _) (sequence + 1)
        fun taken hlow hhigh => hsees taken (Nat.le_of_succ_le hlow) hhigh]
      rw [Contents.applyAll_cons, apply_eq_set hm]
      congr 1
      funext key
      rw [get?_insert h _ _ hle]
      simp only [Contents.set, hseen, and_true]

/-- A reader below all numbers that the records take, but not below the
horizon, reads on as before. -/
theorem get?_applyRecords_of_lt {horizon reader : Nat} (hle : horizon ≤ reader) (records : List Record)
    {table : VersionTable} (h : table.Ordered) {sequence : Nat} (hlt : reader < sequence)
    (key : Bytes) :
    (applyRecords horizon records (table, sequence)).1.get? key reader = table.get? key reader := by
  induction records generalizing table sequence with
  | nil => rfl
  | cons record records ih =>
    unfold applyRecords
    split
    · exact ih h hlt
    · rw [ih (ordered_insert h _ _ _) (Nat.lt_succ_of_lt hlt), get?_insert h _ _ hle]
      exact if_neg fun hand => Nat.not_lt.mpr hand.2 hlt

/-- The mutations among the records have room in the count of a batch. -/
def FitsCount (records : List Record) : Prop := mutations records < UInt32.size

instance (records : List Record) : Decidable (FitsCount records) :=
  inferInstanceAs (Decidable (_ < _))

theorem fitsCount_of_length {records : List Record} (h : records.length < UInt32.size) :
    FitsCount records :=
  Nat.lt_of_le_of_lt List.countP_le_length h

/-- The mutations among the records, as far as they are counted. -/
def counted (records : List Record) : Nat := mutations records % UInt32.size

theorem counted_eq {records : List Record} (h : FitsCount records) :
    counted records = mutations records := Nat.mod_eq_of_lt h

theorem toNat_count_apply (table : VersionTable) (batch : DecodedBatch) (horizon : Nat) :
    (table.apply batch horizon).1.count.toNat = counted batch.records := by
  have hnext := next_applyRecords horizon batch.records table batch.first
  have hcount : (table.apply batch horizon).1.count =
      UInt32.ofNat ((applyRecords horizon batch.records (table, batch.first)).2 - batch.first) := rfl
  rw [hcount, hnext, Nat.add_sub_cancel_left]
  exact UInt32.toNat_ofNat'

theorem count_pos_apply (table : VersionTable) (batch : DecodedBatch) (horizon : Nat) :
    0 < (table.apply batch horizon).1.count ↔ 0 < counted batch.records := by
  rw [UInt32.lt_iff_toNat_lt, toNat_count_apply]
  rfl

theorem last?_apply (table : VersionTable) (batch : DecodedBatch) (horizon : Nat) :
    (table.apply batch horizon).1.last? =
      if 0 < counted batch.records then some (batch.first + counted batch.records - 1)
      else none := by
  unfold Applied.last?
  simp only [count_pos_apply, toNat_count_apply]
  rfl

theorem get?_eq_some_iff {table : VersionTable} (h : table.Ordered) {key value : Bytes}
    {sequence : Nat} :
    table.get? key sequence = some value ↔
      ∃ versions, (key, versions) ∈ table.entries ∧
        Version.read versions sequence = some value := by
  rw [get?_eq_read]
  unfold VersionTable.versions
  constructor
  · intro hread
    cases hl : table.entries.lookup key with
    | none => rw [hl] at hread; simp at hread
    | some versions =>
      rw [hl, Option.getD_some] at hread
      exact ⟨versions, (Lookup.lookup_eq_some_iff (r := Before) h).mp hl, hread⟩
  · rintro ⟨versions, hmem, hread⟩
    rw [(Lookup.lookup_eq_some_iff (r := Before) h).mpr hmem, Option.getD_some, hread]

theorem mem_visibleEntries {table : VersionTable} (h : table.Ordered) {key value : Bytes}
    {sequence : Nat} :
    (key, value) ∈ table.visibleEntries sequence ↔ table.get? key sequence = some value := by
  rw [get?_eq_some_iff h]
  unfold visibleEntries
  simp only [List.mem_filterMap, Prod.exists, Option.map_eq_some_iff, Prod.mk.injEq]
  constructor
  · rintro ⟨_, versions, hmem, _, hread, rfl, rfl⟩
    exact ⟨versions, hmem, hread⟩
  · rintro ⟨versions, hmem, hread⟩
    exact ⟨key, versions, hmem, value, hread, rfl, rfl⟩

/-- Each key is listed once. -/
theorem ascending_visibleEntries {table : VersionTable} (h : table.Ordered) (sequence : Nat) :
    (table.visibleEntries sequence).Pairwise fun a b => compare a.1 b.1 = .lt := by
  refine List.Pairwise.filterMap _ ?_ h
  intro a b hlt seenA hseenA seenB hseenB
  obtain ⟨_, _, rfl⟩ := Option.map_eq_some_iff.mp hseenA
  obtain ⟨_, _, rfl⟩ := Option.map_eq_some_iff.mp hseenB
  exact hlt

theorem nodup_visibleEntries {table : VersionTable} (h : table.Ordered) (sequence : Nat) :
    ((table.visibleEntries sequence).map (·.1)).Nodup := by
  rw [List.nodup_iff_pairwise_ne, List.pairwise_map]
  exact (ascending_visibleEntries h sequence).imp ne_of_compare_lt

/-- Tables that answer each key alike show the same entries in the same places. -/
theorem visibleEntries_congr {first second : VersionTable} (hfirst : first.Ordered)
    (hsecond : second.Ordered) {low high : Nat}
    (h : ∀ key, first.get? key low = second.get? key high) :
    first.visibleEntries low = second.visibleEntries high := by
  have hnodup : ∀ {table : VersionTable} (sequence : Nat), table.Ordered →
      (table.visibleEntries sequence).Nodup := by
    intro table sequence hordered
    refine (ascending_visibleEntries hordered sequence).imp fun {a b} hlt heq => ?_
    exact ne_of_compare_lt hlt (congrArg Prod.fst heq)
  have hperm : (first.visibleEntries low).Perm (second.visibleEntries high) := by
    rw [List.perm_ext_iff_of_nodup (hnodup low hfirst) (hnodup high hsecond)]
    rintro ⟨key, value⟩
    rw [mem_visibleEntries hfirst, mem_visibleEntries hsecond, h]
  refine List.Perm.eq_of_pairwise ?_ (ascending_visibleEntries hfirst low)
    (ascending_visibleEntries hsecond high) hperm
  intro a b _ _ hlt hgt
  have hswap := Std.OrientedCmp.gt_of_lt hlt
  rw [hgt] at hswap
  cases hswap

end BatchStore.VersionTable
