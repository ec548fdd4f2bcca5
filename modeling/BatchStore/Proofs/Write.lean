import BatchStore.Database.Basic
import BatchStore.Proofs.Batch
import BatchStore.Proofs.SnapshotRegistry
import BatchStore.Proofs.VersionTable

/-!
# What a write does

The outcomes of a write, each with all it leaves behind, and the effect of an
applied batch on the table and on the latest sequence number. Later proofs go by
these outcomes and never look into the write itself.
-/

namespace BatchStore.Database

variable {δ : Type} [LogDevice δ]

/-- The batch under the next sequence number of the database. -/
def number (db : Database) (batch : Batch) : Batch :=
  batch.setSequence (UInt64.ofNat (db.last + 1))

/-- All that a write can come to. -/
inductive Outcome (db : Database) (log : δ) (settings : WriteSettings) (batch : Batch) :
    Written δ → Prop where
  | closed (hopen : db.isOpen = false) : Outcome db log settings batch ⟨.error .closed, batch, db, log⟩
  | empty (hopen : db.isOpen = true) (hempty : batch.isEmpty = true) :
      Outcome db log settings batch ⟨.ok db.last, batch, db, log⟩
  | refused {error : BatchError} (hopen : db.isOpen = true) (hempty : batch.isEmpty = false)
      (hdecode : DecodedBatch.ofBytes (db.number batch).data = .error error) :
      Outcome db log settings batch ⟨.error (.batch error), batch, db, log⟩
  | unlogged {decoded : DecodedBatch} {error : StoreError} {after : δ}
      (hopen : db.isOpen = true) (hempty : batch.isEmpty = false)
      (hdecode : DecodedBatch.ofBytes (db.number batch).data = .ok decoded)
      (hlog : logBatch settings log (db.number batch).data = (.error error, after)) :
      Outcome db log settings batch ⟨.error error, batch, db, after⟩
  | committed {decoded : DecodedBatch} {after : δ}
      (hopen : db.isOpen = true) (hempty : batch.isEmpty = false)
      (hdecode : DecodedBatch.ofBytes (db.number batch).data = .ok decoded)
      (hlog : logBatch settings log (db.number batch).data = (.ok (), after)) :
      Outcome db log settings batch
        ⟨.ok (db.applyBatch decoded).1, db.number batch, (db.applyBatch decoded).2, after⟩

theorem write_outcome (db : Database) (log : δ) (settings : WriteSettings) (batch : Batch) :
    Outcome db log settings batch (db.write log settings batch) := by
  unfold write
  by_cases hopen : db.isOpen = true
  · rw [if_neg (by simp [hopen])]
    by_cases hempty : batch.isEmpty = true
    · rw [if_pos hempty]
      exact .empty hopen hempty
    · rw [if_neg hempty]
      have hfull : batch.isEmpty = false := Bool.eq_false_iff.mpr hempty
      unfold commit
      cases hdecode : DecodedBatch.ofBytes (db.number batch).data with
      | error error =>
        simp only [number] at hdecode
        simp only [hdecode]
        exact .refused hopen hfull hdecode
      | ok decoded =>
        rcases hlog : logBatch settings log (db.number batch).data with ⟨result, after⟩
        simp only [number] at hdecode hlog
        cases result with
        | error error =>
          simp only [hdecode, hlog]
          exact .unlogged hopen hfull hdecode hlog
        | ok done =>
          simp only [hdecode, hlog]
          exact .committed hopen hfull hdecode hlog
  · have hclosed : db.isOpen = false := Bool.eq_false_iff.mpr hopen
    rw [if_pos (by simp [hclosed])]
    exact .closed hclosed

/-- A failed write leaves the database and the batch as they were. -/
theorem write_error {db : Database} {log : δ} {settings : WriteSettings} {batch : Batch}
    {error : StoreError} (h : (db.write log settings batch).result = .error error) :
    (db.write log settings batch).database = db ∧ (db.write log settings batch).batch = batch := by
  have houtcome := write_outcome db log settings batch
  generalize db.write log settings batch = written at h houtcome
  cases houtcome with
  | closed => exact ⟨rfl, rfl⟩
  | empty => cases h
  | refused => exact ⟨rfl, rfl⟩
  | unlogged => exact ⟨rfl, rfl⟩
  | committed => cases h

theorem horizon_le_last (db : Database) : db.horizon ≤ db.last := by
  unfold horizon
  split
  · exact Nat.min_le_right _ _
  · exact Nat.le_refl _

/-- The horizon is the least of the latest number and the numbers that live snapshots
read at. -/
theorem le_horizon_iff {db : Database} {live : List Nat} (h : db.snapshots.Counts live)
    {number : Nat} : number ≤ db.horizon ↔ number ≤ db.last ∧ ∀ sequence ∈ live, number ≤ sequence := by
  rw [horizon, h.oldest]
  cases hleast : live.min? with
  | none => simp [List.min?_eq_none_iff.mp hleast]
  | some least =>
    obtain ⟨hmem, hle⟩ := List.min?_eq_some_iff.mp hleast
    simp only [Nat.le_min]
    constructor
    · rintro ⟨hleast, hlast⟩
      exact ⟨hlast, fun sequence hlive => Nat.le_trans hleast (hle sequence hlive)⟩
    · rintro ⟨hlast, hall⟩
      exact ⟨hall least hmem, hlast⟩

/-- No live snapshot reads below the horizon. -/
theorem horizon_le {db : Database} {live : List Nat} (h : db.snapshots.Counts live)
    {sequence : Nat} (hmem : sequence ∈ live) : db.horizon ≤ sequence :=
  ((le_horizon_iff h).mp (Nat.le_refl _)).2 sequence hmem

/-- A decoded batch whose mutations take the numbers after the latest. -/
def Follows (db : Database) (batch : DecodedBatch) : Prop := batch.first = db.last + 1

theorem follows_of_decoded {db : Database} {batch : Batch} {decoded : DecodedBatch}
    (hfits : db.last + 1 < UInt64.size)
    (h : DecodedBatch.ofBytes (db.number batch).data = .ok decoded) :
    db.Follows decoded ∧ decoded.records = batch.records := by
  rw [DecodedBatch.ofBytes_setSequence h]
  exact ⟨UInt64.toNat_ofNat_of_lt' hfits, rfl⟩

theorem table_applyBatch (db : Database) (batch : DecodedBatch) :
    (db.applyBatch batch).2.table =
      (VersionTable.applyRecords db.horizon batch.records (db.table, batch.first)).1 := rfl

/-- The latest number moves on by the count of the mutations. -/
theorem last_applyBatch_counted {db : Database} {batch : DecodedBatch} (h : db.Follows batch) :
    (db.applyBatch batch).2.last = db.last + VersionTable.counted batch.records := by
  unfold Follows at h
  unfold applyBatch
  simp only [VersionTable.last?_apply]
  split
  · rw [Option.getD_some]
    omega
  · rw [Option.getD_none]
    omega

/-- Each mutation takes a number. -/
theorem last_applyBatch {db : Database} {batch : DecodedBatch} (h : db.Follows batch)
    (hcount : VersionTable.FitsCount batch.records) :
    (db.applyBatch batch).2.last = db.last + VersionTable.mutations batch.records := by
  rw [last_applyBatch_counted h, VersionTable.counted_eq hcount]

theorem last_le_applyBatch {db : Database} {batch : DecodedBatch} (h : db.Follows batch) :
    db.last ≤ (db.applyBatch batch).2.last := by
  rw [last_applyBatch_counted h]
  exact Nat.le_add_right _ _

/-- What a reader at a sequence number finds. -/
def contentsAt (db : Database) (sequence : Nat) : Contents :=
  fun key => db.table.get? key sequence

/-- The keys are in order and no version is above the latest number. -/
structure Sound (db : Database) : Prop where
  ordered : db.table.Ordered
  below : db.table.Below (db.last + 1)

theorem sound_applyBatch {db : Database} {batch : DecodedBatch} (h : db.Follows batch)
    (hcount : VersionTable.FitsCount batch.records) (hsound : db.Sound) :
    (db.applyBatch batch).2.Sound where
  ordered := VersionTable.ordered_applyRecords db.horizon batch.records hsound.ordered batch.first
  below := by
    have hnext := VersionTable.below_applyRecords db.horizon batch.records hsound.ordered
      hsound.below batch.first
    rw [VersionTable.next_applyRecords] at hnext
    have hlast := last_applyBatch h hcount
    unfold Follows at h
    refine hnext.mono ?_
    omega

/-- A reader that no mutation is above sees the batch applied. -/
theorem contentsAt_applyBatch_of_le {db : Database} {batch : DecodedBatch} (h : db.Follows batch)
    (hordered : db.table.Ordered) {reader : Nat}
    (hhigh : db.last + VersionTable.mutations batch.records ≤ reader) :
    (db.applyBatch batch).2.contentsAt reader = (db.contentsAt reader).applyAll batch.records := by
  have hhorizon : db.horizon ≤ reader :=
    Nat.le_trans db.horizon_le_last (Nat.le_trans (Nat.le_add_right _ _) hhigh)
  refine VersionTable.get?_applyRecords hhorizon batch.records hordered batch.first
    fun taken _ hlow => ?_
  rw [VersionTable.next_applyRecords] at hlow
  unfold Follows at h
  omega

/-- The latest reader sees the batch applied. -/
theorem contents_applyBatch {db : Database} {batch : DecodedBatch} (h : db.Follows batch)
    (hcount : VersionTable.FitsCount batch.records) (hsound : db.Sound) :
    (db.applyBatch batch).2.contentsAt (db.applyBatch batch).2.last =
      (db.contentsAt db.last).applyAll batch.records := by
  have hlast := last_applyBatch h hcount
  rw [contentsAt_applyBatch_of_le h hsound.ordered (Nat.le_of_eq hlast.symm)]
  congr 1
  funext key
  exact VersionTable.get?_eq_of_below hsound.below (last_le_applyBatch h) key

/-- A snapshot reads on as before. -/
theorem contentsAt_applyBatch {db : Database} {batch : DecodedBatch} (h : db.Follows batch)
    (hordered : db.table.Ordered) {reader : Nat} (hlow : db.horizon ≤ reader)
    (hhigh : reader ≤ db.last) :
    (db.applyBatch batch).2.contentsAt reader = db.contentsAt reader := by
  unfold Follows at h
  unfold contentsAt
  rw [table_applyBatch]
  funext key
  exact VersionTable.get?_applyRecords_of_lt hlow batch.records hordered (by omega) key

/-- A batch whose count wraps to zero passes for one without mutations: the latest
number stays, and the latest reader sees nothing of what came into the table. -/
theorem contents_applyBatch_of_wrap {db : Database} {batch : DecodedBatch} (h : db.Follows batch)
    (hordered : db.table.Ordered) (hwrap : VersionTable.counted batch.records = 0) :
    (db.applyBatch batch).2.contentsAt (db.applyBatch batch).2.last = db.contentsAt db.last := by
  rw [last_applyBatch_counted h, hwrap, Nat.add_zero]
  exact contentsAt_applyBatch h hordered db.horizon_le_last (Nat.le_refl _)

/-- A write either leaves the database alone or applies the records of the
batch under the next numbers. A successful write of the first kind has no
records to apply. -/
theorem write_effect {db : Database} (hfits : db.last + 1 < UInt64.size) (log : δ)
    (settings : WriteSettings) (batch : Batch) :
    ((db.write log settings batch).database = db ∧
      ∀ first, (db.write log settings batch).result = .ok first → batch.records = []) ∨
    ∃ decoded, db.Follows decoded ∧ decoded.records = batch.records ∧
      (db.write log settings batch).result = .ok (db.applyBatch decoded).1 ∧
      (db.write log settings batch).database = (db.applyBatch decoded).2 := by
  have houtcome := write_outcome db log settings batch
  generalize db.write log settings batch = written at houtcome ⊢
  cases houtcome with
  | closed hopen => exact .inl ⟨rfl, fun first h => nomatch h⟩
  | empty hopen hempty => exact .inl ⟨rfl, fun first h => Batch.records_eq_nil hempty⟩
  | refused hopen hempty hdecode => exact .inl ⟨rfl, fun first h => nomatch h⟩
  | unlogged hopen hempty hdecode hlog => exact .inl ⟨rfl, fun first h => nomatch h⟩
  | committed hopen hempty hdecode hlog =>
    obtain ⟨hfollows, hrecords⟩ := follows_of_decoded hfits hdecode
    exact .inr ⟨_, hfollows, hrecords, rfl, rfl⟩

end BatchStore.Database
