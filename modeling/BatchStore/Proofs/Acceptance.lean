import BatchStore.Proofs.FailedWrites
import BatchStore.Proofs.StrictReading

/-!
# Which batches a write accepts

A write decodes its batch with a strict reader, under any number, and refuses what that
reader refuses. Only an empty body is not read: there is nothing to commit then, and the
write succeeds also under a header that declares records.
-/

namespace BatchStore

open LogDevice (Reliable)

namespace Batch

/-- The fault that a strict reader of the batch latches. -/
def strictFault? (batch : Batch) : Option BatchError :=
  (Reader.ofBytes true batch.data).drain.2.error

/-- Without records a strict reader only looks at the count. -/
theorem strictFault?_of_body {batch : Batch} (h : batch.body = []) :
    batch.strictFault? = if batch.count = 0 then none else some (.countMismatch batch.count 0) := by
  rw [strictFault?, Reader.ofBytes_data, Reader.drain_eq, Reader.advance_at_end rfl h]
  rfl

/-- Decoding fails with the fault of a strict reader, whatever number the batch has got. -/
theorem decode_error_iff {batch : Batch} {sequence : UInt64} {fault : BatchError} :
    DecodedBatch.ofBytes (batch.setSequence sequence).data = .error fault ↔
      batch.strictFault? = some fault := by
  rw [strictFault?, ← Reader.records_error_iff, ← Reader.records_setSequence true batch sequence]
  unfold DecodedBatch.ofBytes
  cases Reader.records true (batch.setSequence sequence).data with
  | error found =>
    exact ⟨fun h => congrArg _ (Except.error.inj h), fun h => congrArg _ (Except.error.inj h)⟩
  | ok records => exact ⟨fun h => (nomatch h), fun h => (nomatch h)⟩

end Batch

namespace Database

variable {δ : Type} [LogDevice δ] {holds : δ → Bytes → Prop} {log : δ} {bytes : Bytes}
  {db : Database} {batch : Batch}

/-- On a reliable device a batch with room in a frame is refused for a fault of its own, or
it is accepted. -/
theorem write_reliable (hreliable : Reliable holds) (hlog : holds log bytes)
    (hopen : db.isOpen = true) (hfits : Frame.Fits batch.data) (settings : WriteSettings) :
    (batch.body = [] ∧ (db.write log settings batch).result = .ok db.last) ∨
    (batch.body ≠ [] ∧ ∃ fault, batch.strictFault? = some fault ∧
      (db.write log settings batch).result = .error (.batch fault)) ∨
    (batch.body ≠ [] ∧ batch.strictFault? = none ∧
      ∃ first, (db.write log settings batch).result = .ok first) := by
  have hbody : batch.isEmpty = false → batch.body ≠ [] := by
    intro hfull hnil
    rw [Batch.isEmpty, hnil] at hfull
    cases hfull
  have houtcome := write_outcome db log settings batch
  generalize db.write log settings batch = written at houtcome ⊢
  cases houtcome with
  | closed hclosed =>
    rw [hopen] at hclosed
    cases hclosed
  | empty _ hempty => exact .inl ⟨List.isEmpty_iff.mp hempty, rfl⟩
  | refused _ hfull hdecode =>
    exact .inr (.inl ⟨hbody hfull, _, Batch.decode_error_iff.mp hdecode, rfl⟩)
  | unlogged _ hfull hdecode hfailed =>
    have hroom : Frame.Fits (db.number batch).data := by
      unfold Frame.Fits
      rw [number, (data_setSequence batch _).1]
      exact hfits
    obtain ⟨after, hlogged, -⟩ := logBatch_fits hreliable hlog hroom settings
    rw [hfailed] at hlogged
    cases (Prod.mk.inj hlogged).1
  | committed _ hfull hdecode =>
    refine .inr (.inr ⟨hbody hfull, ?_, _, rfl⟩)
    by_contra hsome
    obtain ⟨fault, hfault⟩ := Option.ne_none_iff_exists'.mp hsome
    rw [number, Batch.decode_error_iff.mpr hfault] at hdecode
    cases hdecode

/-- A write refuses a batch for the fault of a strict reader, and accepts it without one. -/
def GoesByReader (written : Written δ) (batch : Batch) : Prop :=
  (∀ fault, written.result = .error (.batch fault) ↔ batch.strictFault? = some fault) ∧
    ((∃ first, written.result = .ok first) ↔ batch.strictFault? = none)

/-- On an open database with a reliable device, of any batch with room in a frame, however
it was made: a write refuses it exactly when its body is not empty and a strict reader
latches a fault, and then for this fault; otherwise it succeeds. So a write goes by the
strict reader unless the batch has no records and its header declares some. -/
theorem goes_by_reader_iff (hreliable : Reliable holds) (hlog : holds log bytes)
    (hopen : db.isOpen = true) (hfits : Frame.Fits batch.data) (settings : WriteSettings) :
    (∀ adopted, Batch.ofBytes adopted = .ok batch → batch.data = adopted) ∧
    (∀ fault, (db.write log settings batch).result = .error (.batch fault) ↔
      batch.body ≠ [] ∧ batch.strictFault? = some fault) ∧
    ((∃ first, (db.write log settings batch).result = .ok first) ↔
      batch.body = [] ∨ batch.strictFault? = none) ∧
    (batch.body = [] → batch.count ≠ 0 → (db.write log settings batch).result = .ok db.last ∧
      batch.strictFault? = some (.countMismatch batch.count 0)) ∧
    (GoesByReader (db.write log settings batch) batch ↔ batch.body ≠ [] ∨ batch.count = 0) := by
  refine ⟨fun adopted => Batch.data_of_ofBytes, ?_⟩
  unfold GoesByReader
  rcases write_reliable hreliable hlog hopen hfits settings with
    ⟨hnil, hresult⟩ | ⟨hsome, fault, hfault, hresult⟩ | ⟨hsome, hnone, first, hresult⟩
  · rw [hresult, Batch.strictFault?_of_body hnil]
    by_cases hcount : batch.count = 0
    · simp [hnil, hcount]
    · simp [hnil, hcount]
  · rw [hresult, hfault]
    simp [hsome]
  · rw [hresult, hnone]
    simp [hsome]

/-- A batch that was adopted with one record under a count of two is refused for it. -/
theorem goes_by_reader_miscounted :
    let adopted : Bytes := [9, 0, 0, 0, 0, 0, 0, 0, 2, 0, 0, 0, 1, 1, 97, 1, 49]
    let batch : Batch := ⟨⟨9, 2⟩, [1, 1, 97, 1, 49]⟩
    let db := Database.restored 0 {} none (VersionTable.empty, 0)
    Batch.ofBytes adopted = .ok batch ∧ batch.data = adopted ∧
      (db.write MemoryLog.empty {} batch).result = .error (.batch (.countMismatch 2 1)) ∧
      GoesByReader (db.write MemoryLog.empty {} batch) batch := by
  intro adopted batch db
  have hadopted : Batch.ofBytes adopted = .ok batch := by decide +kernel
  have hlog : MemoryLog.empty.bytes = [] := rfl
  have hfits : batch.data.length < UInt32.size := by decide +kernel
  obtain ⟨hdata, hrefused, -, -, hreader⟩ :=
    goes_by_reader_iff MemoryLog.reliable hlog (rfl : db.isOpen = true) hfits {}
  have hfault : batch.strictFault? = some (.countMismatch 2 1) := by decide +kernel
  exact ⟨hadopted, hdata adopted hadopted, (hrefused _).mpr ⟨by decide, hfault⟩,
    hreader.mpr (.inl (by decide))⟩

/-- A header that declares five records is adopted without a body. A strict reader
refuses it, and so does decoding, as it is done when a log is replayed; a write accepts
it. -/
theorem goes_past_reader_without_body :
    let adopted : Bytes := [0, 0, 0, 0, 0, 0, 0, 0, 5, 0, 0, 0]
    let batch : Batch := ⟨⟨0, 5⟩, []⟩
    let db := Database.restored 0 {} none (VersionTable.empty, 0)
    Batch.ofBytes adopted = .ok batch ∧ batch.data = adopted ∧
      batch.strictFault? = some (.countMismatch 5 0) ∧
      DecodedBatch.ofBytes adopted = .error (.countMismatch 5 0) ∧
      (db.write MemoryLog.empty {} batch).result = .ok 0 ∧
      ¬GoesByReader (db.write MemoryLog.empty {} batch) batch := by
  intro adopted batch db
  have hfault : batch.strictFault? = some (.countMismatch 5 0) := by decide +kernel
  have hresult : (db.write MemoryLog.empty {} batch).result = .ok 0 := by decide +kernel
  refine ⟨by decide +kernel, by decide +kernel, hfault, by decide +kernel, hresult, ?_⟩
  rintro ⟨-, haccepted⟩
  have hnone := haccepted.mp ⟨0, hresult⟩
  rw [hfault] at hnone
  cases hnone

end Database

end BatchStore
