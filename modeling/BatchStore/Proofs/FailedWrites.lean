import BatchStore.Proofs.LoggedCalls

/-!
# Failed writes

A write numbers its batch, decodes it, logs it and applies it, in this order. When
one of these steps fails the number in the header is taken back, and what comes
after the step is not reached: a batch that cannot be decoded is not logged, and a
batch that cannot be logged is not applied. A write can therefore leave traces of its
failure in the log, but not in memory.
-/

namespace BatchStore

namespace Database

variable {δ : Type} [LogDevice δ] {db : Database} {settings : WriteSettings} {batch : Batch}

theorem write_closed (hopen : db.isOpen = false) (log : δ) (settings : WriteSettings)
    (batch : Batch) : db.write log settings batch = ⟨.error .closed, batch, db, log⟩ := by
  unfold write
  rw [hopen]
  rfl

theorem write_refused {fault : BatchError} (hopen : db.isOpen = true)
    (hempty : batch.isEmpty = false)
    (hdecode : DecodedBatch.ofBytes (db.number batch).data = .error fault) (log : δ)
    (settings : WriteSettings) :
    db.write log settings batch = ⟨.error (.batch fault), batch, db, log⟩ := by
  unfold number at hdecode
  unfold write commit
  rw [hopen, hempty]
  simp only [hdecode, Bool.not_true, Bool.false_eq_true, if_false]
  rfl

/-- A log that cannot take a batch tells so by an error of its own kind. -/
theorem logBatch_error_cases {log after : δ} {payload : Bytes} {error : StoreError}
    (h : logBatch settings log payload = (.error error, after)) :
    (∃ fault, error = .device fault) ∨ error = .invalidArgument .frameTooLarge := by
  rcases logBatch_cases h with ⟨-, hok, -⟩ | ⟨-, hok, -⟩ | ⟨-, found, herror, happend⟩
  · cases hok
  · cases hok
  · obtain rfl := Except.error.inj herror
    exact (Journal.append_error_cases happend).imp_right And.left

theorem write_error_closed {log : δ} (h : (db.write log settings batch).result = .error .closed) :
    db.isOpen = false := by
  have houtcome := write_outcome db log settings batch
  generalize db.write log settings batch = written at h houtcome
  cases houtcome with
  | closed hopen => exact hopen
  | empty => cases h
  | refused => cases h
  | unlogged hopen hempty hdecode hlog =>
    rcases logBatch_error_cases hlog with ⟨fault, rfl⟩ | rfl
    · cases h
    · cases h
  | committed => cases h

theorem write_error_batch {log : δ} {fault : BatchError}
    (h : (db.write log settings batch).result = .error (.batch fault)) :
    db.isOpen = true ∧ batch.isEmpty = false ∧
      DecodedBatch.ofBytes (db.number batch).data = .error fault := by
  have houtcome := write_outcome db log settings batch
  generalize db.write log settings batch = written at h houtcome
  cases houtcome with
  | closed => cases h
  | empty => cases h
  | refused hopen hempty hdecode =>
    cases h
    exact ⟨hopen, hempty, hdecode⟩
  | unlogged hopen hempty hdecode hlog =>
    rcases logBatch_error_cases hlog with ⟨found, rfl⟩ | rfl
    · cases h
    · cases h
  | committed => cases h

/-- The write makes no call on its device: over any device, also one that counts its
calls, it answers the same and leaves the device as it is. -/
def MakesNoCall (db : Database) (settings : WriteSettings) (batch : Batch) : Prop :=
  ∃ result, ∀ {ε : Type} [LogDevice ε] (device : ε),
    db.write device settings batch = ⟨result, batch, db, device⟩

theorem makesNoCall_of_error {log : δ} {error : StoreError}
    (h : (db.write log settings batch).result = .error error)
    (hearly : error = .closed ∨ ∃ fault, error = .batch fault) :
    db.MakesNoCall settings batch := by
  rcases hearly with rfl | ⟨fault, rfl⟩
  · exact ⟨_, fun device => write_closed (write_error_closed h) device settings batch⟩
  · obtain ⟨hopen, hempty, hdecode⟩ := write_error_batch h
    exact ⟨_, fun device => write_refused hopen hempty hdecode device settings⟩

/-- A monitored device has recorded nothing of such a write. -/
theorem MakesNoCall.calls (h : db.MakesNoCall settings batch) (log : Monitored δ) :
    (db.write log settings batch).log.calls = log.calls := by
  obtain ⟨result, hwrite⟩ := h
  rw [hwrite log]

/-- Numbering a batch changes its first eight octets and nothing else. -/
theorem data_setSequence (batch : Batch) (sequence : UInt64) :
    (batch.setSequence sequence).data.length = batch.data.length ∧
      (batch.setSequence sequence).data.drop 8 = batch.data.drop 8 := by
  have hsplit : ∀ numbered : Batch, numbered.data = Bytes.ofWord64 numbered.header.sequence ++
      (Bytes.ofWord32 numbered.header.count ++ numbered.body) :=
    fun numbered => List.append_assoc _ _ _
  have hlength : ∀ word, (Bytes.ofWord64 word).length = 8 := fun word => Bytes.length_ofNat 8 _
  constructor
  · rw [Batch.length_data, Batch.length_data]
    rfl
  · rw [hsplit, hsplit, List.drop_left' (hlength _), List.drop_left' (hlength _)]
    rfl

theorem write_data_of_ok {log : δ} {first : Nat}
    (h : (db.write log settings batch).result = .ok first) :
    (db.write log settings batch).batch.data.length = batch.data.length ∧
      (db.write log settings batch).batch.data.drop 8 = batch.data.drop 8 := by
  have houtcome := write_outcome db log settings batch
  generalize db.write log settings batch = written at h houtcome ⊢
  cases houtcome with
  | closed => cases h
  | empty => exact ⟨rfl, rfl⟩
  | refused => cases h
  | unlogged => cases h
  | committed => exact data_setSequence batch _

/-- On any device, whatever it fails, and in any state: a write that fails leaves the
batch and the database, with all that reads look at, as they were. When the database
is closed or the batch cannot be decoded, the device is not called at all. A write
that succeeds changes at most the number in the header of its batch. -/
theorem failed_write_undone (db : Database) (log : δ) (settings : WriteSettings)
    (batch : Batch) :
    (∀ error, (db.write log settings batch).result = .error error →
      (db.write log settings batch).batch = batch ∧
      (db.write log settings batch).database = db ∧
      ((error = .closed ∨ ∃ fault, error = .batch fault) → db.MakesNoCall settings batch)) ∧
    ∀ first, (db.write log settings batch).result = .ok first →
      (db.write log settings batch).batch.data.length = batch.data.length ∧
      (db.write log settings batch).batch.data.drop 8 = batch.data.drop 8 := by
  refine ⟨fun error herror => ?_, fun first hok => write_data_of_ok hok⟩
  obtain ⟨hdatabase, hbatch⟩ := write_error herror
  exact ⟨hbatch, hdatabase, makesNoCall_of_error herror⟩

/-- A flush fails after the frame was appended, and a batch with an unknown tag is
refused without a call; both keep the numbers in their headers. -/
theorem failed_write_undone_after_append :
    let log := (Monitored.ofDevice MemoryLog.empty).plan ⟨.flush, 0, 0⟩
    let db := Database.restored 0 {} none (VersionTable.empty, 0)
    let sound := (Batch.empty.put [97] [49]).setSequence 7
    let unknown : Batch := ⟨⟨7, 1⟩, [9]⟩
    let failed := db.write log {} sound
    (failed.result.toOption = none ∧ failed.log.calls = [.append 25, .flush] ∧
      failed.batch = sound ∧ failed.database.last = 0) ∧
    (db.write log {} unknown).batch = unknown ∧
      (db.write log {} unknown).log.calls = log.calls := by
  intro log db sound unknown failed
  have hfailed : failed.result = .error (.device (Monitored.injected .flush)) := by
    decide +kernel
  have hrefused : (db.write log {} unknown).result = .error (.batch (.unknownKind 9)) := by
    decide +kernel
  obtain ⟨hbatch, hdatabase, -⟩ := (failed_write_undone db log {} sound).1 _ hfailed
  obtain ⟨hkept, -, hnocall⟩ := (failed_write_undone db log {} unknown).1 _ hrefused
  refine ⟨⟨by rw [hfailed]; rfl, by decide +kernel, hbatch, by rw [hdatabase]; rfl⟩, hkept, ?_⟩
  exact (hnocall (.inr ⟨_, rfl⟩)).calls log

end Database
end BatchStore
