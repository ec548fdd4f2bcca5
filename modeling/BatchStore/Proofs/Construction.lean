import BatchStore.Proofs.Reading

/-!
# Batches that were built

A batch is built from nothing by queueing records, one by one or with another
batch. Its bytes are the stored forms of the records that were queued since it
was cleared last, behind a header that counts them. So a reader finds these
records in it, lenient or strict.
-/

namespace BatchStore

namespace Batch

/-- The batch that holds these records. -/
def holding (sequence : UInt64) (records : List Record) : Batch :=
  ⟨⟨sequence, UInt32.ofNat records.length⟩, records.flatMap Record.encode⟩

theorem push_holding (sequence : UInt64) (records : List Record) (record : Record) :
    (holding sequence records).push record = holding sequence (records ++ [record]) := by
  unfold holding push
  rw [List.flatMap_append, List.flatMap_singleton, List.length_append, UInt32.ofNat_add]
  rfl

theorem foldl_push_holding (sequence : UInt64) (records others : List Record) :
    others.foldl push (holding sequence records) = holding sequence (records ++ others) := by
  induction others generalizing records with
  | nil => rw [List.foldl_nil, List.append_nil]
  | cons record others ih => rw [List.foldl_cons, push_holding, ih, List.append_assoc]; rfl

theorem append_holding (sequence numbered : UInt64) (records others : List Record) :
    (holding sequence records).append (holding numbered others) =
      holding sequence (records ++ others) := by
  unfold holding append
  rw [List.flatMap_append, List.length_append, UInt32.ofNat_add]

/-- A reader finds the records that a batch holds, and no fault at the end. -/
theorem Reader.drain_holding {records : List Record}
    (hrecords : ∀ record ∈ records, record.Formed ∧ record.Sized) (sequence : UInt64)
    (strict : Bool) :
    (ofBytes strict (holding sequence records).data).drain.1 = records ∧
      (ofBytes strict (holding sequence records).data).drain.2.error = none ∧
      (ofBytes strict (holding sequence records).data).collect.1 = records.map .ok := by
  have hstart : (ofBytes strict (holding sequence records).data).error = none := rfl
  have hbody : (ofBytes strict (holding sequence records).data).remaining =
      records.flatMap Record.encode := by
    rw [ofBytes_data]
    rfl
  have hdrain := drain_encode hrecords hstart hbody
  have hend : ((ofBytes strict (holding sequence records).data).exhausted records.length).error =
      none := by
    rw [ofBytes_data]
    unfold exhausted countFault
    cases strict with
    | false => rfl
    | true => exact if_pos (UInt32.zero_add _).symm
  refine ⟨by rw [hdrain], by rw [hdrain, hend], ?_⟩
  unfold collect
  rw [hdrain]
  simp only
  split
  · next hnext =>
    have hnone := next_exhausted hend
    rw [hnext] at hnone
    cases hnone
  · rfl

end Batch

/-- How a batch has come about. -/
inductive Construction where
  | new
  | default
  | withCapacity (room : Nat)
  | put (before : Construction) (key value : Bytes)
  | delete (before : Construction) (key : Bytes)
  | merge (before : Construction) (key operand : Bytes)
  | logData (before : Construction) (blob : Bytes)
  | setSequence (before : Construction) (sequence : UInt64)
  | clear (before : Construction)
  /-- Another batch is appended, as it is by then. -/
  | append (before other : Construction)
  | copy (before : Construction)

namespace Construction

def batch : Construction → Batch
  | new => .empty
  | default => Inhabited.default
  | withCapacity room => .withCapacity room
  | put before key value => before.batch.put key value
  | delete before key => before.batch.delete key
  | merge before key operand => before.batch.merge key operand
  | logData before blob => before.batch.logData blob
  | setSequence before sequence => before.batch.setSequence sequence
  | clear before => before.batch.clear
  | append before other => before.batch.append other.batch
  | copy before => before.batch

/-- The records queued since the batch was cleared last, in order. -/
def records : Construction → List Record
  | new | default | withCapacity _ | clear _ => []
  | put before key value => before.records ++ [.put key value]
  | delete before key => before.records ++ [.deletion key]
  | merge before key operand => before.records ++ [.merge key operand]
  | logData before blob => before.records ++ [.logData blob]
  | setSequence before _ | copy before => before.records
  | append before other => before.records ++ other.records

/-- The sequence number set since the batch was cleared last, or zero. -/
def sequence : Construction → UInt64
  | new | default | withCapacity _ | clear _ => 0
  | setSequence _ sequence => sequence
  | put before _ _ | delete before _ | merge before _ _ | logData before _ | append before _
  | copy before => before.sequence

theorem batch_eq (construction : Construction) :
    construction.batch = .holding construction.sequence construction.records := by
  induction construction with
  | new | default | withCapacity room => rfl
  | clear before => rfl
  | put before key value ih => rw [batch, ih, Batch.put, Batch.push_holding, records, sequence]
  | delete before key ih => rw [batch, ih, Batch.delete, Batch.push_holding, records, sequence]
  | merge before key operand ih =>
    rw [batch, ih, Batch.merge, Batch.push_holding, records, sequence]
  | logData before blob ih => rw [batch, ih, Batch.logData, Batch.push_holding, records, sequence]
  | setSequence before sequence ih =>
    rw [batch, ih]
    rfl
  | append before other ih ihother =>
    rw [batch, ih, ihother, Batch.append_holding, records, sequence]
  | copy before ih => exact ih

theorem formed (construction : Construction) : ∀ record ∈ construction.records, record.Formed := by
  have hone : ∀ {before : Construction} {last : Record},
      (∀ record ∈ before.records, record.Formed) → last.Formed →
      ∀ record ∈ before.records ++ [last], record.Formed := by
    intro before last hbefore hlast record hmem
    rcases List.mem_append.mp hmem with hold | hnew
    · exact hbefore record hold
    · rw [List.mem_singleton.mp hnew]
      exact hlast
  induction construction with
  | new | default | withCapacity room => exact fun _ h => nomatch h
  | clear before => exact fun _ h => nomatch h
  | put before key value ih => exact hone ih ⟨rfl, rfl⟩
  | delete before key ih => exact hone ih ⟨rfl, rfl⟩
  | merge before key operand ih => exact hone ih ⟨rfl, rfl⟩
  | logData before blob ih => exact hone ih ⟨rfl, rfl⟩
  | setSequence before sequence ih => exact ih
  | append before other ih ihother =>
    intro record hmem
    rcases List.mem_append.mp hmem with hold | hnew
    · exact ih record hold
    · exact ihother record hnew
  | copy before ih => exact ih

/-- A batch that was built is read back: a reader of its bytes, lenient or
strict, finds the records that were queued since it was cleared last, and no
fault behind them. Its header counts them and has the number that was set last. -/
theorem reads_back (construction : Construction)
    (hsized : ∀ record ∈ construction.records, record.Sized)
    (hcount : construction.records.length < UInt32.size) (strict : Bool) :
    let reader := Batch.Reader.ofBytes strict construction.batch.data
    reader.drain.1 = construction.records ∧ reader.drain.2.error = none ∧
      reader.collect.1 = construction.records.map .ok ∧
      ∃ count, reader.header = some ⟨construction.sequence, count⟩ ∧
        count.toNat = construction.records.length := by
  intro reader
  have hrecords : ∀ record ∈ construction.records, record.Formed ∧ record.Sized :=
    fun record hmem => ⟨construction.formed record hmem, hsized record hmem⟩
  obtain ⟨hread, herror, hcollect⟩ :=
    Batch.Reader.drain_holding hrecords construction.sequence strict
  rw [← construction.batch_eq] at hread herror hcollect
  refine ⟨hread, herror, hcollect, UInt32.ofNat construction.records.length, ?_,
    UInt32.toNat_ofNat_of_lt' hcount⟩
  show Batch.Header.decode? construction.batch.data = _
  rw [Batch.decode?_data, construction.batch_eq]
  rfl

/-- One batch is appended twice, once as a copy; its key has a length of two
octets. What was queued before the clearing is gone. -/
theorem reads_back_appended :
    let other := logData (setSequence (delete (withCapacity 64) (List.replicate 300 107)) 9) []
    let built := merge (append (append (setSequence (put (clear (put new [97] [49])) [] []) 5)
      other) (copy other)) [98] [50]
    built.records.length = 6 ∧ ∀ strict,
      let reader := Batch.Reader.ofBytes strict built.batch.data
      reader.drain.1 = built.records ∧ reader.drain.2.error = none ∧
        reader.collect.1 = built.records.map .ok ∧
        ∃ count, reader.header = some ⟨5, count⟩ ∧ count.toNat = 6 := by
  intro other built
  exact ⟨rfl, fun strict => built.reads_back (by decide +kernel) (by decide) strict⟩

end Construction

end BatchStore
