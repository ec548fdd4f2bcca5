import BatchStore.Proofs.Bytes
import BatchStore.VersionTable

/-!
# Batches and their records

The records of a batch are what strict reading finds in its bytes. The sequence
number in the header takes no part in the reading, so numbering a batch changes
neither its records nor whether it is accepted; what decoding finds in a
numbered batch is the number and these records. All that one step of a reader can
come to is in `Reader.Outcome`.
-/

namespace BatchStore

namespace Batch

theorem drop_data (batch : Batch) : batch.data.drop headerSize = batch.body :=
  List.drop_left' (length_encode_header batch.header)

theorem decode?_data (batch : Batch) : Header.decode? batch.data = some batch.header := by
  have hcount : batch.data.drop 8 = Bytes.ofWord32 batch.header.count ++ batch.body := by
    unfold data Header.encode
    rw [List.append_assoc]
    exact List.drop_left' (Bytes.length_ofNat 8 _)
  unfold Header.decode?
  rw [hcount, Bytes.word32?_append]
  unfold data Header.encode
  rw [List.append_assoc, Bytes.word64?_append]

/-- A batch keeps the bytes that it was adopted from. -/
theorem data_of_ofBytes {bytes : Bytes} {batch : Batch} (h : ofBytes bytes = .ok batch) :
    batch.data = bytes := by
  unfold ofBytes Header.decode? at h
  cases hsequence : Bytes.word64? bytes with
  | none =>
    rw [hsequence] at h
    cases h
  | some sequence =>
    cases hcount : Bytes.word32? (bytes.drop 8) with
    | none =>
      rw [hsequence, hcount] at h
      cases h
    | some count =>
      rw [hsequence, hcount] at h
      obtain rfl := Except.ok.inj h
      have hbehind := Bytes.append_drop_of_word32? hcount
      rw [List.drop_drop] at hbehind
      unfold data Header.encode headerSize
      rw [List.append_assoc, hbehind]
      exact Bytes.append_drop_of_word64? hsequence

theorem Front.kind_ofTag {strict : Bool} {tag : UInt8} {bytes rest : Bytes} {record : Record}
    (h : ofTag strict tag bytes = .record record rest) :
    record.kind = RecordKind.ofTag tag ∧ (strict = true → record.kind.isKnown = true) := by
  have hkind : record.kind = RecordKind.ofTag tag := by
    unfold ofTag ofValue at h
    split at h
    · cases h
    split at h
    · split at h
      · split at h
        · obtain ⟨rfl, -⟩ := Front.record.inj h
          rfl
        · cases h
      · obtain ⟨rfl, -⟩ := Front.record.inj h
        rfl
    · cases h
  refine ⟨hkind, fun hstrict => ?_⟩
  cases hknown : record.kind.isKnown with
  | true => rfl
  | false =>
    unfold ofTag at h
    rw [← hkind, hstrict, hknown] at h
    cases h

namespace Reader

/-- The reader with another header in the place of its own. -/
def withHeader (reader : Reader) (header : Option Header) : Reader := { reader with header }

theorem ofBytes_data (strict : Bool) (batch : Batch) :
    ofBytes strict batch.data =
      { strict
        header := some batch.header
        remaining := batch.body
        record := .deletion []
        error := none
        decoded := 0
        reported := false } := by
  unfold ofBytes
  rw [decode?_data, drop_data]

section Calls

variable {reader after : Reader} {tag : UInt8} {fields rest : Bytes} {record : Record}
  {error : BatchError}

theorem advance_of_error (h : reader.error = some error) :
    reader.advance = (false, { reader with record := .deletion [] }) := by
  unfold advance
  simp only [h, Option.isSome_some, if_true]

/-- At the end of the body a reader looks at the count. -/
theorem advance_at_end (herror : reader.error = none) (hend : reader.remaining = []) :
    reader.advance =
      (false, { reader with record := .deletion [], error := reader.countFault }) := by
  unfold advance
  simp only [herror, hend, Option.isSome_none, Bool.false_eq_true, if_false]

theorem advance_of_record (herror : reader.error = none)
    (hremaining : reader.remaining = tag :: fields)
    (hfront : Front.ofTag reader.strict tag fields = .record record rest) :
    reader.advance =
      (true, { reader with record, remaining := rest, decoded := reader.decoded + 1 }) := by
  unfold advance
  simp only [herror, hremaining, hfront, Option.isSome_none, Bool.false_eq_true, if_false]

theorem advance_of_fault (herror : reader.error = none)
    (hremaining : reader.remaining = tag :: fields)
    (hfront : Front.ofTag reader.strict tag fields = .fault error rest) :
    reader.advance = (false, { reader with
      record := .deletion [], error := some error, remaining := rest }) := by
  unfold advance
  simp only [herror, hremaining, hfront, Option.isSome_none, Bool.false_eq_true, if_false]

/-- All that `advance` can come to. -/
inductive Outcome (reader : Reader) : Bool × Reader → Prop where
  | refused {error : BatchError} (herror : reader.error = some error) :
      Outcome reader (false, { reader with record := .deletion [] })
  | ended (herror : reader.error = none) (hend : reader.remaining = []) :
      Outcome reader (false, { reader with record := .deletion [], error := reader.countFault })
  | took {tag : UInt8} {fields rest : Bytes} {record : Record} (herror : reader.error = none)
      (hremaining : reader.remaining = tag :: fields)
      (hfront : Front.ofTag reader.strict tag fields = .record record rest) :
      Outcome reader
        (true, { reader with record, remaining := rest, decoded := reader.decoded + 1 })
  | stopped {tag : UInt8} {fields rest : Bytes} {error : BatchError}
      (herror : reader.error = none) (hremaining : reader.remaining = tag :: fields)
      (hfront : Front.ofTag reader.strict tag fields = .fault error rest) :
      Outcome reader (false, { reader with
        record := .deletion [], error := some error, remaining := rest })

theorem advance_outcome {more : Bool} (h : reader.advance = (more, after)) :
    reader.Outcome (more, after) := by
  rw [← h]
  cases herror : reader.error with
  | some error =>
    rw [advance_of_error herror]
    exact .refused herror
  | none =>
    cases hremaining : reader.remaining with
    | nil =>
      rw [advance_at_end herror hremaining]
      exact .ended herror hremaining
    | cons tag fields =>
      cases hfront : Front.ofTag reader.strict tag fields with
      | record record rest =>
        rw [advance_of_record herror hremaining hfront]
        exact .took herror hremaining hfront
      | fault error rest =>
        rw [advance_of_fault herror hremaining hfront]
        exact .stopped herror hremaining hfront

/-- The mode, the header and the note on the fault stay as they are. -/
theorem advance_keeps {more : Bool} (h : reader.advance = (more, after)) :
    after.strict = reader.strict ∧ after.header = reader.header ∧
      after.reported = reader.reported := by
  cases advance_outcome h <;> exact ⟨rfl, rfl, rfl⟩

end Calls

theorem drain_eq (reader : Reader) :
    reader.drain = match reader.advance with
      | (true, after) => (after.record :: after.drain.1, after.drain.2)
      | (false, after) => ([], after) := by
  cases h : reader.advance with
  | mk more after =>
    rw [drain]
    cases more <;> split <;> simp_all

theorem drain_at_end {reader : Reader} (herror : reader.error = none)
    (hend : reader.remaining = []) :
    reader.drain = ([], { reader with record := .deletion [], error := reader.countFault }) := by
  rw [drain_eq, advance_at_end herror hend]

theorem drain_of_fault {reader : Reader} {tag : UInt8} {fields rest : Bytes} {error : BatchError}
    (herror : reader.error = none) (hremaining : reader.remaining = tag :: fields)
    (hfront : Front.ofTag reader.strict tag fields = .fault error rest) :
    reader.drain = ([], { reader with
      record := .deletion [], error := some error, remaining := rest }) := by
  rw [drain_eq, advance_of_fault herror hremaining hfront]

/-- Reading takes no more than the count from the header. -/
theorem advance_withHeader {reader : Reader} {header : Option Header}
    (h : reader.header.map (·.count) = header.map (·.count)) :
    (reader.withHeader header).advance =
      (reader.advance.1, reader.advance.2.withHeader header) := by
  obtain ⟨strict, own, remaining, record, error, decoded, reported⟩ := reader
  cases error with
  | some error => rfl
  | none =>
    cases remaining with
    | nil =>
      -- the end of the body is the only place where the header is looked at
      have hfault : ∀ a b : Option Header, a.map (·.count) = b.map (·.count) →
          countFault ⟨strict, a, [], record, none, decoded, reported⟩ =
            countFault ⟨strict, b, [], record, none, decoded, reported⟩ := by
        intro a b hab
        cases strict <;> cases a <;> cases b <;> simp_all [countFault]
      have heq := hfault header own h.symm
      simp only [advance, withHeader, Option.isSome_none, heq, Bool.false_eq_true, if_false]
    | cons tag fields =>
      simp only [advance, withHeader, Option.isSome_none, Bool.false_eq_true, if_false]
      cases Front.ofTag strict tag fields <;> rfl

theorem drain_withHeader {reader : Reader} {header : Option Header}
    (h : reader.header.map (·.count) = header.map (·.count)) :
    (reader.withHeader header).drain = (reader.drain.1, reader.drain.2.withHeader header) := by
  induction reader using drain.induct with
  | case1 reader after hadvance _ _ _ _ ih =>
    have hafter : after.header.map (·.count) = header.map (·.count) := by
      rw [(advance_keeps hadvance).2.1, h]
    rw [drain_eq, drain_eq reader, advance_withHeader h, hadvance]
    simp only []
    rw [ih hafter]
    rfl
  | case2 reader after hadvance =>
    rw [drain_eq, drain_eq reader, advance_withHeader h, hadvance]

/-- The sequence number takes no part in the reading. -/
theorem records_setSequence (strict : Bool) (batch : Batch) (sequence : UInt64) :
    records strict (batch.setSequence sequence).data = records strict batch.data := by
  have hreader : ofBytes strict (batch.setSequence sequence).data =
      (ofBytes strict batch.data).withHeader (some (batch.setSequence sequence).header) := by
    rw [ofBytes_data, ofBytes_data]
    rfl
  have hcount : (ofBytes strict batch.data).header.map (·.count) =
      (some (batch.setSequence sequence).header).map (·.count) := by
    rw [ofBytes_data]
    rfl
  unfold records
  rw [hreader, drain_withHeader hcount]
  rfl

/-- A record that is read has a known kind when the reader is strict. -/
theorem known_of_advance {reader after : Reader} (hstrict : reader.strict = true)
    (h : reader.advance = (true, after)) : after.record.kind.isKnown = true := by
  cases advance_outcome h with
  | took _ _ hfront => exact (Front.kind_ofTag hfront).2 hstrict

theorem known_of_drain {reader : Reader} (hstrict : reader.strict = true) :
    ∀ record ∈ reader.drain.1, record.kind.isKnown = true := by
  induction reader using drain.induct with
  | case1 reader after hadvance _ _ _ _ ih =>
    have hafter : after.strict = true := (advance_keeps hadvance).1.trans hstrict
    rw [drain_eq, hadvance]
    exact List.forall_mem_cons.mpr ⟨known_of_advance hstrict hadvance, ih hafter⟩
  | case2 reader after hadvance =>
    rw [drain_eq, hadvance]
    exact fun record hmem => nomatch hmem

/-- Every record takes something off what remains. -/
theorem length_drain_le (reader : Reader) :
    reader.drain.1.length ≤ reader.remaining.length := by
  induction reader using drain.induct with
  | case1 reader after hadvance _ _ _ _ ih =>
    have hshorter := advance_shortens hadvance
    rw [drain_eq, hadvance]
    simp only [List.length_cons]
    omega
  | case2 reader after hadvance =>
    rw [drain_eq, hadvance]
    exact Nat.zero_le _

theorem records_ok_iff {strict : Bool} {bytes : Bytes} {found : List Record} :
    records strict bytes = .ok found ↔
      (ofBytes strict bytes).drain.1 = found ∧ (ofBytes strict bytes).drain.2.error = none := by
  unfold records
  rcases (ofBytes strict bytes).drain with ⟨read, last⟩
  simp only
  cases last.error with
  | none => exact ⟨fun h => ⟨Except.ok.inj h, rfl⟩, fun h => congrArg Except.ok h.1⟩
  | some error => exact ⟨fun h => (nomatch h), fun h => (nomatch h.2)⟩

theorem records_error_iff {strict : Bool} {bytes : Bytes} {error : BatchError} :
    records strict bytes = .error error ↔
      (ofBytes strict bytes).drain.2.error = some error := by
  unfold records
  rcases (ofBytes strict bytes).drain with ⟨read, last⟩
  simp only
  cases last.error with
  | none => exact ⟨fun h => (nomatch h), fun h => (nomatch h)⟩
  | some found =>
    exact ⟨fun h => congrArg some (Except.error.inj h),
      fun h => congrArg Except.error (Option.some.inj h)⟩

end Reader

/-- The records that strict reading finds; none in a batch that it refuses. -/
def records (batch : Batch) : List Record :=
  match Reader.records true batch.data with
  | .ok records => records
  | .error _ => []

theorem records_eq_nil {batch : Batch} (h : batch.isEmpty) : batch.records = [] := by
  have hbody : batch.body = [] := List.isEmpty_iff.mp h
  unfold records Reader.records
  rw [Reader.ofBytes_data, Reader.drain_eq, hbody]
  simp only [Reader.advance]
  split
  · next hr =>
    split at hr
    · exact (Except.ok.inj hr).symm
    · cases hr
  · rfl

end Batch

/-- Decoding a numbered batch finds its number and its records. -/
theorem DecodedBatch.ofBytes_setSequence {batch : Batch} {sequence : UInt64}
    {decoded : DecodedBatch}
    (h : DecodedBatch.ofBytes (batch.setSequence sequence).data = .ok decoded) :
    decoded = ⟨sequence.toNat, batch.records⟩ := by
  unfold DecodedBatch.ofBytes at h
  rw [Batch.Reader.records_setSequence, Batch.decode?_data] at h
  unfold Batch.records
  split at h
  · cases h
  · next records hr =>
    rw [hr]
    exact (Except.ok.inj h).symm

/-- Stored bytes hold no more records than bytes. -/
theorem DecodedBatch.length_records_le {bytes : Bytes} {decoded : DecodedBatch}
    (h : DecodedBatch.ofBytes bytes = .ok decoded) : decoded.records.length ≤ bytes.length := by
  unfold DecodedBatch.ofBytes at h
  cases hread : Batch.Reader.records true bytes with
  | error error =>
    rw [hread] at h
    cases h
  | ok records =>
    rw [hread] at h
    have hdecoded := congrArg DecodedBatch.records (Except.ok.inj h)
    have hdrain := (Batch.Reader.ofBytes true bytes).length_drain_le
    rw [(Batch.Reader.records_ok_iff.mp hread).1] at hdrain
    rw [← hdecoded]
    refine Nat.le_trans hdrain ?_
    rw [Batch.Reader.ofBytes, List.length_drop]
    exact Nat.sub_le _ _

end BatchStore
