import BatchStore.Proofs.StrictReading

/-!
# Whole records

A reader, lenient or strict, that stands before codes of records takes these records and
then does what it does at the bytes behind them. So a batch is read without a fault exactly
when its body is a sequence of codes; for a strict reader their kinds are known and the
header declares their number.
-/

namespace BatchStore.Batch

/-- A reader takes the record that the grammar finds in front, a strict one when its kind is
known. -/
theorem Front.ofTag_takes_iff {strict : Bool} {tag : UInt8} {fields rest : Bytes}
    {record : Record} :
    ofTag strict tag fields = .record record rest ↔
      (∃ code, tag :: fields = code ++ rest ∧ Record.Encodes code record) ∧
        (strict = true → record.kind.isKnown = true) := by
  rw [← ofTag_eq_record_iff]
  have hsame {either : Bool} (hfront : ofTag either tag fields = .record record rest)
      (hknown : record.kind.isKnown = true) (mode : Bool) :
      ofTag mode tag fields = ofTag false tag fields := by
    rw [(kind_ofTag hfront).1, RecordKind.isKnown_ofTag] at hknown
    exact ofTag_of_known hknown mode fields
  cases strict with
  | false => exact ⟨fun h => ⟨h, nofun⟩, fun h => h.1⟩
  | true =>
    constructor
    · intro h
      have hknown := (kind_ofTag h).2 rfl
      exact ⟨hsame h hknown true ▸ h, fun _ => hknown⟩
    · rintro ⟨h, hknown⟩
      rw [hsame h (hknown rfl) true]
      exact h

namespace Reader

/-- The codes are those of the records, in order, and a reader of that mode takes their
kinds. -/
structure Takes (strict : Bool) (codes : List Bytes) (records : List Record) : Prop where
  encoded : List.Forall₂ Record.Encodes codes records
  known : strict = true → ∀ record ∈ records, record.kind.isKnown = true

/-- The reader behind so many more records, before the rest of the body. -/
def behind (reader : Reader) (taken : Nat) (rest : Bytes) : Reader :=
  { reader with
    remaining := rest
    record := .deletion []
    decoded := reader.decoded + UInt32.ofNat taken }

theorem behind_zero (reader : Reader) :
    reader.behind 0 reader.remaining = { reader with record := .deletion [] } := by
  have hcount : reader.decoded + UInt32.ofNat 0 = reader.decoded := UInt32.add_zero _
  rw [behind, hcount]

theorem behind_succ (reader : Reader) (record : Record) (remaining : Bytes) (taken : Nat)
    (rest : Bytes) :
    { reader with record, remaining, decoded := reader.decoded + 1 }.behind taken rest =
      reader.behind (taken + 1) rest := by
  have hcount : reader.decoded + 1 + UInt32.ofNat taken =
      reader.decoded + UInt32.ofNat (taken + 1) := by
    rw [Nat.add_comm, UInt32.ofNat_add, UInt32.add_assoc]
    rfl
  rw [behind, behind, ← hcount]

section

variable {reader after : Reader} {code rest : Bytes} {record : Record}

/-- A reader takes the record whose code it stands before. -/
theorem advance_code (herror : reader.error = none) (hremaining : reader.remaining = code ++ rest)
    (hcode : Record.Encodes code record)
    (hknown : reader.strict = true → record.kind.isKnown = true) :
    reader.advance =
      (true, { reader with record, remaining := rest, decoded := reader.decoded + 1 }) := by
  obtain ⟨tag, fields, hfront⟩ : ∃ tag fields, code ++ rest = tag :: fields := by
    cases hcode <;> exact ⟨_, _, rfl⟩
  exact advance_of_record herror (hremaining.trans hfront)
    (Front.ofTag_takes_iff.mpr ⟨⟨code, hfront.symm, hcode⟩, hknown⟩)

/-- Where `advance` succeeds, the reader stood before a code. -/
theorem code_of_advance (h : reader.advance = (true, after)) :
    reader.error = none ∧ ∃ code, reader.remaining = code ++ after.remaining ∧
      Record.Encodes code after.record := by
  cases advance_outcome h with
  | took herror hremaining hfront =>
    exact ⟨herror, hremaining ▸ (Front.ofTag_takes_iff.mp hfront).1⟩

/-- What a reader comes to does not depend on the record that it has read last. -/
theorem drain_withRecord (reader : Reader) (record : Record) :
    { reader with record }.drain = reader.drain := by
  have hadvance : { reader with record }.advance = reader.advance := rfl
  rw [drain_eq, drain_eq reader, hadvance]

end

/-- A reader that stands before codes takes their records, and then what comes behind. -/
theorem drain_codes {codes : List Bytes} {records : List Record} {reader : Reader} {rest : Bytes}
    (h : Takes reader.strict codes records) (herror : reader.error = none)
    (hremaining : reader.remaining = codes.flatten ++ rest) :
    reader.drain = (records ++ (reader.behind records.length rest).drain.1,
      (reader.behind records.length rest).drain.2) := by
  obtain ⟨hencoded, hknown⟩ := h
  induction hencoded generalizing reader with
  | nil =>
    obtain rfl : reader.remaining = rest := hremaining
    rw [List.length_nil, behind_zero, drain_withRecord reader (.deletion [])]
    rfl
  | @cons code record codes records hcode _ ih =>
    rw [List.flatten_cons, List.append_assoc] at hremaining
    let later : Reader := { reader with
      record, remaining := codes.flatten ++ rest, decoded := reader.decoded + 1 }
    have hadvance : reader.advance = (true, later) :=
      advance_code herror hremaining hcode fun hstrict => hknown hstrict record List.mem_cons_self
    have hlater : later.error = none ∧ later.remaining = codes.flatten ++ rest := ⟨herror, rfl⟩
    have hbehind : later.behind records.length rest =
        reader.behind (record :: records).length rest := behind_succ ..
    rw [drain_eq, hadvance]
    simp only
    rw [ih hlater.1 hlater.2 fun hstrict other hmem =>
      hknown hstrict other (List.mem_cons_of_mem _ hmem), hbehind]
    rfl

/-- What was read without a fault was a sequence of codes. -/
theorem takes_of_drain {reader : Reader} (herror : reader.error = none)
    (hclean : reader.drain.2.error = none) :
    ∃ codes, reader.remaining = codes.flatten ∧ Takes reader.strict codes reader.drain.1 := by
  suffices hcodes : ∃ codes, reader.remaining = codes.flatten ∧
      List.Forall₂ Record.Encodes codes reader.drain.1 by
    obtain ⟨codes, hbody, hencoded⟩ := hcodes
    exact ⟨codes, hbody, hencoded, known_of_drain⟩
  induction reader using drain.induct with
  | case1 reader after hadvance _ _ _ _ ih =>
    have hdrain : reader.drain = (after.record :: after.drain.1, after.drain.2) := by
      rw [drain_eq, hadvance]
    rw [hdrain] at hclean ⊢
    obtain ⟨-, code, hbody, hcode⟩ := code_of_advance hadvance
    have hafter : after.error = none := by
      cases hfault : after.error with
      | none => rfl
      | some error =>
        rw [drain_eq, advance_of_error hfault] at hclean
        exact hfault.symm.trans hclean
    obtain ⟨codes, hrest, hencoded⟩ := ih hafter hclean
    refine ⟨code :: codes, ?_, .cons hcode hencoded⟩
    rw [hbody, hrest, List.flatten_cons]
  | case2 reader after hadvance =>
    have hdrain : reader.drain = ([], after) := by rw [drain_eq, hadvance]
    rw [hdrain] at hclean ⊢
    refine ⟨[], ?_, .nil⟩
    cases advance_outcome hadvance with
    | refused hfault => cases herror.symm.trans hfault
    | ended _ hend => exact hend
    | stopped _ _ _ => cases hclean

theorem countFault_eq_none_iff {reader : Reader} :
    reader.countFault = none ↔
      (reader.strict = true → ∀ header ∈ reader.header, header.count = reader.decoded) := by
  unfold countFault
  cases reader.strict <;> cases reader.header <;> simp

/-- A batch is read without a fault exactly when its body is a sequence of codes; a strict
reader also wants known kinds and their number in the header. -/
theorem reads_iff {strict : Bool} {batch : Batch} {found : List Record} :
    records strict batch.data = .ok found ↔
      ∃ codes, batch.body = codes.flatten ∧ Takes strict codes found ∧
        (strict = true → batch.count = UInt32.ofNat found.length) := by
  have hend {codes : List Bytes} {found : List Record} (hbody : batch.body = codes.flatten)
      (htakes : Takes strict codes found) :
      (ofBytes strict batch.data).drain.1 = found ∧
        ((ofBytes strict batch.data).drain.2.error = none ↔
          (strict = true → batch.count = UInt32.ofNat found.length)) := by
    have hremaining : (ofBytes strict batch.data).remaining = codes.flatten ++ [] := by
      rw [ofBytes_data, List.append_nil]
      exact hbody
    have hdrain : (ofBytes strict batch.data).drain = _ := drain_codes htakes rfl hremaining
    have hbehind : ((ofBytes strict batch.data).behind found.length []).drain = _ :=
      drain_at_end rfl rfl
    rw [hdrain, hbehind, List.append_nil]
    refine ⟨rfl, countFault_eq_none_iff.trans ?_⟩
    rw [ofBytes_data]
    unfold behind count
    simp only [Option.mem_some_iff, forall_eq', UInt32.zero_add]
  rw [records_ok_iff]
  constructor
  · rintro ⟨rfl, hclean⟩
    obtain ⟨codes, hremaining, htakes⟩ := takes_of_drain (by rfl) hclean
    rw [ofBytes_data] at hremaining
    exact ⟨codes, hremaining, htakes, (hend hremaining htakes).2.mp hclean⟩
  · rintro ⟨codes, hbody, htakes, hcount⟩
    obtain ⟨hread, hclean⟩ := hend hbody htakes
    exact ⟨hread, hclean.mpr hcount⟩

end Reader

end BatchStore.Batch
