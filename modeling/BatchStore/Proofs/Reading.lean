import BatchStore.Proofs.Batch

/-!
# Reading back what was stored

A number below `2 ^ 64` is read back from its groups wherever there is room for
them, a byte string from its length and its octets, a record from its tag and its
fields. So a reader that stands before stored records hands out these records,
one by one, and comes to the end of the body.
-/

namespace BatchStore

namespace Varint

/-- How many numbers fit into that many octets: the last of the ten has room for
one bit, each one before it for seven. -/
def numbers : (octets : Nat) → Nat
  | 0 => 0
  | 1 => 2
  | octets + 2 => 128 * numbers (octets + 1)

theorem numbers_maxSize : numbers maxSize = UInt64.size := rfl

theorem encode_of_lt {n : Nat} (h : n < 128) : encode n = [UInt8.ofNat n] := by
  rw [encode, if_pos h]

theorem encode_of_le {n : Nat} (h : 128 ≤ n) :
    encode n = UInt8.ofNat (n % 128 + 128) :: encode (n / 128) := by
  rw [encode, if_neg (Nat.not_lt.mpr h)]

theorem toNat_octet {n : Nat} (h : n < 256) : (UInt8.ofNat n).toNat = n := by
  rw [UInt8.toNat_ofNat']
  exact Nat.mod_eq_of_lt h

/-- A number is read back from the position on that leaves as many octets as it
needs. -/
theorem decodeFrom?_encode {octets position n : Nat} (hroom : position + octets = maxSize)
    (hfits : n < numbers octets) (rest : Bytes) :
    decodeFrom? position (encode n ++ rest) = some (n, (encode n).length) := by
  induction octets generalizing position n with
  | zero => exact absurd hfits (Nat.not_lt_zero n)
  | succ octets ih =>
    have hposition : ¬maxSize ≤ position := by omega
    have hlast : position + 1 = maxSize → n < 2 := by
      intro hlast
      obtain rfl : octets = 0 := by omega
      exact hfits
    rcases Nat.lt_or_ge n 128 with hsmall | hlarge
    · have hoctet := toNat_octet (Nat.lt_trans hsmall (by decide : 128 < 256))
      have hgroup : ¬(position + 1 = maxSize ∧ 1 < n % 128) := by
        rintro ⟨htenth, hgroup⟩
        have hbit := hlast htenth
        omega
      rw [encode_of_lt hsmall, List.singleton_append, decodeFrom?, hoctet, if_neg hposition,
        if_neg hgroup, if_pos hsmall]
      rfl
    · -- a number of more than one group is never at the tenth octet
      have htenth : position + 1 ≠ maxSize := by
        intro htenth
        have hbit := hlast htenth
        omega
      obtain ⟨octets, rfl⟩ : ∃ left, octets = left + 1 := ⟨octets - 1, by omega⟩
      have hhigh : n / 128 < numbers (octets + 1) := Nat.div_lt_of_lt_mul hfits
      have hoctet : (UInt8.ofNat (n % 128 + 128)).toNat = n % 128 + 128 :=
        toNat_octet (by omega)
      have hmore : ¬n % 128 + 128 < 128 := by omega
      have hlow : (n % 128 + 128) % 128 + 128 * (n / 128) = n := by omega
      rw [encode_of_le hlarge, List.cons_append, decodeFrom?, hoctet, if_neg hposition,
        if_neg fun hboth => htenth hboth.1, if_neg hmore, ih (by omega) hhigh, Option.map_some]
      simp only [hlow, List.length_cons]

theorem decode?_encode {n : Nat} (h : n < UInt64.size) (rest : Bytes) :
    decode? (encode n ++ rest) = some (n, (encode n).length) := by
  rw [← numbers_maxSize] at h
  exact decodeFrom?_encode (Nat.zero_add maxSize) h rest

end Varint

theorem Varstring.decode?_encode {data : Bytes} (h : data.length < UInt64.size) (rest : Bytes) :
    decode? (encode data ++ rest) = some (data, (encode data).length) := by
  unfold decode? encode
  rw [List.append_assoc, Varint.decode?_encode h]
  simp only [List.drop_left, List.take_left, if_true, List.length_append]

namespace Record

/-- The record has a known kind, and a value exactly when its kind has one. -/
structure Formed (record : Record) : Prop where
  known : record.kind.isKnown = true
  value : record.value.isSome = record.kind.hasValue

/-- The lengths of the key and the value have room in 64 bits. -/
structure Sized (record : Record) : Prop where
  key : record.key.length < UInt64.size
  value : ∀ value ∈ record.value, value.length < UInt64.size

instance (record : Record) : Decidable record.Sized :=
  decidable_of_iff (record.key.length < UInt64.size ∧
    ∀ value ∈ record.value, value.length < UInt64.size)
    ⟨fun h => ⟨h.1, h.2⟩, fun h => ⟨h.key, h.value⟩⟩

/-- What is stored behind the tag. -/
def fields (record : Record) : Bytes :=
  Varstring.encode record.key ++ (record.value.map Varstring.encode).getD []

theorem encode_eq (record : Record) : record.encode = record.kind.tag :: record.fields := rfl

end Record

theorem RecordKind.ofTag_tag {kind : RecordKind} (h : kind.isKnown = true) :
    ofTag kind.tag = kind := by
  cases kind with
  | unknown tag => cases h
  | _ => rfl

namespace Batch

/-- A stored record is what stands at the front of its own bytes. -/
theorem Front.ofTag_fields {record : Record} (hformed : record.Formed) (hsized : record.Sized)
    (strict : Bool) (rest : Bytes) :
    ofTag strict record.kind.tag (record.fields ++ rest) = .record record rest := by
  obtain ⟨kind, key, value⟩ := record
  have hkind := RecordKind.ofTag_tag hformed.known
  have hvalue : value.isSome = kind.hasValue := hformed.value
  have hknown : (strict && !kind.isKnown) = false := by
    rw [hformed.known, Bool.not_true, Bool.and_false]
  unfold ofTag
  rw [hkind, hknown, Record.fields, List.append_assoc, Varstring.decode?_encode hsized.key]
  simp only [Bool.false_eq_true, if_false, List.drop_left]
  unfold ofValue
  cases value with
  | none =>
    rw [← hvalue]
    rfl
  | some value =>
    rw [← hvalue]
    simp only [Option.isSome_some, if_true, Option.map_some, Option.getD_some,
      Varstring.decode?_encode (hsized.value value rfl), List.drop_left]

namespace Reader

/-- A reader that stands before a stored record takes it. -/
theorem advance_encode {reader : Reader} {record : Record} {rest : Bytes}
    (herror : reader.error = none) (hremaining : reader.remaining = record.encode ++ rest)
    (hformed : record.Formed) (hsized : record.Sized) :
    reader.advance =
      (true, { reader with record, remaining := rest, decoded := reader.decoded + 1 }) := by
  rw [Record.encode_eq, List.cons_append] at hremaining
  exact advance_of_record herror hremaining (Front.ofTag_fields hformed hsized _ rest)

/-- The reader after so many more records, at the end of the body. -/
def exhausted (reader : Reader) (length : Nat) : Reader :=
  let counted := { reader with
    remaining := [], record := Record.deletion [], decoded := reader.decoded + UInt32.ofNat length }
  { counted with error := counted.countFault }

/-- A reader that stands before stored records takes all of them and comes to
the end of the body. -/
theorem drain_encode {records : List Record}
    (hrecords : ∀ record ∈ records, record.Formed ∧ record.Sized) {reader : Reader}
    (herror : reader.error = none) (hremaining : reader.remaining = records.flatMap Record.encode) :
    reader.drain = (records, reader.exhausted records.length) := by
  induction records generalizing reader with
  | nil =>
    obtain ⟨strict, header, remaining, record, error, decoded, reported⟩ := reader
    obtain rfl : error = none := herror
    obtain rfl : remaining = [] := hremaining
    have hnone : decoded + UInt32.ofNat ([] : List Record).length = decoded :=
      UInt32.add_zero decoded
    rw [drain_eq, exhausted]
    simp only [hnone]
    rfl
  | cons record records ih =>
    obtain ⟨hfirst, hlater⟩ := List.forall_mem_cons.mp hrecords
    have hcount : reader.decoded + 1 + UInt32.ofNat records.length =
        reader.decoded + UInt32.ofNat (record :: records).length := by
      rw [List.length_cons, Nat.add_comm, UInt32.ofNat_add, UInt32.add_assoc]
      rfl
    have hstep : reader.advance = (true, { reader with
        record, remaining := records.flatMap Record.encode, decoded := reader.decoded + 1 }) :=
      advance_encode herror hremaining hfirst.1 hfirst.2
    rw [drain_eq, hstep]
    simp only
    rw [ih hlater (by exact herror) rfl]
    simp only [exhausted, hcount]

/-- At the end of the body nothing more comes, when the count is right. -/
theorem next_exhausted {reader : Reader} {length : Nat}
    (h : (reader.exhausted length).error = none) : (reader.exhausted length).next.1 = none := by
  have hadvance : (reader.exhausted length).advance = (false, reader.exhausted length) :=
    advance_at_end h rfl
  unfold next
  rw [hadvance]
  simp only [h]
  split <;> rfl

end Reader

end Batch

end BatchStore
