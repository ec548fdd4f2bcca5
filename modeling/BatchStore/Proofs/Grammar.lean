import BatchStore.Proofs.Reading

/-!
# The grammar of records

A record is a tag, a key and, for two of the tags, a value. Keys and values are
preceded by their length, in any code of at most ten octets: a number has longer
codes than the one that is written. The grammar is stated on its own; each reader
takes what the grammar gives, with any bytes behind it, and nothing else.
-/

namespace BatchStore

namespace Varint

/-- The octets hold the number in groups of seven bits, the lowest group first;
every octet but the last carries the bit `0x80`. -/
inductive Groups : Bytes → Nat → Prop where
  | last {b : UInt8} (h : b.toNat < 128) : Groups [b] b.toNat
  | more {b : UInt8} {code : Bytes} {n : Nat} (h : 128 ≤ b.toNat) (high : Groups code n) :
    Groups (b :: code) (b.toNat % 128 + 128 * n)

/-- The octets are a code of the number, the shortest or a longer one. -/
structure Encodes (code : Bytes) (n : Nat) : Prop where
  groups : Groups code n
  short : code.length ≤ maxSize
  fits : n < UInt64.size

theorem Groups.length_pos {code : Bytes} {n : Nat} (h : Groups code n) : 0 < code.length := by
  cases h <;> exact Nat.zero_lt_succ _

theorem numbers_pos (octets : Nat) : 0 < numbers (octets + 1) := by
  induction octets with
  | zero => decide
  | succ octets ih => exact Nat.mul_pos (by decide) ih

/-- A reader that still takes so many octets finds a code with a number that
has room in them. -/
theorem decodeFrom?_sound {octets position n used : Nat} {bytes : Bytes}
    (hroom : position + octets = maxSize) (h : decodeFrom? position bytes = some (n, used)) :
    ∃ code rest, bytes = code ++ rest ∧ code.length = used ∧ Groups code n ∧ used ≤ octets ∧
      n < numbers octets := by
  induction bytes generalizing octets position n used with
  | nil => cases h
  | cons b bytes ih =>
    simp only [decodeFrom?] at h
    split at h
    · cases h
    next hposition =>
    obtain ⟨octets, rfl⟩ : ∃ left, octets = left + 1 := ⟨octets - 1, by omega⟩
    split at h
    · cases h
    next hgroup =>
    have hbit : octets = 0 → b.toNat % 128 < 2 := by omega
    split at h
    · next hlast =>
      obtain ⟨rfl, rfl⟩ := Prod.mk.inj (Option.some.inj h)
      refine ⟨[b], bytes, rfl, rfl, .last hlast, by omega, ?_⟩
      cases octets with
      | zero =>
        show b.toNat < 2
        have hlow := hbit rfl
        omega
      | succ octets =>
        have hpos := numbers_pos octets
        show b.toNat < 128 * numbers (octets + 1)
        omega
    · next hmore =>
      obtain ⟨⟨high, taken⟩, hhigh, hpair⟩ := Option.map_eq_some_iff.mp h
      obtain ⟨rfl, rfl⟩ := Prod.mk.inj hpair
      have hleft : position + 1 + octets = maxSize := by omega
      obtain ⟨code, rest, rfl, hlength, hgroups, htaken, hfits⟩ := ih hleft hhigh
      refine ⟨b :: code, rest, rfl, congrArg (· + 1) hlength,
        .more (Nat.le_of_not_lt hmore) hgroups, by omega, ?_⟩
      cases octets with
      | zero => exact absurd hfits (Nat.not_lt_zero _)
      | succ octets =>
        show b.toNat % 128 + 128 * high < 128 * numbers (octets + 1)
        omega

/-- A code is read whatever comes behind it, from any position that leaves room
for it. -/
theorem decodeFrom?_complete {code : Bytes} {n : Nat} (h : Groups code n) {octets position : Nat}
    (hroom : position + octets = maxSize) (hshort : code.length ≤ octets)
    (hfits : n < numbers octets) (rest : Bytes) :
    decodeFrom? position (code ++ rest) = some (n, code.length) := by
  induction h generalizing octets position with
  | @last b hlast =>
    have hposition : ¬maxSize ≤ position := by
      rw [List.length_singleton] at hshort
      omega
    have hgroup : ¬(position + 1 = maxSize ∧ 1 < b.toNat % 128) := by
      rintro ⟨htenth, hgroup⟩
      obtain rfl : octets = 1 := by omega
      have hbit : b.toNat < 2 := hfits
      omega
    rw [List.singleton_append, decodeFrom?, if_neg hposition, if_neg hgroup, if_pos hlast]
    rfl
  | @more b code n hmore hgroups ih =>
    have hpos := hgroups.length_pos
    rw [List.length_cons] at hshort
    -- there is room for at least one octet more
    obtain ⟨octets, rfl⟩ : ∃ left, octets = left + 2 := ⟨octets - 2, by omega⟩
    have hhigh : n < numbers (octets + 1) := by
      have hall : b.toNat % 128 + 128 * n < 128 * numbers (octets + 1) := hfits
      omega
    have hposition : ¬maxSize ≤ position := by omega
    have htenth : ¬(position + 1 = maxSize ∧ 1 < b.toNat % 128) := by omega
    rw [List.cons_append, decodeFrom?, if_neg hposition, if_neg htenth,
      if_neg (Nat.not_lt.mpr hmore), ih (by omega) (by omega) hhigh, Option.map_some]
    rfl

theorem decode?_eq_some_iff {bytes : Bytes} {n used : Nat} :
    decode? bytes = some (n, used) ↔
      ∃ code rest, bytes = code ++ rest ∧ code.length = used ∧ Encodes code n := by
  constructor
  · intro h
    obtain ⟨code, rest, hbytes, rfl, hgroups, hshort, hfits⟩ :=
      decodeFrom?_sound (Nat.zero_add maxSize) h
    rw [numbers_maxSize] at hfits
    exact ⟨code, rest, hbytes, rfl, hgroups, hshort, hfits⟩
  · rintro ⟨code, rest, rfl, rfl, hcode⟩
    have hfits := hcode.fits
    rw [← numbers_maxSize] at hfits
    exact decodeFrom?_complete hcode.groups (Nat.zero_add maxSize) hcode.short hfits rest

/-- Bytes behind a number that was read change nothing. -/
theorem decode?_append {bytes : Bytes} {n used : Nat} (h : decode? bytes = some (n, used))
    (rest : Bytes) : decode? (bytes ++ rest) = some (n, used) := by
  obtain ⟨code, behind, rfl, rfl, hcode⟩ := decode?_eq_some_iff.mp h
  exact decode?_eq_some_iff.mpr ⟨code, behind ++ rest, List.append_assoc .., rfl, hcode⟩

end Varint

namespace Varstring

/-- The octets are a length and then the data. -/
def Encodes (code data : Bytes) : Prop :=
  ∃ length, Varint.Encodes length data.length ∧ code = length ++ data

theorem decode?_eq_some_iff {bytes data : Bytes} {used : Nat} :
    decode? bytes = some (data, used) ↔
      ∃ code rest, bytes = code ++ rest ∧ code.length = used ∧ Encodes code data := by
  constructor
  · intro h
    unfold decode? at h
    split at h
    · cases h
    next length taken hlength =>
    obtain ⟨code, rest, rfl, rfl, hcode⟩ := Varint.decode?_eq_some_iff.mp hlength
    simp only [List.drop_left] at h
    split at h
    · next hfull =>
      obtain ⟨rfl, rfl⟩ := Prod.mk.inj (Option.some.inj h)
      refine ⟨code ++ rest.take length, rest.drop length, ?_, ?_, code, ?_, rfl⟩
      · rw [List.append_assoc, List.take_append_drop]
      · rw [List.length_append, hfull]
      · rw [hfull]
        exact hcode
    · cases h
  · rintro ⟨_, rest, rfl, rfl, code, hcode, rfl⟩
    have hlength := Varint.decode?_eq_some_iff.mpr
      ⟨code, data ++ rest, rfl, rfl, hcode⟩
    unfold decode?
    rw [List.append_assoc, hlength]
    simp only [List.drop_left, List.take_left, if_true, List.length_append]

/-- Bytes behind a string that was read change nothing. -/
theorem decode?_append {bytes data : Bytes} {used : Nat} (h : decode? bytes = some (data, used))
    (rest : Bytes) : decode? (bytes ++ rest) = some (data, used) := by
  obtain ⟨code, behind, rfl, rfl, hcode⟩ := decode?_eq_some_iff.mp h
  exact decode?_eq_some_iff.mpr ⟨code, behind ++ rest, List.append_assoc .., rfl, hcode⟩

end Varstring

/-- The octets are a tag, a key and, exactly for the tags 1 and 2, a value. -/
inductive Record.Encodes : Bytes → Record → Prop where
  | valued {tag : UInt8} {key keyCode value valueCode : Bytes} (htag : tag = 1 ∨ tag = 2)
    (hkey : Varstring.Encodes keyCode key) (hvalue : Varstring.Encodes valueCode value) :
    Encodes (tag :: (keyCode ++ valueCode)) ⟨.ofTag tag, key, some value⟩
  | bare {tag : UInt8} {key keyCode : Bytes} (htag : ¬(tag = 1 ∨ tag = 2))
    (hkey : Varstring.Encodes keyCode key) :
    Encodes (tag :: keyCode) ⟨.ofTag tag, key, none⟩

theorem RecordKind.hasValue_ofTag (tag : UInt8) :
    (ofTag tag).hasValue = true ↔ tag = 1 ∨ tag = 2 := by
  unfold ofTag
  split
  · next h => simp [hasValue, h]
  split
  · next h => simp [hasValue, h]
  split
  · next h => simp [hasValue, h]
  split <;> simp_all [hasValue]

theorem Varstring.Encodes.length_pos {code data : Bytes} (h : Varstring.Encodes code data) :
    0 < code.length := by
  obtain ⟨length, hlength, rfl⟩ := h
  have hpos := hlength.groups.length_pos
  rw [List.length_append]
  omega

/-- The shortest records are a tag and an empty key. -/
theorem Record.Encodes.two_le_length {code : Bytes} {record : Record} (h : Encodes code record) :
    2 ≤ code.length := by
  cases h with
  | valued htag hkey hvalue =>
    have hpos := hkey.length_pos
    rw [List.length_cons, List.length_append]
    omega
  | bare htag hkey =>
    have hpos := hkey.length_pos
    rw [List.length_cons]
    omega

namespace Batch.Front

/-- A lenient reader takes the record that the grammar finds in front. -/
theorem ofTag_eq_record_iff {tag : UInt8} {fields rest : Bytes} {record : Record} :
    ofTag false tag fields = .record record rest ↔
      ∃ code, tag :: fields = code ++ rest ∧ Record.Encodes code record := by
  have hvalued := RecordKind.hasValue_ofTag tag
  constructor
  · intro h
    unfold ofTag ofValue at h
    simp only [Bool.false_and, Bool.false_eq_true, if_false] at h
    split at h
    · next key used hkey =>
      obtain ⟨keyCode, behind, rfl, rfl, hkeyCode⟩ := Varstring.decode?_eq_some_iff.mp hkey
      rw [List.drop_left] at h
      split at h
      · next hhas =>
        split at h
        · next value used hvalue =>
          obtain ⟨valueCode, left, rfl, rfl, hvalueCode⟩ :=
            Varstring.decode?_eq_some_iff.mp hvalue
          rw [List.drop_left] at h
          obtain ⟨rfl, rfl⟩ := Front.record.inj h
          refine ⟨_, ?_, .valued (hvalued.mp hhas) hkeyCode hvalueCode⟩
          rw [List.cons_append, List.append_assoc]
        · cases h
      · next hhas =>
        obtain ⟨rfl, rfl⟩ := Front.record.inj h
        exact ⟨_, rfl, .bare (fun htag => hhas (hvalued.mpr htag)) hkeyCode⟩
    · cases h
  · rintro ⟨code, hcode, hencodes⟩
    unfold ofTag ofValue
    simp only [Bool.false_and, Bool.false_eq_true, if_false]
    cases hencodes with
    | @valued tag' key keyCode value valueCode htag hkey hvalue =>
      rw [List.cons_append, List.append_assoc] at hcode
      obtain ⟨rfl, rfl⟩ := List.cons.inj hcode
      have hreadKey := Varstring.decode?_eq_some_iff.mpr
        ⟨keyCode, valueCode ++ rest, rfl, rfl, hkey⟩
      have hreadValue := Varstring.decode?_eq_some_iff.mpr ⟨valueCode, rest, rfl, rfl, hvalue⟩
      simp only [hreadKey, List.drop_left, if_pos (hvalued.mpr htag), hreadValue]
    | @bare tag' key keyCode htag hkey =>
      rw [List.cons_append] at hcode
      obtain ⟨rfl, rfl⟩ := List.cons.inj hcode
      have hreadKey := Varstring.decode?_eq_some_iff.mpr ⟨keyCode, rest, rfl, rfl, hkey⟩
      simp only [hreadKey, List.drop_left, if_neg (fun hhas => htag (hvalued.mp hhas))]

/-- A lenient reader knows one fault. -/
theorem ofTag_eq_fault {tag : UInt8} {fields rest : Bytes} {error : BatchError}
    (h : ofTag false tag fields = .fault error rest) : error = .shortBuffer := by
  unfold ofTag ofValue at h
  simp only [Bool.false_and, Bool.false_eq_true, if_false] at h
  split at h
  · split at h
    · split at h
      · cases h
      · exact (Front.fault.inj h).1.symm
    · cases h
  · exact (Front.fault.inj h).1.symm

end Batch.Front

end BatchStore
