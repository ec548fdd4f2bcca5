import BatchStore.Proofs.Grammar
import Mathlib.Data.List.Forall2

/-!
# Shortest codes

Of the codes of a number the one that is written is the shortest, and the only one of its
length. Lengths are the only place where records leave a choice: the stored form of a record
is the one code of it in which every length has its shortest code, and no other is as short.
-/

namespace BatchStore

namespace Varint

/-- What is written for a number is a code of it. -/
theorem encodes_encode {n : Nat} (h : n < UInt64.size) : Encodes (encode n) n := by
  have hread := decode?_encode h []
  obtain ⟨code, rest, hcode, hlength, hencodes⟩ := decode?_eq_some_iff.mp hread
  obtain ⟨rfl, -⟩ := List.append_inj hcode hlength.symm
  exact hencodes

theorem Encodes.unique {code : Bytes} {n other : Nat} (h : Encodes code n)
    (hother : Encodes code other) : n = other := by
  have hread := decode?_eq_some_iff.mpr ⟨code, [], rfl, rfl, h⟩
  rw [decode?_eq_some_iff.mpr ⟨code, [], rfl, rfl, hother⟩] at hread
  exact (Prod.mk.inj (Option.some.inj hread)).1.symm

theorem size_of_lt {n : Nat} (h : n < 128) : size n = 1 := by
  rw [size, if_pos h]

theorem size_of_le {n : Nat} (h : 128 ≤ n) : size n = size (n / 128) + 1 := by
  rw [size, if_neg (Nat.not_lt.mpr h)]

/-- No code of a number is shorter than the one that is written. -/
theorem Groups.size_le {code : Bytes} {n : Nat} (h : Groups code n) : size n ≤ code.length := by
  induction h with
  | @last b hlast =>
    rw [size_of_lt hlast]
    exact Nat.le_refl 1
  | @more b code n hmore high ih =>
    have hpos := high.length_pos
    rw [List.length_cons]
    rcases Nat.eq_zero_or_pos n with rfl | hsome
    · rw [size_of_lt (by omega)]
      omega
    · have hhigh : (b.toNat % 128 + 128 * n) / 128 = n := by omega
      rw [size_of_le (by omega), hhigh]
      omega

/-- A code that is as short as the one that is written is the same. -/
theorem Groups.eq_encode {code : Bytes} {n : Nat} (h : Groups code n)
    (hshort : code.length = size n) : code = encode n := by
  induction h with
  | @last b hlast => rw [encode_of_lt hlast, UInt8.ofNat_toNat]
  | @more b code n hmore high ih =>
    have hpos := high.length_pos
    rw [List.length_cons] at hshort
    rcases Nat.eq_zero_or_pos n with rfl | hsome
    · -- a high part of zero makes the code longer than it need be
      rw [size_of_lt (by omega)] at hshort
      omega
    · have hhigh : (b.toNat % 128 + 128 * n) / 128 = n := by omega
      have hlow : (b.toNat % 128 + 128 * n) % 128 + 128 = b.toNat := by
        have hb := b.toNat_lt
        omega
      rw [size_of_le (by omega), hhigh] at hshort
      rw [encode_of_le (by omega), hhigh, hlow, UInt8.ofNat_toNat, ← ih (by omega)]

/-- The code holds a number, and no code of that number is shorter. -/
def Shortest (code : Bytes) : Prop :=
  ∃ n, Encodes code n ∧ ∀ other, Encodes other n → code.length ≤ other.length

theorem Encodes.shortest_iff {code : Bytes} {n : Nat} (h : Encodes code n) :
    Shortest code ↔ code.length = size n := by
  constructor
  · rintro ⟨m, hcode, hleast⟩
    obtain rfl := hcode.unique h
    have hwritten := hleast _ (encodes_encode hcode.fits)
    rw [length_encode] at hwritten
    exact Nat.le_antisymm hwritten hcode.groups.size_le
  · intro hshort
    exact ⟨n, h, fun other hother => hshort ▸ hother.groups.size_le⟩

end Varint

namespace Record

/-- The octets are a code of the record, in which the lengths have these codes. -/
inductive Spelled : List Bytes → Bytes → Record → Prop where
  | valued {tag : UInt8} {key keyLength value valueLength : Bytes} (htag : tag = 1 ∨ tag = 2)
    (hkey : Varint.Encodes keyLength key.length)
    (hvalue : Varint.Encodes valueLength value.length) :
    Spelled [keyLength, valueLength] (tag :: ((keyLength ++ key) ++ (valueLength ++ value)))
      ⟨.ofTag tag, key, some value⟩
  | bare {tag : UInt8} {key keyLength : Bytes} (htag : ¬(tag = 1 ∨ tag = 2))
    (hkey : Varint.Encodes keyLength key.length) :
    Spelled [keyLength] (tag :: (keyLength ++ key)) ⟨.ofTag tag, key, none⟩

variable {lengths : List Bytes} {code : Bytes} {record : Record}

/-- Every code of a record has codes of its lengths in it. -/
theorem Encodes.spelled (h : Encodes code record) : ∃ lengths, Spelled lengths code record := by
  cases h with
  | valued htag hkey hvalue =>
    obtain ⟨keyLength, hkey, rfl⟩ := hkey
    obtain ⟨valueLength, hvalue, rfl⟩ := hvalue
    exact ⟨_, .valued htag hkey hvalue⟩
  | bare htag hkey =>
    obtain ⟨keyLength, hkey, rfl⟩ := hkey
    exact ⟨_, .bare htag hkey⟩

theorem Encodes.sized (h : Encodes code record) : record.Sized := by
  cases h with
  | valued htag hkey hvalue =>
    obtain ⟨_, hkey, _⟩ := hkey
    obtain ⟨_, hvalue, _⟩ := hvalue
    refine ⟨hkey.fits, ?_⟩
    rintro _ ⟨⟩
    exact hvalue.fits
  | bare htag hkey =>
    obtain ⟨_, hkey, _⟩ := hkey
    exact ⟨hkey.fits, nofun⟩

theorem Encodes.formed (h : Encodes code record) (hknown : record.kind.isKnown = true) :
    record.Formed := by
  refine ⟨hknown, ?_⟩
  cases h with
  | @valued tag _ _ _ _ htag _ _ => exact ((RecordKind.hasValue_ofTag tag).mpr htag).symm
  | @bare tag _ _ htag _ =>
    exact (Bool.eq_false_iff.mpr fun hhas =>
      htag ((RecordKind.hasValue_ofTag tag).mp hhas)).symm

theorem encode_valued (tag : UInt8) (key value : Bytes) :
    (⟨.ofTag tag, key, some value⟩ : Record).encode =
      tag :: ((Varint.encode key.length ++ key) ++ (Varint.encode value.length ++ value)) := by
  rw [encode_eq, RecordKind.tag_ofTag]
  rfl

theorem encode_bare (tag : UInt8) (key : Bytes) :
    (⟨.ofTag tag, key, none⟩ : Record).encode =
      tag :: (Varint.encode key.length ++ key) := by
  rw [encode_eq, RecordKind.tag_ofTag, fields, Option.map_none, Option.getD_none,
    List.append_nil]
  rfl

/-- No code of a record is shorter than its stored form. -/
theorem Spelled.length_encode_le (h : Spelled lengths code record) :
    record.encode.length ≤ code.length := by
  cases h with
  | valued htag hkey hvalue =>
    have hkeySize := hkey.groups.size_le
    have hvalueSize := hvalue.groups.size_le
    rw [encode_valued]
    simp only [List.length_cons, List.length_append, Varint.length_encode]
    omega
  | bare htag hkey =>
    have hkeySize := hkey.groups.size_le
    rw [encode_bare]
    simp only [List.length_cons, List.length_append, Varint.length_encode]
    omega

/-- The stored form is the code in which all lengths have their shortest codes. -/
theorem Spelled.eq_encode_iff (h : Spelled lengths code record) :
    code = record.encode ↔ ∀ length ∈ lengths, Varint.Shortest length := by
  cases h with
  | @valued tag key keyLength value valueLength htag hkey hvalue =>
    have hkeySize := hkey.groups.size_le
    have hvalueSize := hvalue.groups.size_le
    rw [List.forall_mem_cons, List.forall_mem_singleton, hkey.shortest_iff, hvalue.shortest_iff,
      encode_valued]
    constructor
    · intro hsame
      have hlength := congrArg List.length hsame
      simp only [List.length_cons, List.length_append, Varint.length_encode] at hlength
      omega
    · rintro ⟨hkeyShort, hvalueShort⟩
      rw [hkey.groups.eq_encode hkeyShort, hvalue.groups.eq_encode hvalueShort]
  | @bare tag key keyLength htag hkey =>
    rw [List.forall_mem_singleton, hkey.shortest_iff, encode_bare]
    constructor
    · intro hsame
      have hlength := congrArg List.length hsame
      simp only [List.length_cons, List.length_append, Varint.length_encode] at hlength
      omega
    · intro hkeyShort
      rw [hkey.groups.eq_encode hkeyShort]

end Record

namespace Batch

/-- The body is a sequence of codes of the records, in which the lengths have these codes. -/
inductive Spelled : List Bytes → Bytes → List Record → Prop where
  | nil : Spelled [] [] []
  | cons {lengths later : List Bytes} {code body : Bytes} {record : Record}
    {records : List Record} (hfirst : record.Spelled lengths code)
    (hlater : Spelled later body records) :
    Spelled (lengths ++ later) (code ++ body) (record :: records)

/-- Every sequence of codes has codes of the lengths in it. -/
theorem exists_spelled {codes : List Bytes} {records : List Record}
    (h : List.Forall₂ Record.Encodes codes records) :
    ∃ lengths, Spelled lengths codes.flatten records := by
  induction h with
  | nil => exact ⟨[], .nil⟩
  | cons hfirst _ ih =>
    obtain ⟨lengths, hlengths⟩ := hfirst.spelled
    obtain ⟨later, hlater⟩ := ih
    exact ⟨lengths ++ later, .cons hlengths hlater⟩

variable {lengths : List Bytes} {body : Bytes} {records : List Record}

/-- No body with these records is shorter than their stored forms. -/
theorem Spelled.length_flatMap_le (h : Spelled lengths body records) :
    (records.flatMap Record.encode).length ≤ body.length := by
  induction h with
  | nil => exact Nat.le_refl 0
  | cons hfirst _ ih =>
    have hcode := hfirst.length_encode_le
    rw [List.flatMap_cons, List.length_append, List.length_append]
    omega

/-- The stored forms are the body in which all lengths have their shortest codes. -/
theorem Spelled.eq_flatMap_iff (h : Spelled lengths body records) :
    body = records.flatMap Record.encode ↔ ∀ length ∈ lengths, Varint.Shortest length := by
  induction h with
  | nil => exact ⟨fun _ => nofun, fun _ => rfl⟩
  | @cons lengths later code body record records hfirst hlater ih =>
    rw [List.forall_mem_append, ← hfirst.eq_encode_iff, ← ih, List.flatMap_cons]
    constructor
    · intro hsame
      -- neither part can make up for octets that the other one wastes
      have hcode := hfirst.length_encode_le
      have hbody := hlater.length_flatMap_le
      have hlength := congrArg List.length hsame
      rw [List.length_append, List.length_append] at hlength
      exact List.append_inj hsame (by omega)
    · rintro ⟨hcode, hbody⟩
      rw [← hcode, ← hbody]

end Batch

end BatchStore
