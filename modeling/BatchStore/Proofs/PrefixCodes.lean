import BatchStore.Proofs.ShortestCodes

/-!
# Codes that do not begin one another

What is written for a number or for a byte string is read back, whatever comes behind it, and no
proper beginning of it is read. Whatever is read as a number takes up at least as many octets as
are written for it.
-/

namespace BatchStore

/-- A reader that does not mind bytes behind what it takes reads no proper beginning of a code. -/
theorem none_of_piece {α : Type} {read : Bytes → Option (α × Nat)}
    (hbehind : ∀ {bytes found used}, read bytes = some (found, used) →
      ∀ rest, read (bytes ++ rest) = some (found, used))
    (hbounds : ∀ {bytes found used}, read bytes = some (found, used) →
      0 < used ∧ used ≤ bytes.length)
    {code piece : Bytes} {data : α} (hcode : read code = some (data, code.length))
    (hbegins : piece <+: code) (hshort : piece ≠ code) : read piece = none := by
  cases hread : read piece with
  | none => rfl
  | some pair =>
    obtain ⟨found, used⟩ := pair
    obtain ⟨rest, hrest⟩ := hbegins
    have hsame := hbehind hread rest
    rw [hrest, hcode] at hsame
    obtain ⟨-, rfl⟩ := Prod.mk.inj (Option.some.inj hsame)
    have hlength : code.length ≤ piece.length := (hbounds hread).2
    exact absurd (List.IsPrefix.eq_of_length_le ⟨rest, hrest⟩ hlength) hshort

namespace Varint

theorem size_le_maxSize {n : Nat} (h : n < UInt64.size) : size n ≤ maxSize := by
  rw [← length_encode]
  exact (encodes_encode h).short

theorem size_le_of_decode? {bytes : Bytes} {n used : Nat} (h : decode? bytes = some (n, used)) :
    size n ≤ used := by
  obtain ⟨code, rest, -, rfl, hcode⟩ := decode?_eq_some_iff.mp h
  exact hcode.groups.size_le

theorem decode?_of_piece {n : Nat} {piece : Bytes} (h : n < UInt64.size)
    (hbegins : piece <+: encode n) (hshort : piece ≠ encode n) : decode? piece = none := by
  have hcode := decode?_encode h []
  rw [List.append_nil] at hcode
  exact none_of_piece decode?_append decode?_bounds hcode hbegins hshort

end Varint

theorem Varstring.decode?_of_piece {data piece : Bytes} (h : data.length < UInt64.size)
    (hbegins : piece <+: encode data) (hshort : piece ≠ encode data) : decode? piece = none := by
  have hcode := decode?_encode h []
  rw [List.append_nil] at hcode
  exact none_of_piece decode?_append decode?_bounds hcode hbegins hshort

/-- Every number of 64 bits is read back from its code, which has the size that is computed for
it and ten octets at most. No proper beginning of the code is read, and whatever is read as the
number takes up at least as many octets. Every byte string is read back from its code, and no
proper beginning of that is read. -/
theorem codes_minimal_and_prefix_free :
    (∀ v : UInt64,
      (∀ rest, Varint.decode? (Varint.encode v.toNat ++ rest) =
        some (v.toNat, Varint.size v.toNat)) ∧
      (Varint.encode v.toNat).length = Varint.size v.toNat ∧
      Varint.size v.toNat ≤ Varint.maxSize ∧
      (∀ piece, piece <+: Varint.encode v.toNat → piece ≠ Varint.encode v.toNat →
        Varint.decode? piece = none) ∧
      ∀ bytes used, Varint.decode? bytes = some (v.toNat, used) → Varint.size v.toNat ≤ used) ∧
    ∀ data : Bytes, data.length < UInt64.size →
      (∀ rest, Varstring.decode? (Varstring.encode data ++ rest) =
        some (data, (Varstring.encode data).length)) ∧
      ∀ piece, piece <+: Varstring.encode data → piece ≠ Varstring.encode data →
        Varstring.decode? piece = none := by
  constructor
  · intro v
    have hfits : v.toNat < UInt64.size := v.toNat_lt
    refine ⟨fun rest => ?_, Varint.length_encode _, Varint.size_le_maxSize hfits,
      fun piece => Varint.decode?_of_piece hfits, fun bytes used => Varint.size_le_of_decode?⟩
    rw [Varint.decode?_encode hfits, Varint.length_encode]
  · intro data hdata
    exact ⟨Varstring.decode?_encode hdata, fun piece => Varstring.decode?_of_piece hdata⟩

/-- The number 300 takes two octets; it is read from three as well, and not from the first of
the two. A string of 200 octets that ends early is not read. -/
theorem codes_minimal_and_prefix_free_two_octets :
    let data : Bytes := List.replicate 200 7
    Varint.decode? (Varint.encode 300 ++ [9]) = some (300, 2) ∧ Varint.decode? [172] = none ∧
      Varint.decode? [172, 130, 0] = some (300, 3) ∧ Varint.size 300 ≤ 3 ∧
      Varstring.decode? (Varstring.encode data ++ [9]) = some (data, 202) ∧
      Varstring.decode? ((Varstring.encode data).take 201) = none := by
  intro data
  obtain ⟨hnumbers, hstrings⟩ := codes_minimal_and_prefix_free
  obtain ⟨hread, -, -, hpiece, hleast⟩ := hnumbers 300
  obtain ⟨hreadString, hpieceString⟩ := hstrings data (by decide +kernel)
  have hsize : Varint.size 300 = 2 := by decide +kernel
  have hcode : Varint.encode 300 = [172, 2] := by decide +kernel
  have hlong : Varint.decode? [172, 130, 0] = some (300, 3) := by decide
  have hlength : (Varstring.encode data).length = 202 := by decide +kernel
  refine ⟨hsize ▸ hread [9], hpiece [172] ?_ ?_, hlong, hleast _ 3 hlong,
    hlength ▸ hreadString [9], hpieceString _ (List.take_prefix 201 _) ?_⟩
  · show [172] <+: Varint.encode 300
    rw [hcode]
    exact ⟨[2], rfl⟩
  · show [172] ≠ Varint.encode 300
    rw [hcode]
    nofun
  · intro hsame
    have htaken := congrArg List.length hsame
    rw [List.length_take, hlength] at htaken
    omega

end BatchStore
