import BatchStore.Bytes

/-!
# Fixed-width integers in byte strings

Reading the octets of a number back gives the number, and writing the number
that octets stand for gives the octets.
-/

namespace BatchStore.Bytes

theorem range_four : range 4 = UInt32.size := rfl

theorem range_eight : range 8 = UInt64.size := rfl

theorem range_le {low high : Nat} (h : low ≤ high) : range low ≤ range high := by
  induction h with
  | refl => exact Nat.le_refl _
  | step _ ih =>
    rw [range]
    omega

theorem isSome_front? (width : Nat) (bytes : Bytes) :
    (front? width bytes).isSome = true ↔ width ≤ bytes.length := by
  have hlength : (bytes.take width).length = width ↔ width ≤ bytes.length := by
    rw [List.length_take]
    omega
  rw [← hlength]
  unfold front?
  simp only
  split <;> simp_all

theorem front?_append (width n : Nat) (rest : Bytes) :
    front? width (ofNat width n ++ rest) = some (n % range width) := by
  have htake : (ofNat width n ++ rest).take width = ofNat width n :=
    List.take_left' (length_ofNat width n)
  simp only [front?, htake, length_ofNat, toNat_ofNat, if_true]

theorem word32?_append (w : UInt32) (rest : Bytes) : word32? (ofWord32 w ++ rest) = some w := by
  unfold word32? ofWord32
  rw [front?_append, range_four, Nat.mod_eq_of_lt w.toNat_lt, Option.map_some, UInt32.ofNat_toNat]

theorem word64?_append (w : UInt64) (rest : Bytes) : word64? (ofWord64 w ++ rest) = some w := by
  unfold word64? ofWord64
  rw [front?_append, range_eight, Nat.mod_eq_of_lt w.toNat_lt, Option.map_some, UInt64.ofNat_toNat]

theorem ofNat_toNat (bytes : Bytes) : ofNat bytes.length (toNat bytes) = bytes := by
  induction bytes with
  | nil => rfl
  | cons b rest ih =>
    have hb := b.toNat_lt
    have hlow : UInt8.ofNat (b.toNat + 256 * toNat rest) = b := by
      apply UInt8.toNat_inj.mp
      rw [UInt8.toNat_ofNat']
      omega
    have hhigh : (b.toNat + 256 * toNat rest) / 256 = toNat rest := by omega
    simp only [List.length_cons, toNat, ofNat]
    rw [hlow, hhigh, ih]

/-- The octets that were read as a number stand in front of the others. -/
theorem append_drop_of_front? {width n : Nat} {bytes : Bytes} (h : front? width bytes = some n) :
    ofNat width n ++ bytes.drop width = bytes ∧ n < range width := by
  unfold front? at h
  simp only at h
  split at h
  · next hlength =>
    obtain rfl := Option.some.inj h
    have hback := ofNat_toNat (bytes.take width)
    have hlt := toNat_lt (bytes.take width)
    rw [hlength] at hback hlt
    rw [hback]
    exact ⟨List.take_append_drop width bytes, hlt⟩
  · cases h

theorem append_drop_of_word32? {w : UInt32} {bytes : Bytes} (h : word32? bytes = some w) :
    ofWord32 w ++ bytes.drop 4 = bytes := by
  obtain ⟨n, hfront, rfl⟩ := Option.map_eq_some_iff.mp h
  obtain ⟨hbytes, hlt⟩ := append_drop_of_front? hfront
  rw [ofWord32, UInt32.toNat_ofNat_of_lt' hlt]
  exact hbytes

theorem append_drop_of_word64? {w : UInt64} {bytes : Bytes} (h : word64? bytes = some w) :
    ofWord64 w ++ bytes.drop 8 = bytes := by
  obtain ⟨n, hfront, rfl⟩ := Option.map_eq_some_iff.mp h
  obtain ⟨hbytes, hlt⟩ := append_drop_of_front? hfront
  rw [ofWord64, UInt64.toNat_ofNat_of_lt' hlt]
  exact hbytes

theorem toNat_lt_word32 {bytes : Bytes} (h : bytes.length = 4) : toNat bytes < UInt32.size := by
  have hlt := toNat_lt bytes
  rw [h] at hlt
  exact hlt

theorem length_ofWord32 (w : UInt32) : (ofWord32 w).length = 4 := length_ofNat 4 _

theorem ofNat_toNat_ofWord32 (w : UInt32) : UInt32.ofNat (toNat (ofWord32 w)) = w := by
  unfold ofWord32
  rw [toNat_ofNat, range_four, Nat.mod_eq_of_lt w.toNat_lt, UInt32.ofNat_toNat]

theorem ofWord32_ofNat_toNat {bytes : Bytes} (h : bytes.length = 4) :
    ofWord32 (UInt32.ofNat (toNat bytes)) = bytes := by
  unfold ofWord32
  rw [UInt32.toNat_ofNat_of_lt' (toNat_lt_word32 h)]
  have hback := ofNat_toNat bytes
  rw [h] at hback
  exact hback

end BatchStore.Bytes
