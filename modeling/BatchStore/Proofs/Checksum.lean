import BatchStore.Checksum
import BatchStore.Proofs.Bytes
import Mathlib.Logic.Function.Iterate

/-!
# What the checksum detects

The register is shifted linearly over exclusive or and injectively, since the top
bit of the polynomial is set. Four octets pass through the register as one word.
So two byte strings that differ in four consecutive octets or fewer, and nowhere
else, have different checksums.
-/

namespace BatchStore.Checksum

theorem low_bit (x : UInt32) : x &&& 1 = 0 ∨ x &&& 1 = 1 := by
  have hlow : (x &&& 1).toNat = x.toNat % 2 := by
    rw [UInt32.toNat_and]
    exact Nat.and_one_is_mod x.toNat
  rcases Nat.mod_two_eq_zero_or_one x.toNat with heven | hodd
  · exact .inl (UInt32.toNat_inj.mp (hlow.trans heven))
  · exact .inr (UInt32.toNat_inj.mp (hlow.trans hodd))

theorem low_bit_xor (x y : UInt32) : (x ^^^ y) &&& 1 = (x &&& 1) ^^^ (y &&& 1) := by
  apply UInt32.toNat_inj.mp
  simp only [UInt32.toNat_and, UInt32.toNat_xor]
  exact Nat.and_xor_distrib_right

theorem shift_of_even {x : UInt32} (h : x &&& 1 = 0) : shift x = x >>> 1 := by
  unfold shift
  rw [h]
  exact if_neg (by decide)

theorem shift_of_odd {x : UInt32} (h : x &&& 1 = 1) : shift x = (x >>> 1) ^^^ 0xEDB88320 :=
  if_pos h

theorem shift_xor (x y : UInt32) : shift (x ^^^ y) = shift x ^^^ shift y := by
  have hlow := low_bit_xor x y
  rcases low_bit x with hx | hx <;> rcases low_bit y with hy | hy <;> rw [hx, hy] at hlow
  · rw [shift_of_even hlow, shift_of_even hx, shift_of_even hy, UInt32.shiftRight_xor]
  · rw [shift_of_odd hlow, shift_of_even hx, shift_of_odd hy, UInt32.shiftRight_xor,
      UInt32.xor_assoc]
  · rw [shift_of_odd hlow, shift_of_odd hx, shift_of_even hy, UInt32.shiftRight_xor,
      UInt32.xor_assoc, UInt32.xor_assoc, UInt32.xor_comm (y >>> 1)]
  · -- the polynomial is added twice
    rw [shift_of_even hlow, shift_of_odd hx, shift_of_odd hy, UInt32.shiftRight_xor,
      UInt32.xor_assoc, UInt32.xor_comm (y >>> 1), ← UInt32.xor_assoc 0xEDB88320,
      UInt32.xor_self, UInt32.zero_xor]

theorem toNat_half (x : UInt32) : (x >>> 1).toNat = x.toNat / 2 := by
  rw [UInt32.toNat_shiftRight]
  rfl

/-- Only the empty register is shifted to the empty register. -/
theorem eq_zero_of_shift {x : UInt32} (h : shift x = 0) : x = 0 := by
  have hhalf := toNat_half x
  have hlt := x.toNat_lt
  rcases low_bit x with heven | hodd
  · rw [shift_of_even heven] at h
    rw [h] at hhalf
    have hlow : x.toNat % 2 = 0 := by
      rw [← Nat.and_one_is_mod]
      exact (UInt32.toNat_and x 1).symm.trans (congrArg UInt32.toNat heven)
    apply UInt32.toNat_inj.mp
    show x.toNat = 0
    have hzero : (0 : UInt32).toNat = 0 := rfl
    omega
  · -- the polynomial has the top bit, half of the register has not
    rw [shift_of_odd hodd, UInt32.xor_eq_zero_iff] at h
    rw [h] at hhalf
    have hpolynomial : (0xEDB88320 : UInt32).toNat = 3988292384 := rfl
    omega

theorem shift_injective : Function.Injective shift := by
  intro x y h
  apply UInt32.xor_eq_zero_iff.mp
  apply eq_zero_of_shift
  rw [shift_xor, h, UInt32.xor_self]

theorem shift_double {n : Nat} (h : 2 * n < UInt32.size) :
    shift (UInt32.ofNat (2 * n)) = UInt32.ofNat n := by
  have hwhole : (UInt32.ofNat (2 * n)).toNat = 2 * n := UInt32.toNat_ofNat_of_lt' h
  have heven : UInt32.ofNat (2 * n) &&& 1 = 0 := by
    apply UInt32.toNat_inj.mp
    rw [UInt32.toNat_and, hwhole]
    exact (Nat.and_one_is_mod _).trans (Nat.mul_mod_right 2 n)
  rw [shift_of_even heven]
  apply UInt32.toNat_inj.mp
  rw [toNat_half, hwhole, UInt32.toNat_ofNat_of_lt' (by omega)]
  omega

theorem feed_eq (register : UInt32) (b : UInt8) :
    feed register b = shift^[8] (register ^^^ b.toUInt32) := rfl

theorem iterate_shift_xor (count : Nat) (x y : UInt32) :
    shift^[count] (x ^^^ y) = shift^[count] x ^^^ shift^[count] y := by
  induction count generalizing x y with
  | zero => rfl
  | succ count ih =>
    rw [Function.iterate_succ_apply, Function.iterate_succ_apply, Function.iterate_succ_apply,
      shift_xor, ih]

/-- An empty low octet is shifted out without a trace. -/
theorem iterate_shift_octet {n : Nat} (h : 256 * n < UInt32.size) :
    shift^[8] (UInt32.ofNat (256 * n)) = UInt32.ofNat n := by
  have hdoubled : 256 * n = 2 * (2 * (2 * (2 * (2 * (2 * (2 * (2 * n))))))) := by omega
  rw [hdoubled]
  show shift (shift (shift (shift (shift (shift (shift (shift _))))))) = _
  rw [shift_double (by omega), shift_double (by omega), shift_double (by omega),
    shift_double (by omega), shift_double (by omega), shift_double (by omega),
    shift_double (by omega), shift_double (by omega)]

theorem feed_injective (b : UInt8) : Function.Injective fun register => feed register b := by
  intro x y h
  exact (UInt32.xor_left_inj b.toUInt32).mp (shift_injective.iterate 8 h)

theorem foldl_feed_injective (bytes : Bytes) :
    Function.Injective fun register => bytes.foldl feed register := by
  induction bytes with
  | nil => exact fun _ _ h => h
  | cons b bytes ih =>
    intro x y h
    exact feed_injective b (ih h)

/-- An octet below a number and the number do not touch. -/
theorem xor_octet (b : UInt8) (n : Nat) (h : b.toNat + 256 * n < UInt32.size) :
    b.toUInt32 ^^^ UInt32.ofNat (256 * n) = UInt32.ofNat (b.toNat + 256 * n) := by
  have hb := b.toNat_lt
  have hlow := @Nat.xor_mod_two_pow b.toNat (256 * n) 8
  have hhigh := @Nat.xor_div_two_pow b.toNat (256 * n) 8
  apply UInt32.toNat_inj.mp
  rw [UInt32.toNat_xor, UInt8.toNat_toUInt32, UInt32.toNat_ofNat_of_lt' (by omega),
    UInt32.toNat_ofNat_of_lt' h]
  simp only [Nat.reducePow, Nat.mul_mod_right, Nat.mod_eq_of_lt hb, Nat.xor_zero,
    Nat.mul_div_cancel_left n (by decide : 0 < 256), Nat.div_eq_of_lt hb, Nat.zero_xor] at hlow hhigh
  omega

theorem range_le {width : Nat} (h : width ≤ 4) : Bytes.range width ≤ UInt32.size := by
  match width, h with
  | 0, _ | 1, _ | 2, _ | 3, _ | 4, _ => decide

/-- Up to four octets pass through the register as the number that they stand for. -/
theorem foldl_feed {bytes : Bytes} (h : bytes.length ≤ 4) (register : UInt32) :
    bytes.foldl feed register =
      shift^[8 * bytes.length] (register ^^^ UInt32.ofNat (Bytes.toNat bytes)) := by
  induction bytes generalizing register with
  | nil => exact (UInt32.xor_zero).symm
  | cons b bytes ih =>
    have hword : b.toNat + 256 * Bytes.toNat bytes < UInt32.size :=
      Nat.lt_of_lt_of_le (Bytes.toNat_lt (b :: bytes)) (range_le h)
    have hstep : feed register b ^^^ UInt32.ofNat (Bytes.toNat bytes) =
        shift^[8] (register ^^^ UInt32.ofNat (Bytes.toNat (b :: bytes))) := by
      rw [feed_eq, ← iterate_shift_octet (by omega), ← iterate_shift_xor, UInt32.xor_assoc,
        xor_octet b _ hword]
      rfl
    rw [List.foldl_cons, ih (Nat.le_of_succ_le h), hstep, ← Function.iterate_add_apply]
    rfl

/-- A word is passed through the register without loss. -/
theorem eq_of_foldl_feed {old new : Bytes} (hlength : new.length = old.length)
    (hshort : old.length ≤ 4) {register : UInt32}
    (h : old.foldl feed register = new.foldl feed register) : old = new := by
  rw [foldl_feed hshort, foldl_feed (hlength ▸ hshort), hlength] at h
  have hword := (UInt32.xor_right_inj register).mp (shift_injective.iterate _ h)
  have hnumber : Bytes.toNat old = Bytes.toNat new := by
    have hold := Nat.lt_of_lt_of_le (Bytes.toNat_lt old) (range_le hshort)
    have hnew := Nat.lt_of_lt_of_le (Bytes.toNat_lt new) (range_le (hlength ▸ hshort))
    rw [← UInt32.toNat_ofNat_of_lt' hold, hword, UInt32.toNat_ofNat_of_lt' hnew]
  rw [← Bytes.ofNat_toNat old, ← Bytes.ofNat_toNat new, hlength, hnumber]

/-- A change of up to four consecutive octets changes the checksum. -/
theorem crc32_ne_of_burst {old new : Bytes} (hlength : new.length = old.length)
    (hshort : old.length ≤ 4) (hne : old ≠ new) (before after : Bytes) :
    crc32 (before ++ old ++ after) ≠ crc32 (before ++ new ++ after) := by
  intro h
  unfold crc32 at h
  rw [UInt32.xor_left_inj, List.foldl_append, List.foldl_append, List.foldl_append,
    List.foldl_append] at h
  exact hne (eq_of_foldl_feed hlength hshort (foldl_feed_injective after h))

end BatchStore.Checksum
