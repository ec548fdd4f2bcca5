import BatchStore.Proofs.Grammar
import Mathlib.Algebra.BigOperators.Ring.Finset
import Mathlib.Tactic.Ring

/-!
# Numbers read in words

A number is read from the front of any bytes exactly when at most ten octets hold it there: all
but the last carry the bit `0x80`, and their groups of seven bits, each at its place, sum up to
a number below `2 ^ 64`. A reader that gathers the groups in one word of 64 bits, by shifts and
disjunctions, comes to the same outcome: in no round does a shift or a disjunction lose a bit.
-/

namespace BatchStore.Varint

/-- The seven low bits of the octet at that place, times the power of two of the place. -/
def group (bytes : Bytes) (place : Nat) : Nat :=
  (bytes.getD place 0).toNat % 128 * 2 ^ (7 * place)

/-- The number is held by that many octets in front: ten at most, all but the last of them with
the bit `0x80`. It is the sum of their groups and has room in 64 bits. -/
structure Holds (bytes : Bytes) (n used : Nat) : Prop where
  pos : 0 < used
  inside : used ≤ bytes.length
  short : used ≤ maxSize
  more : ∀ place, place + 1 < used → 128 ≤ (bytes.getD place 0).toNat
  last : (bytes.getD (used - 1) 0).toNat < 128
  sum : n = ∑ place ∈ Finset.range used, group bytes place
  fits : n < UInt64.size

theorem two_pow_next (place : Nat) : 2 ^ (7 * (place + 1)) = 128 * 2 ^ (7 * place) := by
  rw [Nat.mul_succ, pow_add, Nat.mul_comm]
  rfl

theorem group_zero (b : UInt8) (bytes : Bytes) : group (b :: bytes) 0 = b.toNat % 128 := by
  unfold group
  rw [List.getD_cons_zero, Nat.mul_zero, pow_zero, Nat.mul_one]

theorem group_succ (b : UInt8) (bytes : Bytes) (place : Nat) :
    group (b :: bytes) (place + 1) = 128 * group bytes place := by
  unfold group
  rw [List.getD_cons_succ, two_pow_next, Nat.mul_left_comm]

theorem sum_group_succ (b : UInt8) (bytes : Bytes) (used : Nat) :
    ∑ place ∈ Finset.range (used + 1), group (b :: bytes) place =
      b.toNat % 128 + 128 * ∑ place ∈ Finset.range used, group bytes place := by
  rw [Finset.sum_range_succ', Finset.mul_sum, group_zero, Nat.add_comm]
  simp only [group_succ]

/-- What a code says of its octets, with any bytes behind them. -/
theorem Groups.octets {code : Bytes} {n : Nat} (h : Groups code n) (rest : Bytes) :
    (∀ place, place + 1 < code.length → 128 ≤ ((code ++ rest).getD place 0).toNat) ∧
      ((code ++ rest).getD (code.length - 1) 0).toNat < 128 ∧
      n = ∑ place ∈ Finset.range code.length, group (code ++ rest) place := by
  induction h with
  | @last b hlast =>
    refine ⟨fun place hplace => ?_, hlast, ?_⟩
    · rw [List.length_singleton] at hplace
      omega
    · rw [List.singleton_append, List.length_singleton, Finset.sum_range_one, group_zero]
      omega
  | @more b code n hmore high ih =>
    obtain ⟨hoctets, hend, hsum⟩ := ih
    have hpos := high.length_pos
    rw [List.cons_append, List.length_cons]
    refine ⟨fun place hplace => ?_, ?_, ?_⟩
    · cases place with
      | zero => exact hmore
      | succ place =>
        rw [List.getD_cons_succ]
        exact hoctets place (by omega)
    · obtain ⟨length, hlength⟩ : ∃ length, code.length = length + 1 :=
        ⟨code.length - 1, by omega⟩
      rw [hlength, Nat.add_sub_cancel] at hend ⊢
      rw [List.getD_cons_succ]
      exact hend
    · rw [sum_group_succ, ← hsum]

/-- Octets of which all but the last carry the bit `0x80` are a code of the sum of their groups. -/
theorem groups_take {bytes : Bytes} {used : Nat} (hinside : used + 1 ≤ bytes.length)
    (hmore : ∀ place, place < used → 128 ≤ (bytes.getD place 0).toNat)
    (hlast : (bytes.getD used 0).toNat < 128) :
    Groups (bytes.take (used + 1)) (∑ place ∈ Finset.range (used + 1), group bytes place) := by
  induction used generalizing bytes with
  | zero =>
    cases bytes with
    | nil => cases hinside
    | cons b rest =>
      have hb : b.toNat < 128 := hlast
      rw [Finset.sum_range_one, group_zero, Nat.mod_eq_of_lt hb]
      exact .last hb
  | succ used ih =>
    cases bytes with
    | nil => cases hinside
    | cons b rest =>
      rw [sum_group_succ, List.take_succ_cons]
      refine .more (hmore 0 (Nat.zero_lt_succ used)) (ih (Nat.le_of_succ_le_succ hinside) ?_ ?_)
      · intro place hplace
        exact hmore (place + 1) (Nat.succ_lt_succ hplace)
      · exact hlast

/-- A number is read exactly where it is held. -/
theorem decode?_eq_some_iff_holds {bytes : Bytes} {n used : Nat} :
    decode? bytes = some (n, used) ↔ Holds bytes n used := by
  rw [decode?_eq_some_iff]
  constructor
  · rintro ⟨code, rest, rfl, rfl, hcode⟩
    obtain ⟨hmore, hlast, hsum⟩ := hcode.groups.octets rest
    refine ⟨hcode.groups.length_pos, ?_, hcode.short, hmore, hlast, hsum, hcode.fits⟩
    rw [List.length_append]
    omega
  · rintro ⟨hsome, hinside, hshort, hmore, hlast, rfl, hfits⟩
    have hlength : (bytes.take used).length = used := by
      rw [List.length_take]
      omega
    obtain ⟨before, rfl⟩ : ∃ before, used = before + 1 := ⟨used - 1, by omega⟩
    have hgroups := groups_take hinside (fun place hplace => hmore place (by omega)) hlast
    refine ⟨bytes.take (before + 1), bytes.drop (before + 1),
      (List.take_append_drop _ bytes).symm, hlength, hgroups, ?_, hfits⟩
    rw [hlength]
    exact hshort

/-- The seven low bits of an octet, in a word. -/
def lowBits (b : UInt8) : UInt64 := (b &&& 0x7f).toUInt64

/-- The seven low bits of an octet, shifted to its place. -/
def placed (position : Nat) (b : UInt8) : UInt64 :=
  lowBits b <<< UInt64.ofNat (7 * position)

/-- Gathers a number in a word, from the octet at `position` on: the number and the position
behind it, or twice zero where there is none. -/
def gatherFrom (position : Nat) (word : UInt64) : Bytes → UInt64 × Nat
  | [] => (0, 0)
  | b :: rest =>
    if maxSize ≤ position then (0, 0)
    else if position + 1 = maxSize ∧ 1 < lowBits b then (0, 0)
    else if b &&& 0x80 = 0 then (word ||| placed position b, position + 1)
    else gatherFrom (position + 1) (word ||| placed position b) rest

/-- The number at the front of the octets in a word, and the size of its code. -/
def gather (bytes : Bytes) : UInt64 × Nat := gatherFrom 0 0 bytes

/-- The octet adds its group: it is one of the first ten, and the tenth has one bit at most. -/
def Adds (position : Nat) (b : UInt8) : Prop :=
  position < maxSize ∧ (position + 1 = maxSize → b.toNat % 128 < 2)

instance (position : Nat) (b : UInt8) : Decidable (Adds position b) :=
  inferInstanceAs (Decidable (_ ∧ _))

theorem toNat_lowBits (b : UInt8) : (lowBits b).toNat = b.toNat % 128 := by
  unfold lowBits
  rw [UInt8.toNat_toUInt64, UInt8.toNat_and]
  exact Nat.and_two_pow_sub_one_eq_mod b.toNat 7

theorem highBit_eq_zero_iff (b : UInt8) : b &&& 0x80 = 0 ↔ b.toNat < 128 := by
  have hbits : ∀ octet : Fin 256, octet.val &&& 128 = 0 ↔ octet.val < 128 := by decide +kernel
  rw [← UInt8.toNat_inj, UInt8.toNat_and]
  exact hbits ⟨b.toNat, b.toNat_lt⟩

variable {position : Nat} {word : UInt64} {b : UInt8}

/-- The two refusals of a reader come to one. -/
theorem ite_adds {α : Type} (refused taken : α) :
    (if maxSize ≤ position then refused
      else if position + 1 = maxSize ∧ 1 < b.toNat % 128 then refused else taken) =
      if Adds position b then taken else refused := by
  split
  · next hposition => rw [if_neg fun hadds => Nat.not_lt.mpr hposition hadds.1]
  · next hposition =>
    split
    · next hgroup => rw [if_neg fun hadds => Nat.not_lt.mpr hgroup.2 (hadds.2 hgroup.1)]
    · next hgroup =>
      have hadds : Adds position b :=
        ⟨by omega, fun htenth => Nat.lt_of_not_le fun hmore => hgroup ⟨htenth, hmore⟩⟩
      rw [if_pos hadds]

/-- An octet that adds its group ends the number or is followed by another one. -/
theorem decodeFrom?_cons (rest : Bytes) :
    decodeFrom? position (b :: rest) =
      if Adds position b then
        if b.toNat < 128 then some (b.toNat, 1)
        else (decodeFrom? (position + 1) rest).map fun (high, used) =>
          (b.toNat % 128 + 128 * high, used + 1)
      else none := by
  rw [decodeFrom?, ite_adds]

theorem gatherFrom_cons (rest : Bytes) :
    gatherFrom position word (b :: rest) =
      if Adds position b then
        if b.toNat < 128 then (word ||| placed position b, position + 1)
        else gatherFrom (position + 1) (word ||| placed position b) rest
      else (0, 0) := by
  have hgroup : 1 < lowBits b ↔ 1 < b.toNat % 128 := by
    rw [UInt64.lt_iff_toNat_lt, toNat_lowBits, UInt64.toNat_one]
  rw [gatherFrom]
  simp only [hgroup, highBit_eq_zero_iff]
  rw [ite_adds]

/-- The group of an octet that adds it has room in the word, at its place. -/
theorem Adds.group_lt (h : Adds position b) :
    b.toNat % 128 * 2 ^ (7 * position) < UInt64.size := by
  obtain ⟨hposition, hbit⟩ := h
  by_cases htenth : position + 1 = maxSize
  · obtain rfl : position = 9 := by
      unfold maxSize at htenth
      omega
    have hb := hbit htenth
    show b.toNat % 128 * 2 ^ 63 < 2 ^ 64
    omega
  · have hle : 7 * position ≤ 56 := by
      unfold maxSize at hposition htenth
      omega
    have hpow : 2 ^ (7 * position) ≤ 2 ^ 56 := Nat.pow_le_pow_right (by decide) hle
    have hb : b.toNat % 128 < 128 := Nat.mod_lt _ (by decide)
    calc b.toNat % 128 * 2 ^ (7 * position)
        ≤ 128 * 2 ^ 56 := Nat.mul_le_mul (Nat.le_of_lt hb) hpow
      _ < UInt64.size := by decide

/-- The shift loses nothing. -/
theorem Adds.toNat_placed (h : Adds position b) :
    (placed position b).toNat = b.toNat % 128 * 2 ^ (7 * position) := by
  have hshift : 7 * position < 64 := by
    have hposition : position < 10 := h.1
    omega
  have hamount : (UInt64.ofNat (7 * position)).toNat % 64 = 7 * position := by
    rw [UInt64.toNat_ofNat_of_lt' (Nat.lt_trans hshift (by decide)), Nat.mod_eq_of_lt hshift]
  unfold placed
  rw [UInt64.toNat_shiftLeft, hamount, toNat_lowBits, Nat.shiftLeft_eq]
  exact Nat.mod_eq_of_lt h.group_lt

/-- The disjunction with what stands below loses nothing. -/
theorem Adds.toNat_or_placed (h : Adds position b) (hword : word.toNat < 2 ^ (7 * position)) :
    (word ||| placed position b).toNat = word.toNat + (placed position b).toNat := by
  have hor := Nat.two_pow_add_eq_or_of_lt hword (b.toNat % 128)
  rw [UInt64.toNat_or, h.toNat_placed, Nat.or_comm, Nat.mul_comm, ← hor, Nat.add_comm]

/-- One round leaves the word below the next place. -/
theorem Adds.or_placed_lt (h : Adds position b) (hword : word.toNat < 2 ^ (7 * position)) :
    (word ||| placed position b).toNat < 2 ^ (7 * (position + 1)) := by
  have hb : b.toNat % 128 + 1 ≤ 128 := Nat.mod_lt _ (by decide)
  rw [h.toNat_or_placed hword, h.toNat_placed]
  calc word.toNat + b.toNat % 128 * 2 ^ (7 * position)
      < (b.toNat % 128 + 1) * 2 ^ (7 * position) := by
        rw [Nat.add_mul, Nat.one_mul]
        omega
    _ ≤ 128 * 2 ^ (7 * position) := Nat.mul_le_mul_right _ hb
    _ = 2 ^ (7 * (position + 1)) := (two_pow_next position).symm

/-- Both readers add the groups from any position on: in the word, they come on top of what it
holds. -/
theorem gatherFrom_eq (bytes : Bytes) (hword : word.toNat < 2 ^ (7 * position)) :
    gatherFrom position word bytes =
      ((decodeFrom? position bytes).map
        (Prod.map (fun n => UInt64.ofNat (word.toNat + n * 2 ^ (7 * position)))
          (position + ·))).getD (0, 0) := by
  induction bytes generalizing position word with
  | nil => rfl
  | cons b rest ih =>
    by_cases hadds : Adds position b
    · have hsum := hadds.toNat_or_placed hword
      rw [hadds.toNat_placed] at hsum
      rcases Nat.lt_or_ge b.toNat 128 with hlast | hmore
      · rw [Nat.mod_eq_of_lt hlast] at hsum
        rw [gatherFrom_cons, decodeFrom?_cons, if_pos hadds, if_pos hadds, if_pos hlast,
          if_pos hlast, Option.map_some, Option.getD_some, Prod.map_apply, ← hsum,
          UInt64.ofNat_toNat]
      · have hnot : ¬b.toNat < 128 := Nat.not_lt.mpr hmore
        -- what the rest adds is worth 128 times as much behind one more octet
        have hhigh (high : Nat) : (word ||| placed position b).toNat +
            high * 2 ^ (7 * (position + 1)) =
              word.toNat + (b.toNat % 128 + 128 * high) * 2 ^ (7 * position) := by
          rw [hsum, two_pow_next]
          ring
        have hused (used : Nat) : position + 1 + used = position + (used + 1) := by omega
        rw [gatherFrom_cons, decodeFrom?_cons, if_pos hadds, if_pos hadds, if_neg hnot,
          if_neg hnot, ih (hadds.or_placed_lt hword), Option.map_map]
        congr 2
        funext ⟨high, used⟩
        simp only [Function.comp_apply, Prod.map_apply, hhigh, hused]
    · rw [gatherFrom_cons, decodeFrom?_cons, if_neg hadds, if_neg hadds]
      rfl

/-- In a word the number comes out that is read, and twice zero where none is. -/
theorem gather_eq (bytes : Bytes) :
    gather bytes = ((decode? bytes).map (Prod.map UInt64.ofNat id)).getD (0, 0) := by
  have hword : (0 : UInt64).toNat < 2 ^ (7 * 0) := by decide
  unfold gather decode?
  rw [gatherFrom_eq bytes hword]
  simp only [UInt64.toNat_zero, Nat.mul_zero, pow_zero, Nat.mul_one, Nat.zero_add]
  rfl

theorem gather_eq_iff {bytes : Bytes} {used : Nat} (hused : 0 < used) :
    gather bytes = (word, used) ↔ Holds bytes word.toNat used := by
  rw [gather_eq]
  cases hread : decode? bytes with
  | none =>
    have hnone : ¬Holds bytes word.toNat used := by
      rw [← decode?_eq_some_iff_holds, hread]
      nofun
    have hzero : ¬((0, 0) : UInt64 × Nat) = (word, used) := by
      rintro ⟨⟩
      exact absurd hused (Nat.lt_irrefl 0)
    exact iff_of_false hzero hnone
  | some pair =>
    obtain ⟨n, found⟩ := pair
    have hfits := (decode?_eq_some_iff_holds.mp hread).fits
    rw [← decode?_eq_some_iff_holds, hread, Option.map_some, Option.getD_some, Prod.map_apply]
    constructor
    · rintro ⟨⟩
      rw [UInt64.toNat_ofNat_of_lt' hfits]
      rfl
    · rintro ⟨⟩
      rw [UInt64.ofNat_toNat]
      rfl

/-- Reading the octets in a word comes to that position: the word holds what was gathered, and
the rest of the octets is still to be read. -/
inductive Reaches (bytes : Bytes) : Nat → UInt64 → Bytes → Prop where
  | start : Reaches bytes 0 0 bytes
  | next {position : Nat} {word : UInt64} {b : UInt8} {rest : Bytes}
    (earlier : Reaches bytes position word (b :: rest)) (hadds : Adds position b)
    (hmore : 128 ≤ b.toNat) : Reaches bytes (position + 1) (word ||| placed position b) rest

theorem Reaches.gather_eq {bytes rest : Bytes} (h : Reaches bytes position word rest) :
    gather bytes = gatherFrom position word rest := by
  induction h with
  | start => rfl
  | next _ hadds hmore ih =>
    rw [ih, gatherFrom_cons, if_pos hadds, if_neg (Nat.not_lt.mpr hmore)]

/-- In every round the word is below the place of the next octet. -/
theorem Reaches.word_lt {bytes rest : Bytes} (h : Reaches bytes position word rest) :
    word.toNat < 2 ^ (7 * position) := by
  induction h with
  | start => decide
  | next _ hadds _ ih => exact hadds.or_placed_lt ih

/-- For any octets: a number is read from their front exactly when ten of them at most hold it
there, whatever comes behind. In words of 64 bits the same number is gathered from the same
octets, and twice zero if they hold none. Whenever an octet adds its group, the shift makes it
worth its place and the disjunction is a sum. -/
theorem reads_sum_of_groups (bytes : Bytes) :
    (∀ n used, decode? bytes = some (n, used) ↔ Holds bytes n used) ∧
    (∀ word used, 0 < used → (gather bytes = (word, used) ↔ Holds bytes word.toNat used)) ∧
    ((∀ n used, ¬Holds bytes n used) → gather bytes = (0, 0)) ∧
    (∀ n used, Holds bytes n used → ∀ rest,
      decode? (bytes ++ rest) = decode? bytes ∧ gather (bytes ++ rest) = gather bytes) ∧
    ∀ position word b rest, Reaches bytes position word (b :: rest) → Adds position b →
      gather bytes = gatherFrom position word (b :: rest) ∧ 7 * position < 64 ∧
      (placed position b).toNat = b.toNat % 128 * 2 ^ (7 * position) ∧
      (word ||| placed position b).toNat = word.toNat + (placed position b).toNat := by
  refine ⟨fun n used => decode?_eq_some_iff_holds, fun word used => gather_eq_iff,
    fun hnone => ?_, fun n used hholds rest => ?_, fun position word b rest hreaches hadds => ?_⟩
  · cases hread : decode? bytes with
    | none =>
      rw [gather_eq, hread]
      rfl
    | some pair => exact absurd (decode?_eq_some_iff_holds.mp hread) (hnone _ _)
  · have hread := decode?_eq_some_iff_holds.mpr hholds
    rw [gather_eq, gather_eq, decode?_append hread, hread]
    exact ⟨rfl, rfl⟩
  · have hposition : position < 10 := hadds.1
    exact ⟨hreaches.gather_eq, by omega, hadds.toNat_placed,
      hadds.toNat_or_placed hreaches.word_lt⟩

/-- The largest number takes ten octets: in the tenth round the one bit that is left comes on top
of 63 others. One more, and there is no number. -/
theorem reads_sum_of_groups_largest :
    let code : Bytes := [255, 255, 255, 255, 255, 255, 255, 255, 255, 1]
    let beyond : Bytes := [255, 255, 255, 255, 255, 255, 255, 255, 255, 2]
    Holds code (UInt64.size - 1) 10 ∧
      decode? (code ++ [7]) = decode? code ∧ gather (code ++ [7]) = gather code ∧
      gather code = (UInt64.ofNat (UInt64.size - 1), 10) ∧ gather beyond = (0, 0) ∧
      ∃ word, Reaches code 9 word [1] ∧ gather code = gatherFrom 9 word [1] ∧
        (placed 9 1).toNat = 2 ^ 63 ∧ (word ||| placed 9 1).toNat = word.toNat + 2 ^ 63 := by
  intro code beyond
  obtain ⟨hread, hgathered, -, hbehind, hrounds⟩ := reads_sum_of_groups code
  obtain ⟨hnone, -, hrefused, -, -⟩ := reads_sum_of_groups beyond
  have hholds : Holds code (UInt64.size - 1) 10 := (hread _ _).mp (by decide)
  have hround {position : Nat} {word : UInt64} {rest : Bytes} (hposition : position < 9)
      (earlier : Reaches code position word (255 :: rest)) :
      Reaches code (position + 1) (word ||| placed position 255) rest :=
    earlier.next ⟨Nat.lt_succ_of_lt hposition, fun htenth => by unfold maxSize at htenth; omega⟩
      (by decide)
  obtain ⟨word, hreaches⟩ : ∃ word, Reaches code 9 word [1] :=
    ⟨_, hround (by decide) <| hround (by decide) <| hround (by decide) <| hround (by decide) <|
      hround (by decide) <| hround (by decide) <| hround (by decide) <| hround (by decide) <|
      hround (by decide) .start⟩
  obtain ⟨hrest, -, hshift, hsum⟩ := hrounds 9 word 1 [] hreaches (by decide)
  have hbit : (placed 9 1).toNat = 2 ^ 63 := hshift
  rw [hbit] at hsum
  refine ⟨hholds, (hbehind _ _ hholds [7]).1, (hbehind _ _ hholds [7]).2,
    (hgathered _ 10 (by decide)).mpr hholds, hrefused fun n used hheld => ?_,
    word, hreaches, hrest, hbit, hsum⟩
  exact absurd ((hnone n used).mpr hheld) (by rw [show decode? beyond = none by decide]; nofun)

end BatchStore.Varint
