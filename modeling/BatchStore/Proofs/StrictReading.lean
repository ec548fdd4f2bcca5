import BatchStore.Proofs.LenientReading

/-!
# Strict reading

A strict reader goes along with a lenient one on the same bytes and makes two checks
more. It stops before a record whose tag names no known kind, whatever comes after the
tag. And when both have come to a clean end, it compares the number of records with the
one in the header.
-/

namespace BatchStore

theorem RecordKind.isKnown_ofTag (tag : UInt8) : (ofTag tag).isKnown = true ↔ tag.toNat ≤ 3 := by
  fun_cases ofTag tag with
  | case5 hdeletion hvalue hmerge hlogData =>
    simp only [← UInt8.toNat_inj, UInt8.reduceToNat] at hdeletion hvalue hmerge hlogData
    simp only [isKnown, Bool.false_eq_true, false_iff]
    omega
  | _ =>
    subst tag
    decide

namespace Batch

theorem Front.ofTag_of_known {tag : UInt8} (h : tag.toNat ≤ 3) (strict : Bool) (fields : Bytes) :
    ofTag strict tag fields = ofTag false tag fields := by
  unfold ofTag
  simp only [(RecordKind.isKnown_ofTag tag).mpr h, Bool.not_true, Bool.and_false]

theorem Front.ofTag_of_unknown {tag : UInt8} (h : 3 < tag.toNat) (fields : Bytes) :
    ofTag true tag fields = .fault (.unknownKind tag) fields := by
  have hunknown : (RecordKind.ofTag tag).isKnown = false := by
    rw [← Bool.not_eq_true, RecordKind.isKnown_ofTag]
    exact Nat.not_le.mpr h
  unfold ofTag
  rw [hunknown]
  rfl

/-- The fault of a header that does not declare the number of records that are held,
modulo `2 ^ 32`. -/
def Header.miscount? (header : Option Header) (held : Nat) : Option BatchError :=
  header.bind fun header =>
    if header.count.toNat = held % UInt32.size then none
    else some (.countMismatch header.count (UInt32.ofNat held))

namespace Reader

theorem countFault_strict {reader : Reader} (hstrict : reader.strict = true) {held : Nat}
    (hdecoded : reader.decoded = UInt32.ofNat held) :
    reader.countFault = Header.miscount? reader.header held := by
  unfold countFault Header.miscount?
  rw [hstrict, hdecoded]
  cases reader.header with
  | none => rfl
  | some header =>
    have hcount : header.count = UInt32.ofNat held ↔ header.count.toNat = held % UInt32.size := by
      rw [← UInt32.toNat_inj, UInt32.toNat_ofNat']
    simp only [hcount, Option.bind_some]

/-- Once `advance` has failed, it fails again and changes nothing. -/
theorem advance_again {reader after : Reader} (h : reader.advance = (false, after)) :
    after.advance = (false, after) := by
  cases advance_outcome h with
  | refused herror => exact advance_of_error herror
  | stopped _ _ _ => exact advance_of_error rfl
  | ended _ hend =>
    cases hfault : reader.countFault with
    | some error => exact advance_of_error rfl
    | none =>
      -- looking at the same count again finds no fault again
      let ended : Reader := { reader with record := .deletion [], error := none }
      have hsame : ended.countFault = none := hfault
      have hagain : ended.advance = (false, { ended with error := ended.countFault }) :=
        advance_at_end rfl hend
      rw [hagain, hsame]

/-- A reader that was drained stays as it is. -/
theorem after_drain (reader : Reader) (calls : Nat) :
    reader.drain.2.after calls = reader.drain.2 := by
  have hfixed : reader.drain.2.advance = (false, reader.drain.2) := by
    induction reader using drain.induct with
    | case1 reader after hadvance _ _ _ _ ih =>
      rw [drain_eq, hadvance]
      exact ih
    | case2 reader after hadvance =>
      rw [drain_eq, hadvance]
      exact advance_again hadvance
  induction calls with
  | zero => rfl
  | succ calls ih => rw [after, hfixed, ih]

/-- Draining takes a call for each record and one more. -/
theorem drain_eq_after (reader : Reader) :
    reader.drain.2 = reader.after (reader.drain.1.length + 1) := by
  induction reader using drain.induct with
  | case1 reader later hadvance _ _ _ _ ih =>
    rw [drain_eq, hadvance, List.length_cons, after, hadvance]
    exact ih
  | case2 reader later hadvance =>
    rw [drain_eq, hadvance, after, hadvance]
    rfl

/-- After so many records a reader stands before the first tag above three. -/
structure MeetsUnknown (reader : Reader) (k : Nat) (tag : UInt8) : Prop where
  reached : k ≤ reader.drain.1.length
  stands : (reader.after k).remaining.head? = some tag
  unknown : 3 < tag.toNat
  first : ∀ j < k, ∀ other ∈ (reader.after j).remaining.head?, other.toNat ≤ 3

section Steps

variable {reader later : Reader} {k : Nat} {tag : UInt8} {fields : Bytes}

/-- Behind a record of a known kind a reader meets the same unknown tag, one record
earlier. -/
theorem meetsUnknown_of_advance (hadvance : reader.advance = (true, later))
    (hremaining : reader.remaining = tag :: fields) (hknown : tag.toNat ≤ 3) {other : UInt8} :
    reader.MeetsUnknown k other ↔ ∃ j, k = j + 1 ∧ later.MeetsUnknown j other := by
  have hdrain : reader.drain.1.length = later.drain.1.length + 1 := by
    rw [drain_eq, hadvance]
    rfl
  have hafter (j : Nat) : reader.after (j + 1) = later.after j := by
    rw [after, hadvance]
  constructor
  · intro h
    cases k with
    | zero =>
      have hhead : reader.remaining.head? = some other := h.stands
      rw [hremaining] at hhead
      obtain rfl := Option.some.inj hhead
      exact absurd h.unknown (Nat.not_lt.mpr hknown)
    | succ j =>
      have hreached := h.reached
      have hstands := h.stands
      rw [hafter] at hstands
      refine ⟨j, rfl, by omega, hstands, h.unknown, fun i hi other hother => ?_⟩
      exact h.first (i + 1) (by omega) other (hafter i ▸ hother)
  · rintro ⟨j, rfl, h⟩
    have hreached := h.reached
    refine ⟨by omega, hafter j ▸ h.stands, h.unknown, fun i hi other hother => ?_⟩
    cases i with
    | zero =>
      have hhead : other ∈ reader.remaining.head? := hother
      rw [hremaining] at hhead
      obtain rfl := Option.some.inj hhead
      exact hknown
    | succ i => exact h.first i (by omega) other (hafter i ▸ hother)

theorem not_meetsUnknown_of_drain (hdrain : reader.drain.1 = [])
    (hhead : ∀ tag ∈ reader.remaining.head?, tag.toNat ≤ 3) : ¬reader.MeetsUnknown k tag := by
  intro h
  have hzero := h.reached
  rw [hdrain, List.length_nil, Nat.le_zero] at hzero
  have hstands := h.stands
  rw [hzero, after] at hstands
  exact Nat.not_lt.mpr (hhead tag hstands) h.unknown

end Steps

/-- A lenient and a strict reader that stand at the same place of the same bytes, behind so
many records. -/
structure Beside (lenient strict : Reader) (already : Nat) : Prop where
  lenientMode : lenient.strict = false
  strictMode : strict.strict = true
  unfailed : lenient.error = none ∧ strict.error = none
  remaining : strict.remaining = lenient.remaining
  header : strict.header = lenient.header
  decoded : strict.decoded = UInt32.ofNat already

/-- What the strict one of two readers comes to, by what the lenient one does. -/
structure Checks (lenient strict : Reader) (already : Nat) : Prop where
  unknown : ∀ {k tag}, lenient.MeetsUnknown k tag →
    strict.drain.1 = lenient.drain.1.take k ∧ strict.drain.2.error = some (.unknownKind tag)
  known : (∀ k tag, ¬lenient.MeetsUnknown k tag) →
    strict.drain.1 = lenient.drain.1 ∧
      strict.drain.2.error = lenient.drain.2.error.or
        (Header.miscount? strict.header (already + lenient.drain.1.length))

section Beside

variable {lenient strict : Reader} {already : Nat} {tag : UInt8} {fields rest : Bytes}

theorem checks_end (h : lenient.Beside strict already) (hend : lenient.remaining = []) :
    lenient.Checks strict already := by
  obtain ⟨herror, hstrictError⟩ := h.unfailed
  have hdrain : lenient.drain = ([], { lenient with record := .deletion [] }) := by
    rw [drain_eq, advance_of_end h.lenientMode herror hend]
  have hstrict : strict.drain = ([], { strict with
      record := .deletion [], error := Header.miscount? strict.header already }) := by
    rw [drain_at_end hstrictError (h.remaining.trans hend),
      countFault_strict h.strictMode h.decoded]
  refine ⟨fun hmeets => absurd hmeets (not_meetsUnknown_of_drain ?_ ?_), fun _ => ?_⟩
  · rw [hdrain]
  · rw [hend]
    exact nofun
  · rw [hdrain, hstrict]
    simp only [herror, Option.none_or, List.length_nil, Nat.add_zero, and_self]

theorem checks_fault (h : lenient.Beside strict already)
    (hremaining : lenient.remaining = tag :: fields) (hknown : tag.toNat ≤ 3) {error : BatchError}
    (hfront : Front.ofTag false tag fields = .fault error rest) :
    lenient.Checks strict already := by
  obtain ⟨herror, hstrictError⟩ := h.unfailed
  have hboth : Front.ofTag strict.strict tag fields = .fault error rest :=
    (Front.ofTag_of_known hknown _ fields).trans hfront
  have hdrain : lenient.drain = ([], { lenient with
      record := .deletion [], error := some error, remaining := rest }) :=
    drain_of_fault herror hremaining (h.lenientMode ▸ hfront)
  have hstrict : strict.drain = ([], { strict with
      record := .deletion [], error := some error, remaining := rest }) :=
    drain_of_fault hstrictError (h.remaining.trans hremaining) hboth
  refine ⟨fun hmeets => absurd hmeets (not_meetsUnknown_of_drain ?_ ?_), fun _ => ?_⟩
  · rw [hdrain]
  · rw [hremaining]
    rintro _ ⟨⟩
    exact hknown
  · rw [hdrain, hstrict]
    exact ⟨rfl, rfl⟩

/-- A strict reader stops at an unknown tag, whether or not a lenient one can go on. -/
theorem checks_unknown (h : lenient.Beside strict already)
    (hremaining : lenient.remaining = tag :: fields) (hunknown : 3 < tag.toNat) :
    lenient.Checks strict already := by
  have hfront : Front.ofTag strict.strict tag fields = .fault (.unknownKind tag) fields := by
    rw [h.strictMode]
    exact Front.ofTag_of_unknown hunknown fields
  have hstrict : strict.drain = ([], { strict with
      record := .deletion [], error := some (.unknownKind tag), remaining := fields }) :=
    drain_of_fault h.unfailed.2 (h.remaining.trans hremaining) hfront
  have hhere : lenient.MeetsUnknown 0 tag := by
    refine ⟨Nat.zero_le _, ?_, hunknown, fun j hj => absurd hj (Nat.not_lt_zero j)⟩
    rw [after, hremaining]
    rfl
  refine ⟨fun {k other} hmeets => ?_, fun hnone => absurd hhere (hnone 0 tag)⟩
  have hzero : k = 0 := by
    by_contra hlater
    have hclash := hmeets.first 0 (Nat.pos_of_ne_zero hlater) tag hhere.stands
    omega
  subst hzero
  obtain rfl := Option.some.inj (hhere.stands.symm.trans hmeets.stands)
  rw [hstrict]
  exact ⟨rfl, rfl⟩

/-- Both readers take a record of a known kind, and the rest is up to what comes behind. -/
theorem checks_record (h : lenient.Beside strict already)
    (hremaining : lenient.remaining = tag :: fields) (hknown : tag.toNat ≤ 3) {record : Record}
    (hfront : Front.ofTag false tag fields = .record record rest)
    (hlater : ∀ later laterStrict : Reader, later.remaining = rest →
      later.Beside laterStrict (already + 1) → later.Checks laterStrict (already + 1)) :
    lenient.Checks strict already := by
  obtain ⟨herror, hstrictError⟩ := h.unfailed
  have hboth : Front.ofTag strict.strict tag fields = .record record rest :=
    (Front.ofTag_of_known hknown _ fields).trans hfront
  let later : Reader := { lenient with record, remaining := rest, decoded := lenient.decoded + 1 }
  let laterStrict : Reader :=
    { strict with record, remaining := rest, decoded := strict.decoded + 1 }
  have hadvance : lenient.advance = (true, later) :=
    advance_of_record herror hremaining (h.lenientMode ▸ hfront)
  have hstrict : strict.advance = (true, laterStrict) :=
    advance_of_record hstrictError (h.remaining.trans hremaining) hboth
  have hdecoded : strict.decoded + 1 = UInt32.ofNat (already + 1) := by
    rw [h.decoded, UInt32.ofNat_add]
    rfl
  have hbeside : later.Beside laterStrict (already + 1) :=
    ⟨h.lenientMode, h.strictMode, h.unfailed, rfl, h.header, hdecoded⟩
  obtain ⟨hunknown, hall⟩ := hlater later laterStrict rfl hbeside
  have hdrain : lenient.drain = (record :: later.drain.1, later.drain.2) := by
    rw [drain_eq, hadvance]
  have hdrainStrict : strict.drain = (record :: laterStrict.drain.1, laterStrict.drain.2) := by
    rw [drain_eq, hstrict]
  refine ⟨fun {k other} hmeets => ?_, fun hnone => ?_⟩
  · obtain ⟨j, rfl, hbehind⟩ := (meetsUnknown_of_advance hadvance hremaining hknown).mp hmeets
    obtain ⟨htaken, herror⟩ := hunknown hbehind
    rw [hdrain, hdrainStrict, htaken]
    exact ⟨rfl, herror⟩
  · obtain ⟨htaken, herror⟩ := hall fun k other hbehind =>
      hnone (k + 1) other
        ((meetsUnknown_of_advance hadvance hremaining hknown).mpr ⟨k, rfl, hbehind⟩)
    rw [hdrain, hdrainStrict, htaken]
    refine ⟨rfl, herror.trans ?_⟩
    rw [List.length_cons, Nat.add_assoc, Nat.add_comm 1]

/-- Two readers side by side: the strict one checks what the lenient one does. -/
theorem checks_of_beside (h : lenient.Beside strict already) : lenient.Checks strict already := by
  -- every record shortens what is left to read
  induction hn : lenient.remaining.length using Nat.strongRecOn
    generalizing lenient strict already with
  | ind n ih =>
    subst hn
    cases hremaining : lenient.remaining with
    | nil => exact checks_end h hremaining
    | cons tag fields =>
      rcases Nat.lt_or_ge 3 tag.toNat with hunknown | hknown
      · exact checks_unknown h hremaining hunknown
      · cases hfront : Front.ofTag false tag fields with
        | fault error rest =>
          obtain rfl := Front.ofTag_eq_fault hfront
          exact checks_fault h hremaining hknown hfront
        | record record rest =>
          refine checks_record h hremaining hknown hfront fun later laterStrict hrest hbeside => ?_
          have hadvance := advance_of_record h.unfailed.1 hremaining (h.lenientMode ▸ hfront)
          exact ih _ (hrest ▸ advance_shortens hadvance) hbeside rfl

end Beside

/-- Of any bytes a lenient reader latches no fault but that of a record cut off. A strict
reader of the same bytes takes the same records up to the first tag above three and
latches that tag, whatever comes behind it. Where there is no such tag it takes all the
records and latches what the lenient reader does, or else the miscount of a header that
declares another number of records. Both stay as they are then. -/
theorem strict_reads_as_lenient (bytes : Bytes) :
    let lenient := ofBytes false bytes
    let strict := ofBytes true bytes
    let found := lenient.drain.1
    (∀ calls, (lenient.after calls).error = none ∨
      (lenient.after calls).error = some .shortBuffer) ∧
    (∀ k tag, lenient.MeetsUnknown k tag →
      strict.drain.1 = found.take k ∧ strict.drain.2.error = some (.unknownKind tag)) ∧
    ((∀ k tag, ¬lenient.MeetsUnknown k tag) →
      strict.drain.1 = found ∧
      (lenient.drain.2.error = some .shortBuffer →
        strict.drain.2.error = some .shortBuffer) ∧
      (lenient.drain.2.error = none →
        strict.drain.2.error = Header.miscount? (Header.decode? bytes) found.length)) ∧
    ((Header.decode? bytes).isSome = true ↔ headerSize ≤ bytes.length) ∧
    (lenient.drain.2 = lenient.after (found.length + 1) ∧
      ∀ calls, lenient.drain.2.after calls = lenient.drain.2) ∧
    strict.drain.2 = strict.after (strict.drain.1.length + 1) ∧
      ∀ calls, strict.drain.2.after calls = strict.drain.2 := by
  intro lenient strict found
  have hstart : lenient.strict = false ∧ lenient.error = none := ⟨rfl, rfl⟩
  obtain ⟨codes, records, rest, hparses⟩ := parses_lenient hstart.1 hstart.2
  have hbeside : lenient.Beside strict 0 := ⟨rfl, rfl, ⟨rfl, rfl⟩, rfl, rfl, rfl⟩
  obtain ⟨hunknown, hknown⟩ := checks_of_beside hbeside
  refine ⟨fun calls => ?_, fun k tag => hunknown, fun hnone => ?_, Header.isSome_decode? bytes,
    ⟨lenient.drain_eq_after, lenient.after_drain⟩, strict.drain_eq_after, strict.after_drain⟩
  · rcases hparses.outcome with ⟨-, hnone⟩ | ⟨-, -, hfault⟩
    · exact .inl (hnone calls)
    · rw [hfault]
      split
      · exact .inl rfl
      · exact .inr rfl
  · obtain ⟨hall, herror⟩ := hknown hnone
    rw [Nat.zero_add] at herror
    refine ⟨hall, fun hshort => ?_, fun hclean => ?_⟩
    · rw [herror, hshort]
      rfl
    · rw [herror, hclean]
      rfl

/-- The third record has an unknown tag, and its key is cut off. Without it there are two
records, where the header declares nine. -/
theorem strict_reads_as_lenient_cut :
    let known : Bytes := (⟨7, 9⟩ : Header).encode ++ [0, 1, 98, 1, 1, 97, 1, 49]
    let bytes : Bytes := known ++ [200, 5, 98]
    let found : List Record := [.deletion [98], .put [97] [49]]
    (ofBytes false bytes).MeetsUnknown 2 200 ∧
      (ofBytes false bytes).drain.2.error = some .shortBuffer ∧
      (ofBytes true bytes).drain.1 = found ∧
      (ofBytes true bytes).drain.2.error = some (.unknownKind 200) ∧
      (ofBytes true known).drain.1 = found ∧
      (ofBytes true known).drain.2.error = some (.countMismatch 9 2) := by
  intro known bytes found
  have hmeets : (ofBytes false bytes).MeetsUnknown 2 200 :=
    ⟨by decide +kernel, by decide +kernel, by decide, by decide +kernel⟩
  have hknown : ∀ k ≤ 2, ∀ tag ∈ ((ofBytes false known).after k).remaining.head?,
      tag.toNat ≤ 3 := by decide +kernel
  have hfound : (ofBytes false known).drain.1 = found := by decide +kernel
  have hclean : (ofBytes false known).drain.2.error = none := by decide +kernel
  have hnone : ∀ k tag, ¬(ofBytes false known).MeetsUnknown k tag := by
    intro k tag h
    have hreached := h.reached
    rw [hfound] at hreached
    exact Nat.not_lt.mpr (hknown k hreached tag h.stands) h.unknown
  obtain ⟨-, hunknown, -⟩ := strict_reads_as_lenient bytes
  obtain ⟨-, -, hall, -⟩ := strict_reads_as_lenient known
  obtain ⟨htaken, herror⟩ := hunknown 2 200 hmeets
  obtain ⟨hsame, -, hcount⟩ := hall hnone
  refine ⟨hmeets, by decide +kernel, htaken.trans (by decide +kernel), herror,
    hsame.trans hfound, (hcount hclean).trans ?_⟩
  rw [hfound]
  decide +kernel

end Reader

end Batch

end BatchStore
