import BatchStore.Proofs.Grammar
import Mathlib.Data.List.Forall2

/-!
# Reading leniently

A lenient reader that is advanced over and over takes records as long as the
grammar finds one in front of what is left. Then it stays where it is: at the end
of the body, or at bytes that begin no record, with the one fault it knows.
-/

namespace BatchStore.Batch

/-- Bytes hold a header exactly when they are long enough for one. -/
theorem Header.isSome_decode? (bytes : Bytes) :
    (decode? bytes).isSome = true ↔ headerSize ≤ bytes.length := by
  have hsequence := Bytes.isSome_front? 8 bytes
  have hcount := Bytes.isSome_front? 4 (bytes.drop 8)
  rw [List.length_drop] at hcount
  have hboth : headerSize ≤ bytes.length ↔
      (Bytes.front? 8 bytes).isSome = true ∧ (Bytes.front? 4 (bytes.drop 8)).isSome = true := by
    rw [hsequence, hcount]
    unfold headerSize
    omega
  rw [hboth]
  unfold decode? Bytes.word64? Bytes.word32?
  cases Bytes.front? 8 bytes <;> cases Bytes.front? 4 (bytes.drop 8) <;> simp

namespace Reader

/-- The reader after so many calls of `advance`. -/
def after (reader : Reader) : (calls : Nat) → Reader
  | 0 => reader
  | calls + 1 => reader.advance.2.after calls

/-- What a reader comes to that is advanced over and over: the records, the codes
they were read from, and the rest. -/
structure Parses (reader : Reader) (codes : List Bytes) (records : List Record) (rest : Bytes) :
    Prop where
  split : reader.remaining = codes.flatten ++ rest
  encoded : List.Forall₂ Record.Encodes codes records
  /-- Each record has a call that succeeds; the count is kept in 32 bits. -/
  read : ∀ (k : Nat) (h : k < records.length),
    (reader.after k).advance.1 = true ∧ (reader.after (k + 1)).record = records[k] ∧
      reader.remaining = (codes.take (k + 1)).flatten ++ (reader.after (k + 1)).remaining ∧
      (reader.after (k + 1)).decoded = reader.decoded + UInt32.ofNat (k + 1)
  /-- No later call succeeds. -/
  ended : ∀ k, records.length ≤ k → (reader.after k).advance.1 = false
  drained : reader.drain = (records, reader.after (records.length + 1))
  outcome :
    (rest = [] ∧ ∀ k, (reader.after k).error = none) ∨
    (rest ≠ [] ∧ (∀ code record, code <+: rest → ¬Record.Encodes code record) ∧
      ∀ k, (reader.after k).error = if k ≤ records.length then none else some .shortBuffer)

section Stopped

variable {reader : Reader}

theorem advance_of_end (hlenient : reader.strict = false) (herror : reader.error = none)
    (hend : reader.remaining = []) :
    reader.advance = (false, { reader with record := .deletion [] }) := by
  have hfault : reader.countFault = none := by
    unfold countFault
    rw [hlenient]
  rw [advance_at_end herror hend, hfault, ← herror]

/-- A reader that has failed keeps failing and keeps its fault. -/
theorem after_of_error {error : BatchError} (h : reader.error = some error) (calls : Nat) :
    (reader.after calls).error = some error ∧ (reader.after calls).advance.1 = false := by
  induction calls generalizing reader with
  | zero =>
    refine ⟨h, ?_⟩
    rw [after, advance_of_error h]
  | succ calls ih =>
    rw [after, advance_of_error h]
    exact ih h

/-- A lenient reader stays at the end of the body. -/
theorem after_of_end (hlenient : reader.strict = false) (herror : reader.error = none)
    (hend : reader.remaining = []) (calls : Nat) :
    (reader.after calls).error = none ∧ (reader.after calls).advance.1 = false := by
  induction calls generalizing reader with
  | zero =>
    refine ⟨herror, ?_⟩
    rw [after, advance_of_end hlenient herror hend]
  | succ calls ih =>
    rw [after, advance_of_end hlenient herror hend]
    exact ih hlenient herror hend

end Stopped

section Body

variable {reader : Reader}

theorem parses_end (hlenient : reader.strict = false) (herror : reader.error = none)
    (hend : reader.remaining = []) : reader.Parses [] [] [] where
  split := hend
  encoded := .nil
  read := fun k h => absurd h (Nat.not_lt_zero k)
  ended := fun k _ => (after_of_end hlenient herror hend k).2
  drained := by
    rw [drain_eq, advance_of_end hlenient herror hend]
    rw [List.length_nil, after, advance_of_end hlenient herror hend]
    rfl
  outcome := .inl ⟨rfl, fun k => (after_of_end hlenient herror hend k).1⟩

theorem parses_fault (hlenient : reader.strict = false) (herror : reader.error = none)
    {tag : UInt8} {fields left : Bytes} {error : BatchError}
    (hremaining : reader.remaining = tag :: fields)
    (hfront : Front.ofTag false tag fields = .fault error left) :
    reader.Parses [] [] (tag :: fields) := by
  obtain rfl := Front.ofTag_eq_fault hfront
  have hadvance := advance_of_fault herror hremaining (hlenient ▸ hfront)
  have hlater : ∀ k, (reader.after (k + 1)).error = some .shortBuffer ∧
      (reader.after (k + 1)).advance.1 = false := by
    intro k
    rw [after, hadvance]
    exact after_of_error rfl k
  refine ⟨hremaining, .nil, fun k h => absurd h (Nat.not_lt_zero k), ?_, ?_, .inr ⟨nofun, ?_, ?_⟩⟩
  · rintro (_ | k) -
    · rw [after, hadvance]
    · exact (hlater k).2
  · rw [drain_eq, hadvance, List.length_nil, after, hadvance]
    rfl
  · rintro code record ⟨rest, hrest⟩ hencodes
    have hrecord := Front.ofTag_eq_record_iff.mpr ⟨code, hrest.symm, hencodes⟩
    rw [hfront] at hrecord
    cases hrecord
  · rintro (_ | k)
    · exact herror
    · exact (hlater k).1

/-- A record in front, and then what the rest comes to. -/
theorem Parses.cons {later : Reader} {code : Bytes} {record : Record} {codes : List Bytes}
    {records : List Record} {rest : Bytes} (h : later.Parses codes records rest)
    (hadvance : reader.advance = (true, later)) (herror : reader.error = none)
    (hremaining : reader.remaining = code ++ later.remaining)
    (hencodes : Record.Encodes code record) (hrecord : later.record = record)
    (hdecoded : later.decoded = reader.decoded + 1) :
    reader.Parses (code :: codes) (record :: records) rest := by
  have hafter : ∀ k, reader.after (k + 1) = later.after k := by
    intro k
    rw [after, hadvance]
  refine ⟨?_, .cons hencodes h.encoded, ?_, ?_, ?_, ?_⟩
  · rw [hremaining, h.split, List.flatten_cons, List.append_assoc]
  · rintro (_ | k) hk
    · rw [hafter]
      refine ⟨by rw [after, hadvance], hrecord, ?_, hdecoded⟩
      rw [List.take_succ_cons, List.take_zero, List.flatten_singleton]
      exact hremaining
    · obtain ⟨hmore, hread, hleft, hcount⟩ := h.read k (Nat.lt_of_succ_lt_succ hk)
      rw [hafter, hafter]
      refine ⟨hmore, hread, ?_, ?_⟩
      · rw [List.take_succ_cons, List.flatten_cons, List.append_assoc, ← hleft]
        exact hremaining
      · rw [hcount, hdecoded, UInt32.ofNat_add (k + 1) 1, UInt32.add_assoc, UInt32.add_comm 1]
        rfl
  · rintro (_ | k) hk
    · cases hk
    · rw [hafter]
      exact h.ended k (Nat.le_of_succ_le_succ hk)
  · rw [drain_eq, hadvance]
    simp only
    rw [h.drained, hrecord, List.length_cons, hafter]
  · rcases h.outcome with ⟨hend, hnone⟩ | ⟨hmore, hstopped, hlatched⟩
    · refine .inl ⟨hend, ?_⟩
      rintro (_ | k)
      · exact herror
      · rw [hafter]
        exact hnone k
    · refine .inr ⟨hmore, hstopped, ?_⟩
      rintro (_ | k)
      · exact herror
      · rw [hafter, hlatched]
        simp only [List.length_cons, Nat.succ_le_succ_iff]

/-- Every body is a sequence of records and a rest that begins none. -/
theorem parses_lenient (hlenient : reader.strict = false) (herror : reader.error = none) :
    ∃ codes records rest, reader.Parses codes records rest := by
  induction hn : reader.remaining.length using Nat.strongRecOn generalizing reader with
  | ind n ih =>
    subst hn
    cases hremaining : reader.remaining with
    | nil => exact ⟨[], [], [], parses_end hlenient herror hremaining⟩
    | cons tag fields =>
      cases hfront : Front.ofTag false tag fields with
      | fault error left =>
        exact ⟨[], [], tag :: fields, parses_fault hlenient herror hremaining hfront⟩
      | record record left =>
        obtain ⟨code, hcode, hencodes⟩ := Front.ofTag_eq_record_iff.mp hfront
        let later : Reader :=
          { reader with record, remaining := left, decoded := reader.decoded + 1 }
        have hadvance : reader.advance = (true, later) :=
          advance_of_record herror hremaining (hlenient ▸ hfront)
        have hlater : later.strict = false ∧ later.error = none := ⟨hlenient, herror⟩
        obtain ⟨codes, records, rest, hparses⟩ :=
          ih _ (advance_shortens hadvance) hlater.1 hlater.2 rfl
        exact ⟨code :: codes, record :: records, rest,
          hparses.cons hadvance herror (hremaining.trans hcode) hencodes rfl rfl⟩

end Body

/-- Codes of records have two octets or more. -/
theorem two_mul_length_le {codes : List Bytes} {records : List Record}
    (h : List.Forall₂ Record.Encodes codes records) :
    2 * records.length ≤ codes.flatten.length := by
  induction h with
  | nil => exact Nat.zero_le _
  | cons hencodes _ ih =>
    have hcode := hencodes.two_le_length
    rw [List.length_cons, List.flatten_cons, List.length_append]
    omega

/-- Of any bytes a lenient reader takes the records that the grammar finds in the
body, one with each call, until it comes to the end or to bytes that begin no
record. Bytes too short for a header have neither header nor records nor a fault. -/
theorem lenient_reads_grammar (bytes : Bytes) :
    let reader := ofBytes false bytes
    let body := bytes.drop headerSize
    ∃ codes records rest,
      body = codes.flatten ++ rest ∧ reader.remaining = body ∧ reader.decoded = 0 ∧
      reader.Parses codes records rest ∧ records.length ≤ body.length / 2 ∧
      (headerSize ≤ bytes.length → reader.header.isSome = true) ∧
      (bytes.length < headerSize →
        reader.header = none ∧ records = [] ∧ ∀ k, (reader.after k).error = none) := by
  intro reader body
  have hstart : reader.strict = false ∧ reader.error = none := ⟨rfl, rfl⟩
  obtain ⟨codes, records, rest, hparses⟩ := parses_lenient hstart.1 hstart.2
  have hbody : body = codes.flatten ++ rest := hparses.split
  have hhalf : 2 * records.length ≤ body.length := by
    have hcodes := two_mul_length_le hparses.encoded
    rw [hbody, List.length_append]
    omega
  refine ⟨codes, records, rest, hbody, rfl, rfl, hparses, by omega,
    (Header.isSome_decode? bytes).mpr, ?_⟩
  intro hshort
  have hempty : body = [] := List.drop_eq_nil_of_le (Nat.le_of_lt hshort)
  have hnone : ¬(Header.decode? bytes).isSome = true := by
    rw [Header.isSome_decode?]
    omega
  rw [hempty, List.length_nil] at hhalf
  refine ⟨Option.not_isSome_iff_eq_none.mp hnone, List.eq_nil_of_length_eq_zero (by omega), ?_⟩
  rcases hparses.outcome with ⟨-, hnone⟩ | ⟨hmore, -⟩
  · exact hnone
  · rw [hempty] at hbody
    exact absurd (List.append_eq_nil_iff.mp hbody.symm).2 hmore

/-- The first key has a length of three octets where one would do, the second
record has an unknown tag, and the third is cut off. -/
theorem lenient_reads_grammar_cut :
    let bytes := (⟨7, 9⟩ : Header).encode ++
      ([1, 0x81, 0x80, 0, 97, 1, 49] ++ [200, 1, 98] ++ [2, 3, 99])
    let reader := ofBytes false bytes
    headerSize ≤ bytes.length ∧ reader.header.isSome = true ∧ ∃ codes rest,
      bytes.drop headerSize = codes.flatten ++ rest ∧
      reader.Parses codes [.put [97] [49], ⟨.unknown 200, [98], none⟩] rest ∧ rest ≠ [] ∧
      (reader.after 3).error = some .shortBuffer := by
  intro bytes reader
  obtain ⟨codes, records, rest, hbody, -, -, hparses, -, hheader, -⟩ := lenient_reads_grammar bytes
  have hdrain : reader.drain.1 = [.put [97] [49], ⟨.unknown 200, [98], none⟩] := by decide +kernel
  obtain rfl : records = [.put [97] [49], ⟨.unknown 200, [98], none⟩] := by
    rw [← hdrain]
    exact (congrArg Prod.fst hparses.drained).symm
  have hfault : (reader.after 3).error = some .shortBuffer := by decide +kernel
  have hlong : headerSize ≤ bytes.length := by decide
  refine ⟨hlong, hheader hlong, codes, rest, hbody, hparses, ?_, hfault⟩
  rcases hparses.outcome with ⟨-, hnone⟩ | ⟨hmore, -⟩
  · have hclash := hnone 3
    rw [hfault] at hclash
    cases hclash
  · exact hmore

end Reader

end BatchStore.Batch
