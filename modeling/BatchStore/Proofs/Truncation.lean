import BatchStore.Proofs.Construction
import BatchStore.Proofs.WholeRecords

/-!
# Batches that were cut off

The bytes of a batch that was built are cut behind its header. No beginning of a record is a
record, so a reader takes the records that are left whole and stops: at a piece of the next
one with the fault of a record cut off, and at the end of a record cleanly, where a strict
reader still finds that the header declares more of them.
-/

namespace BatchStore

theorem Record.encodes_encode {record : Record} (hformed : record.Formed)
    (hsized : record.Sized) : Record.Encodes record.encode record := by
  have hfront := Batch.Front.ofTag_fields hformed hsized false []
  obtain ⟨code, hcode, hencodes⟩ := Batch.Front.ofTag_eq_record_iff.mp hfront
  rw [List.append_nil, List.append_nil] at hcode
  rw [Record.encode_eq, hcode]
  exact hencodes

/-- No record is the beginning of another one. -/
theorem Record.Encodes.eq_of_prefix {code other : Bytes} {record found : Record}
    (h : Encodes code record) (hother : Encodes other found) (hbegins : other <+: code) :
    other = code := by
  obtain ⟨tail, htail⟩ := hbegins
  obtain ⟨tag, fields, hcode⟩ : ∃ tag fields, code = tag :: fields := by
    cases h <;> exact ⟨_, _, rfl⟩
  -- the same bytes are read as the one record with nothing behind it and as the other
  have hwhole : Batch.Front.ofTag false tag fields = .record record [] :=
    Batch.Front.ofTag_eq_record_iff.mpr ⟨code, by rw [List.append_nil, hcode], h⟩
  have hpart : Batch.Front.ofTag false tag fields = .record found tail :=
    Batch.Front.ofTag_eq_record_iff.mpr ⟨other, by rw [htail, hcode], hother⟩
  rw [hwhole] at hpart
  obtain ⟨-, rfl⟩ := Batch.Front.record.inj hpart
  rw [← htail, List.append_nil]

namespace Batch

/-- Codes that are cut before their end are some whole ones and a piece of the next. -/
theorem cut_codes {codes : List Bytes} {cut : Nat} (hcut : cut < codes.flatten.length) :
    ∃ (whole : Nat) (h : whole < codes.length) (piece : Bytes),
      codes.flatten.take cut = (codes.take whole).flatten ++ piece ∧
        piece <+: codes[whole] ∧ piece ≠ codes[whole] ∧
        cut = (codes.take whole).flatten.length + piece.length := by
  induction codes generalizing cut with
  | nil => exact absurd hcut (Nat.not_lt_zero cut)
  | cons code codes ih =>
    rw [List.flatten_cons, List.length_append] at hcut
    by_cases hfirst : cut < code.length
    · have hlength : (code.take cut).length = cut := by
        rw [List.length_take]
        omega
      refine ⟨0, Nat.zero_lt_succ _, code.take cut, ?_, List.take_prefix cut code, ?_, ?_⟩
      · rw [List.flatten_cons, List.take_append_of_le_length (Nat.le_of_lt hfirst)]
        rfl
      · intro hsame
        rw [hsame] at hlength
        exact Nat.ne_of_gt hfirst hlength
      · rw [hlength, List.take_zero, List.flatten_nil, List.length_nil, Nat.zero_add]
    · obtain ⟨whole, hwhole, piece, htake, hpiece, hshort, hlength⟩ :=
        ih (by omega : cut - code.length < codes.flatten.length)
      refine ⟨whole + 1, Nat.succ_lt_succ hwhole, piece, ?_, hpiece, hshort, ?_⟩
      · rw [List.flatten_cons, List.take_append, List.take_of_length_le (by omega), htake,
          List.take_succ_cons, List.flatten_cons, List.append_assoc]
      · rw [List.take_succ_cons, List.flatten_cons, List.length_append]
        omega

namespace Reader

/-- At a piece of a record a reader finds it cut off. -/
theorem drain_of_piece {reader : Reader} {code : Bytes} {record : Record}
    (hcode : Record.Encodes code record) (hknown : record.kind.isKnown = true)
    (herror : reader.error = none) (hpiece : reader.remaining <+: code)
    (hshort : reader.remaining ≠ code) (hsome : reader.remaining ≠ []) :
    reader.drain.1 = [] ∧ reader.drain.2.error = some .shortBuffer := by
  obtain ⟨tag, fields, hremaining⟩ := List.exists_cons_of_ne_nil hsome
  rw [hremaining] at hpiece hshort
  have htag : tag.toNat ≤ 3 := by
    rw [← RecordKind.isKnown_ofTag]
    cases hcode <;> exact (List.cons_prefix_cons.mp hpiece).1 ▸ hknown
  cases hfront : Front.ofTag reader.strict tag fields with
  | record found rest =>
    obtain ⟨⟨other, hother, hencodes⟩, -⟩ := Front.ofTag_takes_iff.mp hfront
    have hbegins : other <+: tag :: fields := ⟨rest, hother.symm⟩
    obtain rfl := hcode.eq_of_prefix hencodes (hbegins.trans hpiece)
    exact absurd (hpiece.eq_of_length_le hbegins.length_le) hshort
  | fault error rest =>
    have hlenient := hfront
    rw [Front.ofTag_of_known htag] at hlenient
    obtain rfl := Front.ofTag_eq_fault hlenient
    rw [drain_of_fault herror hremaining hfront]
    exact ⟨rfl, rfl⟩

/-- Of codes and a piece of one more a reader takes the whole ones. -/
theorem drain_of_cut {reader : Reader} {codes : List Bytes} {records : List Record}
    {code piece : Bytes} {record : Record} (htakes : Takes reader.strict codes records)
    (hcode : Record.Encodes code record) (hknown : record.kind.isKnown = true)
    (hpiece : piece <+: code) (hshort : piece ≠ code) (herror : reader.error = none)
    (hremaining : reader.remaining = codes.flatten ++ piece) :
    reader.drain.1 = records ∧ reader.drain.2.error =
      if piece = [] then (reader.behind records.length []).countFault else some .shortBuffer := by
  rw [drain_codes htakes herror hremaining]
  by_cases hnone : piece = []
  · have hend : (reader.behind records.length []).drain = _ := drain_at_end herror rfl
    rw [if_pos hnone, hnone, hend, List.append_nil]
    exact ⟨rfl, rfl⟩
  · let later := reader.behind records.length piece
    obtain ⟨hread, hfault⟩ : later.drain.1 = [] ∧ later.drain.2.error = some .shortBuffer :=
      drain_of_piece hcode hknown herror hpiece hshort hnone
    rw [if_neg hnone, hread, List.append_nil]
    exact ⟨rfl, hfault⟩

theorem takes_encode {records : List Record}
    (h : ∀ record ∈ records, record.Formed ∧ record.Sized) (strict : Bool) :
    Takes strict (records.map Record.encode) records where
  encoded := by
    rw [List.forall₂_map_left_iff, List.forall₂_same]
    exact fun record hmem => Record.encodes_encode (h record hmem).1 (h record hmem).2
  known := fun _ record hmem => (h record hmem).1.known

end Reader

/-- A batch that is cut behind its header is the batch with that much of its body. -/
theorem data_take (batch : Batch) {cut : Nat} (h : headerSize ≤ cut) :
    batch.data.take cut = { batch with body := batch.body.take (cut - headerSize) }.data := by
  have hheader := length_encode_header batch.header
  unfold data
  rw [List.take_append, List.take_of_length_le (by omega), hheader]

end Batch

namespace Construction

/-- The size of the batch with the first `k` of its records: where these records end. -/
def recordEnd (construction : Construction) (k : Nat) : Nat :=
  ((construction.records.take k).foldl Batch.push .empty).size

theorem recordEnd_eq (construction : Construction) (k : Nat) :
    construction.recordEnd k =
      Batch.headerSize + ((construction.records.take k).flatMap Record.encode).length := by
  rw [recordEnd, show Batch.empty = .holding 0 [] from rfl, Batch.foldl_push_holding]
  rfl

theorem recordEnd_mono (construction : Construction) {j k : Nat} (h : j ≤ k) :
    construction.recordEnd j ≤ construction.recordEnd k := by
  have hsplit : construction.records.take k =
      construction.records.take j ++ (construction.records.drop j).take (k - j) := by
    rw [← List.take_add, Nat.add_sub_cancel' h]
  rw [recordEnd_eq, recordEnd_eq, hsplit, List.flatMap_append, List.length_append]
  omega

section

variable {construction : Construction} {cut whole : Nat} {piece : Bytes}

/-- The cut is in the record behind so many whole ones, or before its first byte. -/
structure CutIn (construction : Construction) (cut whole : Nat) (piece : Bytes) : Prop where
  inside : whole < construction.records.length
  body : construction.batch.body.take (cut - Batch.headerSize) =
    ((construction.records.take whole).map Record.encode).flatten ++ piece
  begins : piece <+: construction.records[whole].encode
  short : piece ≠ construction.records[whole].encode
  place : construction.recordEnd whole + piece.length = cut
  next : cut < construction.recordEnd (whole + 1)

theorem exists_cutIn (hheader : Batch.headerSize ≤ cut)
    (hcut : cut < construction.batch.data.length) :
    ∃ whole piece, construction.CutIn cut whole piece := by
  have hbody : construction.batch.body = (construction.records.map Record.encode).flatten := by
    rw [construction.batch_eq]
    exact List.flatMap_def
  rw [Batch.length_data, Batch.size, hbody] at hcut
  obtain ⟨whole, hwhole, piece, htake, hbegins, hshort, hlength⟩ :=
    Batch.cut_codes (Nat.sub_lt_left_of_lt_add hheader hcut)
  rw [List.length_map] at hwhole
  rw [List.getElem_map] at hbegins hshort
  rw [← List.map_take] at htake hlength
  have hpiece : piece.length < construction.records[whole].encode.length :=
    Nat.lt_of_le_of_ne hbegins.length_le fun hsame => hshort (hbegins.eq_of_length hsame)
  have hplace : construction.recordEnd whole + piece.length = cut := by
    rw [construction.recordEnd_eq, List.flatMap_def]
    omega
  have hnext : construction.recordEnd (whole + 1) =
      construction.recordEnd whole + construction.records[whole].encode.length := by
    rw [construction.recordEnd_eq, construction.recordEnd_eq,
      List.take_succ_eq_append_getElem hwhole, List.flatMap_append, List.flatMap_singleton,
      List.length_append, Nat.add_assoc]
  exact ⟨whole, piece, hwhole, hbody ▸ htake, hbegins, hshort, hplace, by omega⟩

/-- The whole records are those that end at or before the cut. -/
theorem CutIn.recordEnd_le_iff (h : construction.CutIn cut whole piece) (k : Nat) :
    construction.recordEnd (k + 1) ≤ cut ↔ k < whole := by
  have hplace := h.place
  have hnext := h.next
  rcases Nat.lt_or_ge k whole with hbefore | hbehind
  · have hle : k + 1 ≤ whole := hbefore
    have hmono := construction.recordEnd_mono hle
    omega
  · have hle : whole + 1 ≤ k + 1 := Nat.succ_le_succ hbehind
    have hmono := construction.recordEnd_mono hle
    omega

/-- Nothing is left of a record when the cut is where one ends. -/
theorem CutIn.piece_eq_nil_iff (h : construction.CutIn cut whole piece) :
    piece = [] ↔ ∃ k, construction.recordEnd k = cut := by
  have hplace := h.place
  constructor
  · rintro rfl
    exact ⟨whole, hplace⟩
  · rintro ⟨k, hk⟩
    have hle : k ≤ whole := by
      cases k with
      | zero => exact Nat.zero_le whole
      | succ k => exact (h.recordEnd_le_iff k).mp (Nat.le_of_eq hk)
    have hmono := construction.recordEnd_mono hle
    exact List.eq_nil_of_length_eq_zero (by omega)

/-- Any reader of a batch that was cut takes the whole records. -/
theorem CutIn.drain (h : construction.CutIn cut whole piece)
    (hsized : ∀ record ∈ construction.records, record.Sized) (hheader : Batch.headerSize ≤ cut)
    (strict : Bool) :
    let reader := Batch.Reader.ofBytes strict (construction.batch.data.take cut)
    reader.drain.1 = construction.records.take whole ∧ reader.drain.2.error =
      if piece = [] then (reader.behind whole []).countFault else some .shortBuffer := by
  intro reader
  have hformed : ∀ record ∈ construction.records, record.Formed ∧ record.Sized :=
    fun record hmem => ⟨construction.formed record hmem, hsized record hmem⟩
  have hnext := hformed _ (List.getElem_mem h.inside)
  have hwhole : ∀ record ∈ construction.records.take whole, record.Formed ∧ record.Sized :=
    fun record hmem => hformed record (List.mem_of_mem_take hmem)
  have hremaining : reader.remaining =
      ((construction.records.take whole).map Record.encode).flatten ++ piece := by
    rw [← h.body]
    show (Batch.Reader.ofBytes strict (construction.batch.data.take cut)).remaining = _
    rw [Batch.data_take _ hheader, Batch.Reader.ofBytes_data]
  have hdrain := Batch.Reader.drain_of_cut (Batch.Reader.takes_encode hwhole strict)
    (Record.encodes_encode hnext.1 hnext.2) hnext.1.known h.begins h.short rfl hremaining
  rw [List.length_take_of_le (Nat.le_of_lt h.inside)] at hdrain
  exact hdrain

/-- At the end of a record a strict reader misses the records behind the cut, and a lenient
one misses nothing. -/
theorem CutIn.countFault (h : construction.CutIn cut whole piece)
    (hcount : construction.records.length < UInt32.size) (hheader : Batch.headerSize ≤ cut)
    (strict : Bool) :
    ((Batch.Reader.ofBytes strict (construction.batch.data.take cut)).behind whole []).countFault =
      if strict then some (.countMismatch (UInt32.ofNat construction.records.length)
        (UInt32.ofNat whole)) else none := by
  have hmiss : UInt32.ofNat construction.records.length ≠ UInt32.ofNat whole := by
    intro hsame
    have hnat := congrArg UInt32.toNat hsame
    rw [UInt32.toNat_ofNat_of_lt' hcount,
      UInt32.toNat_ofNat_of_lt' (Nat.lt_trans h.inside hcount)] at hnat
    exact Nat.ne_of_gt h.inside hnat
  rw [Batch.data_take _ hheader, Batch.Reader.ofBytes_data, construction.batch_eq]
  unfold Batch.Reader.behind Batch.Reader.countFault Batch.holding
  cases strict with
  | false => rfl
  | true => simp only [UInt32.zero_add, if_neg hmiss, if_true]

end

/-- A batch that was built is cut behind its header and before its end. Readers of what is
left take the records that end at or before the cut. If a record ends there or none has begun,
a lenient reader finds no fault and a strict one a header that declares more records; strictly
inside a record both find it cut off. -/
theorem reads_back_cut (construction : Construction)
    (hsized : ∀ record ∈ construction.records, record.Sized)
    (hcount : construction.records.length < UInt32.size) {cut : Nat}
    (hheader : Batch.headerSize ≤ cut) (hcut : cut < construction.batch.data.length) :
    let lenient := Batch.Reader.ofBytes false (construction.batch.data.take cut)
    let strict := Batch.Reader.ofBytes true (construction.batch.data.take cut)
    ∃ whole < construction.records.length,
      (∀ k < construction.records.length, construction.recordEnd (k + 1) ≤ cut ↔ k < whole) ∧
      lenient.drain.1 = construction.records.take whole ∧
      strict.drain.1 = construction.records.take whole ∧
      ((∃ k, construction.recordEnd k = cut) → lenient.drain.2.error = none ∧
        strict.drain.2.error = some (.countMismatch
          (UInt32.ofNat construction.records.length) (UInt32.ofNat whole))) ∧
      ((∀ k, construction.recordEnd k ≠ cut) →
        lenient.drain.2.error = some .shortBuffer ∧
          strict.drain.2.error = some .shortBuffer) := by
  intro lenient strict
  obtain ⟨whole, piece, h⟩ := exists_cutIn hheader hcut
  obtain ⟨htaken, herror⟩ := h.drain hsized hheader false
  obtain ⟨htakenStrict, herrorStrict⟩ := h.drain hsized hheader true
  rw [h.countFault hcount hheader] at herror herrorStrict
  refine ⟨whole, h.inside, fun k _ => h.recordEnd_le_iff k, htaken, htakenStrict,
    fun hend => ?_, fun hinside => ?_⟩
  · rw [if_pos (h.piece_eq_nil_iff.mpr hend)] at herror herrorStrict
    exact ⟨herror, herrorStrict⟩
  · have hpiece : piece ≠ [] := by
      intro hnil
      obtain ⟨k, hk⟩ := h.piece_eq_nil_iff.mp hnil
      exact hinside k hk
    rw [if_neg hpiece] at herror herrorStrict
    exact ⟨herror, herrorStrict⟩

/-- The second record of three is cut off in its value, whose length has two octets. -/
theorem reads_back_cut_in_value :
    let built := logData (put (merge new [97] [49]) [98] (List.replicate 200 50)) [99]
    let lenient := Batch.Reader.ofBytes false (built.batch.data.take 60)
    let strict := Batch.Reader.ofBytes true (built.batch.data.take 60)
    lenient.drain.1 = [.merge [97] [49]] ∧ strict.drain.1 = [.merge [97] [49]] ∧
      lenient.drain.2.error = some .shortBuffer ∧ strict.drain.2.error = some .shortBuffer := by
  intro built lenient strict
  have hfirst : built.recordEnd (0 + 1) = 17 := by decide +kernel
  have hsecond : built.recordEnd (1 + 1) = 222 := by decide +kernel
  have hcut : 60 < built.batch.data.length := by decide +kernel
  obtain ⟨whole, -, hwhole, htaken, htakenStrict, -, hinside⟩ :=
    built.reads_back_cut (by decide +kernel) (by decide) (by decide) hcut
  obtain rfl : whole = 1 := by
    have hmore := hwhole 0 (by decide)
    have hno := hwhole 1 (by decide)
    rw [hfirst] at hmore
    rw [hsecond] at hno
    omega
  have hnever : ∀ k, built.recordEnd k ≠ 60 := by
    intro k hk
    rcases Nat.lt_or_ge 1 k with hlater | hearlier
    · have hmono := built.recordEnd_mono (show 1 + 1 ≤ k from hlater)
      omega
    · have hmono := built.recordEnd_mono (show k ≤ 0 + 1 from hearlier)
      omega
  obtain ⟨hlenient, hstrict⟩ := hinside hnever
  exact ⟨htaken, htakenStrict, hlenient, hstrict⟩

end Construction

end BatchStore
