import BatchStore.Proofs.WholeRecords

/-!
# Appended batches

A body that is read without a fault is a sequence of codes, and two such sequences in a row
are one. So of an appended batch a reader takes the records of both, however these were
encoded, and the sum of the counts declares their number if each count declared its own.
-/

namespace BatchStore.Batch

/-- Codes behind codes: a reader takes the records of both. -/
theorem Reader.Takes.append {strict : Bool} {codes others : List Bytes}
    {records found : List Record} (h : Takes strict codes records)
    (hothers : Takes strict others found) :
    Takes strict (codes ++ others) (records ++ found) where
  encoded := List.rel_append h.encoded hothers.encoded
  known := fun hstrict record hmem => by
    rcases List.mem_append.mp hmem with hfirst | hsecond
    · exact h.known hstrict record hfirst
    · exact hothers.known hstrict record hsecond

theorem records_append {strict : Bool} {first second : Batch} {records others : List Record}
    (hfirst : Reader.records strict first.data = .ok records)
    (hsecond : Reader.records strict second.data = .ok others) :
    Reader.records strict (first.append second).data = .ok (records ++ others) := by
  obtain ⟨codes, hbody, htakes, hcount⟩ := Reader.reads_iff.mp hfirst
  obtain ⟨behind, hbehind, htakesBehind, hcountBehind⟩ := Reader.reads_iff.mp hsecond
  refine Reader.reads_iff.mpr ⟨codes ++ behind, ?_, htakes.append htakesBehind, ?_⟩
  · rw [List.flatten_append, ← hbody, ← hbehind]
    rfl
  · intro hstrict
    rw [List.length_append, UInt32.ofNat_add, ← hcount hstrict, ← hcountBehind hstrict]
    rfl

/-- Appending a batch of any bytes to another one. A reader, lenient or strict, that takes the
records of each without a fault takes those of the first and then those of the second; past
`2 ^ 32` of them the counts wrap alike. The number is that of the first and the count the sum
of the two. On the bytes appending is associative, and the empty batch appends nothing. -/
theorem appending_concatenates (first second : Batch) :
    (∀ strict records others, Reader.records strict first.data = .ok records →
      Reader.records strict second.data = .ok others →
      Reader.records strict (first.append second).data = .ok (records ++ others)) ∧
    (first.append second).sequence = first.sequence ∧
    (first.append second).count.toNat =
      (first.count.toNat + second.count.toNat) % UInt32.size ∧
    (∀ third : Batch, ((first.append second).append third).data =
      (first.append (second.append third)).data) ∧
    (first.append .empty).data = first.data := by
  refine ⟨fun strict records others => records_append, rfl, UInt32.toNat_add _ _,
    fun third => ?_, ?_⟩
  · unfold append data
    rw [UInt32.add_assoc, List.append_assoc first.body]
  · have hcount : first.header.count + empty.header.count = first.header.count :=
      UInt32.add_zero _
    unfold append data
    rw [hcount, show empty.body = [] from rfl, List.append_nil]

/-- An adopted batch, with a length of three octets where one would do and an unknown tag, is
appended to itself. A strict reader takes such a sum when the kinds are known. -/
theorem appending_concatenates_copy :
    let adopted : Bytes :=
      [7, 0, 0, 0, 0, 0, 0, 0, 255, 255, 255, 255, 0, 0x81, 0x80, 0, 97, 200, 0]
    let batch : Batch := ⟨⟨7, 0xffffffff⟩, [0, 0x81, 0x80, 0, 97, 200, 0]⟩
    let found : List Record := [.deletion [97], ⟨.unknown 200, [], none⟩]
    let known : Batch := ⟨⟨9, 1⟩, [1, 0x81, 0, 97, 0]⟩
    Batch.ofBytes adopted = .ok batch ∧
      Reader.records false batch.data = .ok found ∧
      Reader.records false (batch.append batch).data = .ok (found ++ found) ∧
      (batch.append batch).count = 0xfffffffe ∧
      Reader.records true known.data = .ok [.put [97] []] ∧
      Reader.records true (known.append known).data = .ok [.put [97] [], .put [97] []] := by
  intro adopted batch found known
  have hfound : Reader.records false batch.data = .ok found := by decide +kernel
  have hknown : Reader.records true known.data = .ok [.put [97] []] := by decide +kernel
  obtain ⟨hread, -, hcount, -⟩ := appending_concatenates batch batch
  obtain ⟨hreadKnown, -⟩ := appending_concatenates known known
  exact ⟨by decide +kernel, hfound, hread false _ _ hfound hfound, by
    rw [← UInt32.toNat_inj, hcount]
    decide, hknown, hreadKnown true _ _ hknown hknown⟩

end BatchStore.Batch
