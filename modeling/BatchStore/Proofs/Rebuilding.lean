import BatchStore.Proofs.Construction
import BatchStore.Proofs.ShortestCodes
import BatchStore.Proofs.WholeRecords

/-!
# Batches that are built anew

The records that a strict reader takes from stored bytes are queued in a new batch, under the
number of the old one. This keeps header and records and leaves of the old bytes only how long
the codes of the lengths are: the new bytes are the shortest ones, and the old ones exactly
when these were the shortest already.
-/

namespace BatchStore.Batch

/-- Queues a record again, with the call for its kind. Records of other forms have no call. -/
def requeue (batch : Batch) : Record → Batch
  | ⟨.deletion, key, none⟩ => batch.delete key
  | ⟨.value, key, some value⟩ => batch.put key value
  | ⟨.merge, key, some operand⟩ => batch.merge key operand
  | ⟨.logData, blob, none⟩ => batch.logData blob
  | _ => batch

/-- The batch built anew from the records of stored bytes, with their number set at the end. -/
def rebuild (bytes : Bytes) : Except BatchError Batch := do
  let batch ← ofBytes bytes
  let records ← Reader.records true bytes
  return (records.foldl requeue .empty).setSequence batch.sequence

theorem requeue_of_formed (batch : Batch) {record : Record} (h : record.Formed) :
    batch.requeue record = batch.push record := by
  obtain ⟨kind, key, value⟩ := record
  have hvalue : value.isSome = kind.hasValue := h.value
  cases kind with
  | unknown tag => cases h.known
  | deletion | logData => cases value with
    | none => rfl
    | some value => cases hvalue
  | value | merge => cases value with
    | none => cases hvalue
    | some value => rfl

theorem foldl_requeue {records : List Record} (h : ∀ record ∈ records, record.Formed) :
    records.foldl requeue .empty = .holding 0 records := by
  rw [List.foldl_ext _ _ _ fun batch record hmem => requeue_of_formed batch (h record hmem)]
  exact foldl_push_holding 0 [] records

/-- The records that a strict reader takes can be queued and have room for their lengths. -/
theorem Reader.Takes.formed {codes : List Bytes} {records : List Record}
    (h : Takes true codes records) : ∀ record ∈ records, record.Formed ∧ record.Sized := by
  obtain ⟨hencoded, hknown⟩ := h
  replace hknown := hknown rfl
  induction hencoded with
  | nil => exact nofun
  | cons hcode _ ih =>
    obtain ⟨hfirst, hlater⟩ := List.forall_mem_cons.mp hknown
    exact List.forall_mem_cons.mpr ⟨⟨hcode.formed hfirst, hcode.sized⟩, ih hlater⟩

theorem ofBytes_data (batch : Batch) : ofBytes batch.data = .ok batch := by
  unfold ofBytes
  rw [decode?_data, drop_data]

/-- Bytes that are long enough for a header are those of a batch. -/
theorem exists_data {bytes : Bytes} (h : headerSize ≤ bytes.length) :
    ∃ batch : Batch, bytes = batch.data := by
  obtain ⟨header, hheader⟩ := Option.isSome_iff_exists.mp ((Header.isSome_decode? bytes).mpr h)
  have hadopt : ofBytes bytes = .ok ⟨header, bytes.drop headerSize⟩ := by
    unfold ofBytes
    rw [hheader]
  exact ⟨_, (data_of_ofBytes hadopt).symm⟩

/-- What is built anew holds the records, under the number that they had. -/
theorem rebuild_data {batch : Batch} {records : List Record}
    (hread : Reader.records true batch.data = .ok records)
    (hformed : ∀ record ∈ records, record.Formed) :
    rebuild batch.data = .ok (.holding batch.sequence records) := by
  unfold rebuild
  rw [ofBytes_data, hread]
  show Except.ok ((records.foldl requeue .empty).setSequence batch.sequence) = _
  rw [foldl_requeue hformed]
  rfl

/-- Stored bytes that a strict reader takes are built anew from their records. A strict reader
takes these records from the new bytes too, the header is the same, and they are no longer. They
are the old ones exactly when all lengths among the old ones have their shortest codes. Building
them anew once more gives the same batch. -/
theorem rebuilding_normalises {bytes : Bytes} {records : List Record}
    (hlong : headerSize ≤ bytes.length) (hread : Reader.records true bytes = .ok records) :
    ∃ rebuilt, rebuild bytes = .ok rebuilt ∧
      Reader.records true rebuilt.data = .ok records ∧
      Header.decode? rebuilt.data = Header.decode? bytes ∧
      rebuilt.data.length ≤ bytes.length ∧
      (∃ lengths, Spelled lengths (bytes.drop headerSize) records) ∧
      (∀ lengths, Spelled lengths (bytes.drop headerSize) records →
        (rebuilt.data = bytes ↔ ∀ length ∈ lengths, Varint.Shortest length)) ∧
      rebuild rebuilt.data = .ok rebuilt := by
  obtain ⟨batch, rfl⟩ := exists_data hlong
  obtain ⟨codes, hbody, htakes, hcount⟩ := Reader.reads_iff.mp hread
  have hrecords := htakes.formed
  have hformed : ∀ record ∈ records, record.Formed := fun record hmem => (hrecords record hmem).1
  let rebuilt : Batch := .holding batch.sequence records
  have hreadAgain : Reader.records true rebuilt.data = .ok records := by
    obtain ⟨hfound, hclean, -⟩ := Reader.drain_holding hrecords batch.sequence true
    exact Reader.records_ok_iff.mpr ⟨hfound, hclean⟩
  have hheader : rebuilt.header = batch.header := by
    show (⟨batch.header.sequence, UInt32.ofNat records.length⟩ : Header) = batch.header
    rw [← hcount rfl]
    rfl
  obtain ⟨lengths, hlengths⟩ := exists_spelled htakes.encoded
  rw [← hbody] at hlengths
  refine ⟨rebuilt, rebuild_data hread hformed, hreadAgain, ?_, ?_, ?_, ?_,
    rebuild_data hreadAgain hformed⟩
  · rw [decode?_data, decode?_data, hheader]
  · rw [length_data, length_data]
    exact Nat.add_le_add_left hlengths.length_flatMap_le headerSize
  · rw [drop_data]
    exact ⟨lengths, hlengths⟩
  · rw [drop_data]
    intro others hothers
    have hsame : rebuilt.data = batch.data ↔ batch.body = records.flatMap Record.encode := by
      unfold data
      rw [hheader, List.append_cancel_left_eq]
      exact eq_comm
    exact hsame.trans hothers.eq_flatMap_iff

/-- The length of the key has three octets where one would do. -/
theorem rebuilding_normalises_overlong :
    let bytes : Bytes := [7, 0, 0, 0, 0, 0, 0, 0, 2, 0, 0, 0, 1, 0x81, 0x80, 0, 97, 1, 49, 3, 0]
    let rebuilt : Batch := ⟨⟨7, 2⟩, [1, 1, 97, 1, 49, 3, 0]⟩
    let records : List Record := [.put [97] [49], .logData []]
    headerSize ≤ bytes.length ∧ Reader.records true bytes = .ok records ∧
      rebuild bytes = .ok rebuilt ∧ Reader.records true rebuilt.data = .ok records ∧
      rebuilt.data.length ≤ bytes.length ∧ rebuilt.data ≠ bytes ∧
      (∀ lengths, Spelled lengths (bytes.drop headerSize) records →
        ¬∀ length ∈ lengths, Varint.Shortest length) ∧
      rebuild rebuilt.data = .ok rebuilt := by
  intro bytes rebuilt records
  have hlong : headerSize ≤ bytes.length := by decide
  have hread : Reader.records true bytes = .ok records := by decide +kernel
  have hrebuild : rebuild bytes = .ok rebuilt := by decide +kernel
  obtain ⟨again, hagain, hreadAgain, -, hsize, -, hshortest, hfixed⟩ :=
    rebuilding_normalises hlong hread
  obtain rfl := Except.ok.inj (hrebuild.symm.trans hagain)
  have hother : rebuilt.data ≠ bytes := by decide +kernel
  exact ⟨hlong, hread, hrebuild, hreadAgain, hsize, hother,
    fun lengths hspelled hall => hother ((hshortest lengths hspelled).mpr hall), hfixed⟩

end BatchStore.Batch
