import BatchStore.Proofs.Refinement

/-!
# Recovery of an arbitrary log

A log that can be opened gives the map of its decodable batches, applied in the
order of the log. The header of a batch numbers its mutations, but takes no part
in which of them wins: numbers may repeat, fall, overlap or leave gaps. The
latest number is the highest that any batch gives to a mutation.
-/

namespace BatchStore

open LogDevice (Reliable)

namespace DecodedBatch

/-- The number that the header gives to the last mutation, if there is one. -/
def lastNumber? (batch : DecodedBatch) : Option Nat :=
  if 0 < VersionTable.mutations batch.records then
    some (batch.first + VersionTable.mutations batch.records - 1)
  else none

/-- The highest number that the batches give to a mutation, or zero. -/
def latest (batches : List DecodedBatch) : Nat := (batches.filterMap lastNumber?).max?.getD 0

/-- The map that the records of the batches make, one after the other. -/
def contents (batches : List DecodedBatch) : Contents :=
  Contents.empty.applyAll (batches.flatMap (·.records))

theorem latest_eq_foldl (batches : List DecodedBatch) :
    latest batches = (batches.filterMap lastNumber?).foldl max 0 := by
  unfold latest
  cases batches.filterMap lastNumber? with
  | nil => rfl
  | cons number numbers =>
    rw [List.max?_cons', Option.getD_some, List.foldl_cons, Nat.zero_max]

end DecodedBatch

/-- The batches that the intact frames of a log hold, as far as they can be
decoded. -/
def Frame.batches (bytes : Bytes) : List DecodedBatch :=
  (payloads bytes).filterMap fun payload => (DecodedBatch.ofBytes payload).toOption

theorem Frame.fitsCount_of_mem_batches {bytes : Bytes} {batch : DecodedBatch}
    (h : batch ∈ batches bytes) : VersionTable.FitsCount batch.records := by
  obtain ⟨payload, hmem, hbatch⟩ := List.mem_filterMap.mp h
  cases hdecode : DecodedBatch.ofBytes payload with
  | error error =>
    rw [hdecode] at hbatch
    cases hbatch
  | ok decoded =>
    rw [hdecode] at hbatch
    obtain rfl := Option.some.inj hbatch
    exact Database.fitsCount_of_decoded (fits_of_mem hmem) hdecode

namespace Database

theorem last_replayBatch (state : Replayed) {batch : DecodedBatch}
    (hcount : VersionTable.FitsCount batch.records) :
    (replayBatch state batch).2 = (batch.lastNumber?.toList).foldl max state.2 := by
  unfold DecodedBatch.lastNumber?
  rcases Nat.eq_zero_or_pos (VersionTable.mutations batch.records) with hnone | hsome
  · rw [replayBatch_eq_self state hnone, hnone]
    rfl
  · rw [replayBatch_eq state hcount hsome, if_pos hsome]
    rfl

section Batches

variable {batches : List DecodedBatch}
  (hcounts : ∀ batch ∈ batches, VersionTable.FitsCount batch.records)
include hcounts

theorem last_foldl_replayBatch (state : Replayed) :
    (batches.foldl replayBatch state).2 =
      (batches.filterMap DecodedBatch.lastNumber?).foldl max state.2 := by
  induction batches generalizing state with
  | nil => rfl
  | cons batch batches ih =>
    obtain ⟨hcount, hcounts⟩ := List.forall_mem_cons.mp hcounts
    rw [List.foldl_cons, ih hcounts, last_replayBatch state hcount]
    cases hlast : batch.lastNumber? with
    | none => rw [List.filterMap_cons_none hlast, Option.toList_none, List.foldl_nil]
    | some number =>
      rw [List.filterMap_cons_some hlast, List.foldl_cons, Option.toList_some, List.foldl_cons,
        List.foldl_nil]

/-- The last batch in the list wins, because each is applied over the highest
number found before it. -/
theorem view_foldl_replayBatch {state : Replayed} (h : Consistent state) :
    view (batches.foldl replayBatch state) =
      (view state).applyAll (batches.flatMap (·.records)) := by
  induction batches generalizing state with
  | nil => rfl
  | cons batch batches ih =>
    obtain ⟨hcount, hcounts⟩ := List.forall_mem_cons.mp hcounts
    rw [List.foldl_cons, ih hcounts (consistent_replayBatch h hcount), view_replayBatch h hcount,
      List.flatMap_cons, Contents.applyAll_append]

theorem consistent_foldl_replayBatch {state : Replayed} (h : Consistent state) :
    Consistent (batches.foldl replayBatch state) := by
  induction batches generalizing state with
  | nil => exact h
  | cons batch batches ih =>
    obtain ⟨hcount, hcounts⟩ := List.forall_mem_cons.mp hcounts
    exact ih hcounts (consistent_replayBatch h hcount)

end Batches

/-- A replay that goes through has passed over what it could not decode. -/
theorem replay_eq_foldl {paranoid : Bool} {frames : List Frame} {state final : Replayed}
    (h : frames.foldlM (replayFrame paranoid) state = .ok final) :
    final = (frames.filterMap fun frame => (DecodedBatch.ofBytes frame.payload).toOption).foldl
      replayBatch state := by
  induction frames generalizing state with
  | nil =>
    cases h
    rfl
  | cons frame frames ih =>
    rw [List.foldlM_cons] at h
    cases hdecode : DecodedBatch.ofBytes frame.payload with
    | ok batch =>
      rw [replayFrame_decoded hdecode] at h
      rw [List.filterMap_cons_some (by rw [hdecode]; rfl), List.foldl_cons]
      exact ih h
    | error error =>
      rw [replayFrame_undecodable hdecode] at h
      rw [List.filterMap_cons_none (by rw [hdecode]; rfl)]
      cases paranoid with
      | true => cases h
      | false => exact ih h

theorem replayed_eq_foldl {paranoid : Bool} {bytes : Bytes} {result : Replayed}
    (h : replayed paranoid bytes = .ok result) :
    result = (Frame.batches bytes).foldl replayBatch (VersionTable.empty, 0) := by
  have hbatches : (Frame.ofLog bytes).filterMap
      (fun frame => (DecodedBatch.ofBytes frame.payload).toOption) = Frame.batches bytes := by
    unfold Frame.batches
    rw [← Frame.map_payload_ofLog, List.filterMap_map]
    rfl
  rw [replay_eq_foldl (Frame.verdict_ok h).1, hbatches]

/-- The latest state of the database is that of the batches. -/
structure Recovers (db : Database) (batches : List DecodedBatch) : Prop where
  reads : ∀ reading : ReadSettings, reading.snapshot = none →
    db.Answers reading (DecodedBatch.contents batches)
  last : db.last = DecodedBatch.latest batches

theorem recovers_restored {paranoid : Bool} {bytes : Bytes} {result : Replayed}
    (h : replayed paranoid bytes = .ok result) (id : Nat) (settings : Settings)
    (directory : Option Directory) :
    (restored id settings directory result).Recovers (Frame.batches bytes) := by
  have hconsistent := consistent_replayed h
  have hcounts : ∀ batch ∈ Frame.batches bytes, VersionTable.FitsCount batch.records :=
    fun _ => Frame.fitsCount_of_mem_batches
  have hview : (restored id settings directory result).contentsAt result.2 =
      DecodedBatch.contents (Frame.batches bytes) := by
    show view result = _
    rw [replayed_eq_foldl h, view_foldl_replayBatch hcounts consistent_empty]
    rfl
  constructor
  · intro reading hlatest
    rw [← hview]
    exact answers_of_sequence hconsistent.ordered (readSequence_latest rfl hlatest)
  · show result.2 = _
    rw [DecodedBatch.latest_eq_foldl, replayed_eq_foldl h]
    exact last_foldl_replayBatch hcounts _

/-- Acceptable bytes are opened in either mode, and only a torn tail is cut off. -/
theorem opens_acceptable {δ : Type} [LogDevice δ] {holds : δ → Bytes → Prop}
    (hreliable : Reliable holds) {log : δ} {bytes : Bytes} (hlog : holds log bytes)
    (hacceptable : Acceptable bytes) {settings : Settings} (hvalid : settings.fault? = none)
    (id : Nat) :
    ∃ (db : Database) (after : δ), openLog id settings log = (.ok db, after) ∧
      holds after (Frame.encodeAll (Frame.payloads bytes)) ∧
      Opens id settings log db (Frame.ofLog bytes) (Frame.tail bytes).length ∧
      db.Recovers (Frame.batches bytes) := by
  obtain ⟨result, hresult⟩ :=
    (replayed_ok_iff settings.paranoidChecks bytes).mpr fun _ => hacceptable
  obtain ⟨after, hafter, hopen⟩ := openLog_ok hreliable hlog hvalid hresult id
  exact ⟨_, after, hopen, hafter, opens_of_replayed hreliable hlog hvalid hresult id,
    recovers_restored hresult id settings none⟩

/-- Whatever log a database opens on, in either mode: reads find the records of
the decodable batches applied in the order of the log, and the latest number is
the highest that these batches give to a mutation. -/
theorem recovered_from_batches {δ : Type} [LogDevice δ] {holds : δ → Bytes → Prop} {id : Nat}
    {settings : Settings} {log opened : δ} {image : Bytes} {db : Database}
    (hreliable : Reliable holds) (hlog : holds log image)
    (hopened : openLog id settings log = (.ok db, opened)) :
    (∀ reading : ReadSettings, reading.snapshot = none →
      db.Answers reading (DecodedBatch.contents (Frame.batches image))) ∧
    db.last = DecodedBatch.latest (Frame.batches image) := by
  obtain ⟨-, -, result, hresult, rfl⟩ := of_openLog hreliable hlog hopened
  have hrecovers := recovers_restored hresult id settings none
  exact ⟨hrecovers.reads, hrecovers.last⟩

/-- The second batch has lower numbers than the first and overwrites it; the
third frame cannot be decoded; the last repeats a number. -/
theorem recovered_from_batches_falling :
    let numbered (sequence : UInt64) (batch : Batch) := (batch.setSequence sequence).data
    let image := Frame.encodeAll
      [numbered 7 ((Batch.empty.put [97] [49]).put [98] [49]),
        numbered 3 ((Batch.empty.put [97] [50]).delete [98]), [1, 2, 3, 4, 5, 6, 7, 8, 9, 0, 0, 0, 9],
        numbered 3 ((Batch.empty.logData [0]).put [99] [51])] ++ [1, 0, 0]
    ∃ (db : Database) (opened : MemoryLog),
      openLog 0 { paranoidChecks := false } (⟨image⟩ : MemoryLog) = (.ok db, opened) ∧
      db.last = 8 ∧ db.get {} [97] = .ok (some [50]) ∧ db.get {} [98] = .ok none ∧
      db.get {} [99] = .ok (some [51]) := by
  intro numbered image
  have hlog : (⟨image⟩ : MemoryLog).bytes = image := rfl
  have hvalid : ({ paranoidChecks := false } : Settings).fault? = none := rfl
  have hlenient : (({ paranoidChecks := false } : Settings).paranoidChecks = true →
      Acceptable image) := fun h => nomatch h
  obtain ⟨result, hresult⟩ := (replayed_ok_iff _ _).mpr hlenient
  obtain ⟨opened, -, hopened⟩ := openLog_ok MemoryLog.reliable hlog hvalid hresult 0
  obtain ⟨hreads, hlast⟩ := recovered_from_batches MemoryLog.reliable hlog hopened
  refine ⟨_, opened, hopened, ?_, ?_, ?_, ?_⟩
  · rw [hlast]
    decide +kernel
  · rw [(hreads {} rfl).get [97]]
    decide +kernel
  · rw [(hreads {} rfl).get [98]]
    decide +kernel
  · rw [(hreads {} rfl).get [99]]
    decide +kernel

end Database

end BatchStore
