import BatchStore.Database.Open
import BatchStore.Proofs.Replay
import BatchStore.Proofs.Write

/-!
# What opening a database finds

The frames of a log are replayed into a table and a latest number. The numbers
in a log may repeat or fall, but each batch is applied over the highest number
found before it, so the last batch in the log wins.
-/

namespace BatchStore

instance decidableEqExcept {ε α : Type} [DecidableEq ε] [DecidableEq α] :
    DecidableEq (Except ε α)
  | .ok a, .ok b => decidable_of_iff (a = b) ⟨congrArg _, Except.ok.inj⟩
  | .error a, .error b => decidable_of_iff (a = b) ⟨congrArg _, Except.error.inj⟩
  | .ok _, .error _ => .isFalse nofun
  | .error _, .ok _ => .isFalse nofun

namespace Database

open LogDevice (Reliable)

/-- What a frame holds is within the count of a batch. -/
theorem fitsCount_of_decoded {payload : Bytes} {batch : DecodedBatch} (hfits : Frame.Fits payload)
    (h : DecodedBatch.ofBytes payload = .ok batch) : VersionTable.FitsCount batch.records :=
  VersionTable.fitsCount_of_length (Nat.lt_of_le_of_lt (DecodedBatch.length_records_le h) hfits)

/-- What a batch does to a replay. -/
def replayBatch (state : Replayed) (batch : DecodedBatch) : Replayed :=
  let (applied, table) := state.1.apply batch state.2
  (table, max state.2 (applied.last?.getD 0))

theorem replayFrame_decoded {frame : Frame} {batch : DecodedBatch}
    (h : DecodedBatch.ofBytes frame.payload = .ok batch) (paranoid : Bool) (state : Replayed) :
    replayFrame paranoid state frame = .ok (replayBatch state batch) := by
  unfold replayFrame
  rw [h]
  rfl

theorem replayFrame_undecodable {frame : Frame} {error : BatchError}
    (h : DecodedBatch.ofBytes frame.payload = .error error) (paranoid : Bool) (state : Replayed) :
    replayFrame paranoid state frame =
      if paranoid then .error (.corruptLog (.undecodable frame.offset error)) else .ok state := by
  unfold replayFrame
  rw [h]

/-- The map that the latest reader finds. -/
def view (state : Replayed) : Contents := fun key => state.1.get? key state.2

structure Consistent (state : Replayed) : Prop where
  ordered : state.1.Ordered
  below : state.1.Below (state.2 + 1)

theorem consistent_empty : Consistent (VersionTable.empty, 0) :=
  ⟨VersionTable.ordered_empty, VersionTable.below_empty 1⟩

/-- A batch without mutations changes nothing. -/
theorem replayBatch_eq_self (state : Replayed) {batch : DecodedBatch}
    (h : VersionTable.mutations batch.records = 0) : replayBatch state batch = state := by
  unfold replayBatch VersionTable.apply Applied.last?
  rw [VersionTable.applyRecords_eq_self _ _ _ h]
  simp

/-- Any other batch raises the latest number to that of its last mutation. -/
theorem replayBatch_eq (state : Replayed) {batch : DecodedBatch}
    (hcount : VersionTable.FitsCount batch.records)
    (h : 0 < VersionTable.mutations batch.records) :
    replayBatch state batch =
      ((VersionTable.applyRecords state.2 batch.records (state.1, batch.first)).1,
        max state.2 (batch.first + VersionTable.mutations batch.records - 1)) := by
  have hlast : (state.1.apply batch state.2).1.last? =
      some (batch.first + VersionTable.mutations batch.records - 1) := by
    rw [VersionTable.last?_apply, VersionTable.counted_eq hcount, if_pos h]
  unfold replayBatch
  simp only [hlast, Option.getD_some]
  rfl

theorem le_replayBatch (state : Replayed) (batch : DecodedBatch) :
    state.2 ≤ (replayBatch state batch).2 := by
  unfold replayBatch
  exact Nat.le_max_left _ _

theorem consistent_replayBatch {state : Replayed} (h : Consistent state) {batch : DecodedBatch}
    (hcount : VersionTable.FitsCount batch.records) : Consistent (replayBatch state batch) := by
  rcases Nat.eq_zero_or_pos (VersionTable.mutations batch.records) with hnone | hsome
  · rw [replayBatch_eq_self state hnone]
    exact h
  · rw [replayBatch_eq state hcount hsome]
    refine ⟨VersionTable.ordered_applyRecords _ _ h.ordered _, ?_⟩
    have hnext := VersionTable.below_applyRecords state.2 batch.records h.ordered h.below batch.first
    rw [VersionTable.next_applyRecords] at hnext
    refine hnext.mono ?_
    omega

/-- The latest reader sees the batch applied, whatever its numbers are. -/
theorem view_replayBatch {state : Replayed} (h : Consistent state) {batch : DecodedBatch}
    (hcount : VersionTable.FitsCount batch.records) :
    view (replayBatch state batch) = (view state).applyAll batch.records := by
  have hsame : view state = fun key => state.1.get? key (replayBatch state batch).2 := by
    funext key
    exact (VersionTable.get?_eq_of_below h.below (le_replayBatch state batch) key).symm
  have hsees : ∀ taken, batch.first ≤ taken →
      taken < (VersionTable.applyRecords state.2 batch.records (state.1, batch.first)).2 →
      taken ≤ (replayBatch state batch).2 := by
    intro taken hlow hhigh
    rw [VersionTable.next_applyRecords] at hhigh
    rw [replayBatch_eq state hcount (by omega)]
    simp only
    omega
  rw [hsame, ← VersionTable.get?_applyRecords (le_replayBatch state batch) batch.records h.ordered
    batch.first hsees]
  rfl

/-- Replaying frames keeps the table consistent. -/
theorem consistent_replay {paranoid : Bool} {frames : List Frame} {state final : Replayed}
    (h : Consistent state) (hfits : ∀ frame ∈ frames, Frame.Fits frame.payload)
    (hreplay : frames.foldlM (replayFrame paranoid) state = .ok final) : Consistent final := by
  induction frames generalizing state with
  | nil =>
    cases hreplay
    exact h
  | cons frame frames ih =>
    obtain ⟨hfirst, hrest⟩ := List.forall_mem_cons.mp hfits
    rw [List.foldlM_cons] at hreplay
    cases hdecode : DecodedBatch.ofBytes frame.payload with
    | ok batch =>
      rw [replayFrame_decoded hdecode] at hreplay
      have hcount := fitsCount_of_decoded hfirst hdecode
      exact ih (consistent_replayBatch h hcount) hrest hreplay
    | error error =>
      rw [replayFrame_undecodable hdecode] at hreplay
      cases paranoid with
      | true => cases hreplay
      | false => exact ih h hrest hreplay

/-- The table and the latest number that the bytes of a log give. -/
def replayed (paranoid : Bool) (bytes : Bytes) : Except StoreError Replayed :=
  Frame.verdict paranoid (replayFrame paranoid) 0 bytes (VersionTable.empty, 0)

theorem consistent_replayed {paranoid : Bool} {bytes : Bytes} {state : Replayed}
    (h : replayed paranoid bytes = .ok state) : Consistent state :=
  consistent_replay consistent_empty (fun _ => Frame.fits_of_mem_ofLog) (Frame.verdict_ok h).1

/-- A log that paranoid opening accepts: each intact frame holds a batch that
can be decoded, and what follows them is torn and not damaged. -/
structure Acceptable (bytes : Bytes) : Prop where
  decodes : ∀ payload ∈ Frame.payloads bytes, ∃ batch, DecodedBatch.ofBytes payload = .ok batch
  torn : ∀ stored computed, Frame.front (Frame.tail bytes) ≠ .damaged stored computed

/-- A replay goes through unless paranoid checks meet an undecodable frame. -/
theorem replay_ok_iff (paranoid : Bool) (frames : List Frame) (state : Replayed) :
    (∃ final, frames.foldlM (replayFrame paranoid) state = .ok final) ↔
      (paranoid = true → ∀ frame ∈ frames, ∃ batch, DecodedBatch.ofBytes frame.payload = .ok batch) := by
  induction frames generalizing state with
  | nil =>
    constructor
    · intro _ _ frame hmem
      cases hmem
    · intro _
      exact ⟨state, rfl⟩
  | cons frame frames ih =>
    rw [List.foldlM_cons]
    cases hdecode : DecodedBatch.ofBytes frame.payload with
    | ok batch =>
      rw [replayFrame_decoded hdecode]
      refine (ih (replayBatch state batch)).trans (imp_congr_right fun _ => ?_)
      rw [List.forall_mem_cons]
      exact ⟨fun h => ⟨⟨batch, hdecode⟩, h⟩, fun h => h.2⟩
    | error error =>
      rw [replayFrame_undecodable hdecode]
      cases paranoid with
      | true =>
        constructor
        · rintro ⟨final, hfinal⟩
          cases hfinal
        · intro h
          obtain ⟨batch, hbatch⟩ := h rfl frame List.mem_cons_self
          rw [hdecode] at hbatch
          cases hbatch
      | false =>
        refine (ih state).trans (imp_congr_right fun h => ?_)
        cases h

theorem tailError_eq_none_iff (paranoid : Bool) (offset : Nat) (tail : Bytes) :
    Frame.tailError paranoid offset tail = none ↔
      (paranoid = true → ∀ stored computed, Frame.front tail ≠ .damaged stored computed) := by
  unfold Frame.tailError
  cases hfront : Frame.front tail with
  | intact payload rest => simp
  | torn => simp
  | damaged stored computed => cases paranoid <;> simp

/-- Lenient opening always succeeds; paranoid opening asks for acceptable bytes. -/
theorem replayed_ok_iff (paranoid : Bool) (bytes : Bytes) :
    (∃ result, replayed paranoid bytes = .ok result) ↔ (paranoid = true → Acceptable bytes) := by
  have hframes := replay_ok_iff paranoid (Frame.ofLog bytes) (VersionTable.empty, 0)
  have htail := tailError_eq_none_iff paranoid (Frame.encodeAll (Frame.payloads bytes)).length
    (Frame.tail bytes)
  have hpayloads := Frame.map_payload_ofLog bytes
  constructor
  · rintro ⟨result, hresult⟩ hparanoid
    obtain ⟨hfold, hnone⟩ := Frame.verdict_ok hresult
    refine ⟨fun payload hmem => ?_, htail.mp hnone hparanoid⟩
    rw [← hpayloads] at hmem
    obtain ⟨frame, hframe, rfl⟩ := List.mem_map.mp hmem
    exact hframes.mp ⟨result, hfold⟩ hparanoid frame hframe
  · intro h
    obtain ⟨result, hfold⟩ := hframes.mpr fun hparanoid frame hmem =>
      (h hparanoid).decodes frame.payload (hpayloads ▸ List.mem_map_of_mem hmem)
    exact ⟨result, Frame.verdict_of_fold hfold (htail.mpr fun hparanoid => (h hparanoid).torn)⟩

/-- An empty log is replayed in either mode. -/
theorem replayed_nil (paranoid : Bool) : replayed paranoid [] = .ok (VersionTable.empty, 0) := by
  have htorn : ∀ payload rest, Frame.front [] ≠ .intact payload rest := by
    intro payload rest h
    cases h
  unfold replayed
  rw [Frame.verdict_of_not_intact htorn]
  rfl

variable {δ : Type} [LogDevice δ] {holds : δ → Bytes → Prop} {log : δ} {bytes : Bytes}

/-- A database as it stands after its journal has been replayed. -/
def restored (id : Nat) (settings : Settings) (directory : Option Directory)
    (replayed : Replayed) : Database :=
  { id, settings, directory
    table := replayed.1
    last := replayed.2
    snapshots := .empty
    isOpen := true }

/-- Valid settings leave the opening of a log to its recovery. -/
theorem openLog_valid {settings : Settings} (hfault : settings.fault? = none) (id : Nat) (log : δ) :
    openLog id settings log = recover id settings none log := by
  unfold openLog
  rw [hfault]

theorem openLog_invalid {settings : Settings} {fault : SettingsFault}
    (hfault : settings.fault? = some fault) (id : Nat) (log : δ) :
    openLog id settings log = (.error (.invalidArgument (.settings fault)), log) := by
  unfold openLog
  rw [hfault]

theorem recover_ok (hreliable : Reliable holds) (hlog : holds log bytes) {settings : Settings}
    {result : Replayed} (h : replayed settings.paranoidChecks bytes = .ok result) (id : Nat)
    (directory : Option Directory) :
    ∃ after, holds after (Frame.encodeAll (Frame.payloads bytes)) ∧
      recover id settings directory log = (.ok (restored id settings directory result), after) := by
  obtain ⟨after, hafter, hrecover⟩ := Journal.recover_ok hreliable hlog h
  refine ⟨after, hafter, ?_⟩
  unfold Database.recover
  simp only [hrecover]
  rfl

theorem recover_error (hreliable : Reliable holds) (hlog : holds log bytes) {settings : Settings}
    {error : StoreError} (h : replayed settings.paranoidChecks bytes = .error error) (id : Nat)
    (directory : Option Directory) :
    (recover id settings directory log).1 = .error error ∧
      holds (recover id settings directory log).2 bytes := by
  obtain ⟨hresult, hafter⟩ := Journal.recover_error hreliable hlog h
  unfold Database.recover
  simp only [hresult]
  exact ⟨rfl, hafter⟩

/-- A database that was recovered from a log is what the log's bytes give. -/
theorem recovered_ok (hreliable : Reliable holds) (hlog : holds log bytes) {settings : Settings}
    {id : Nat} {directory : Option Directory} {db : Database} {opened : δ}
    (h : recover id settings directory log = (.ok db, opened)) :
    holds opened (Frame.encodeAll (Frame.payloads bytes)) ∧
      ∃ result, replayed settings.paranoidChecks bytes = .ok result ∧
        db = restored id settings directory result := by
  cases hr : replayed settings.paranoidChecks bytes with
  | error error =>
    have herror := (recover_error hreliable hlog hr id directory).1
    rw [h] at herror
    cases herror
  | ok result =>
    obtain ⟨after, hafter, hopen⟩ := recover_ok hreliable hlog hr id directory
    rw [h] at hopen
    obtain ⟨hdb, rfl⟩ := Prod.mk.inj hopen
    exact ⟨hafter, result, rfl, Except.ok.inj hdb⟩

theorem openLog_ok (hreliable : Reliable holds) (hlog : holds log bytes) {settings : Settings}
    (hfault : settings.fault? = none) {result : Replayed}
    (h : replayed settings.paranoidChecks bytes = .ok result) (id : Nat) :
    ∃ after, holds after (Frame.encodeAll (Frame.payloads bytes)) ∧
      openLog id settings log = (.ok (restored id settings none result), after) := by
  rw [openLog_valid hfault]
  exact recover_ok hreliable hlog h id none

theorem openLog_error (hreliable : Reliable holds) (hlog : holds log bytes) {settings : Settings}
    (hfault : settings.fault? = none) {error : StoreError}
    (h : replayed settings.paranoidChecks bytes = .error error) (id : Nat) :
    (openLog id settings log).1 = .error error ∧ holds (openLog id settings log).2 bytes := by
  rw [openLog_valid hfault]
  exact recover_error hreliable hlog h id none

/-- What opening a log gives is what its bytes do. -/
theorem result_openLog (hreliable : Reliable holds) (hlog : holds log bytes) {settings : Settings}
    (hfault : settings.fault? = none) (id : Nat) :
    (openLog id settings log).1 =
      (replayed settings.paranoidChecks bytes).map (restored id settings none) := by
  cases hr : replayed settings.paranoidChecks bytes with
  | error error => exact (openLog_error hreliable hlog hfault hr id).1
  | ok result =>
    obtain ⟨after, -, hopen⟩ := openLog_ok hreliable hlog hfault hr id
    rw [hopen]
    rfl

/-- A database that was opened over a log is what the log's bytes give. -/
theorem of_openLog (hreliable : Reliable holds) (hlog : holds log bytes) {settings : Settings}
    {id : Nat} {db : Database} {opened : δ} (h : openLog id settings log = (.ok db, opened)) :
    settings.fault? = none ∧ holds opened (Frame.encodeAll (Frame.payloads bytes)) ∧
      ∃ result, replayed settings.paranoidChecks bytes = .ok result ∧
        db = restored id settings none result := by
  cases hfault : settings.fault? with
  | some fault =>
    rw [openLog_invalid hfault] at h
    cases (Prod.mk.inj h).1
  | none =>
    rw [openLog_valid hfault] at h
    exact ⟨rfl, recovered_ok hreliable hlog h⟩

/-- Opening over the log gives this database: it replays these frames, one after
the other, and cuts that many bytes off behind them. -/
structure Opens (id : Nat) (settings : Settings) (log : δ) (db : Database) (frames : List Frame)
    (discarded : Nat) : Prop where
  opened : (openLog id settings log).1 = .ok db
  read : (Journal.readAll log settings.paranoidChecks).1 = .ok frames
  recovered : (Journal.recover log settings.paranoidChecks
    (replayFrame settings.paranoidChecks) (VersionTable.empty, 0)).result =
      .ok ⟨frames.length, discarded⟩
  replayed : frames.foldlM (replayFrame settings.paranoidChecks) (VersionTable.empty, 0) =
    .ok (db.table, db.last)

theorem opens_of_replayed (hreliable : Reliable holds) (hlog : holds log bytes)
    {settings : Settings} (hfault : settings.fault? = none) {result : Replayed}
    (h : Database.replayed settings.paranoidChecks bytes = .ok result) (id : Nat) :
    Opens id settings log (restored id settings none result) (Frame.ofLog bytes)
      (Frame.tail bytes).length where
  opened := by
    obtain ⟨after, -, hopen⟩ := openLog_ok hreliable hlog hfault h id
    rw [hopen]
  read := by
    rw [Journal.readAll_eq hreliable hlog, (Frame.verdict_ok h).2]
  recovered := by
    obtain ⟨after, -, hrecover⟩ := Journal.recover_ok hreliable hlog h
    rw [hrecover, Frame.length_ofLog]
  replayed := (Frame.verdict_ok h).1

theorem sound_restored {result : Replayed} (h : Consistent result) (id : Nat) (settings : Settings)
    (directory : Option Directory) : (restored id settings directory result).Sound :=
  ⟨h.ordered, h.below⟩

/-- A database over a log without bytes begins empty, whatever the device does
when it is asked for more than its size. -/
theorem recover_empty {log after : δ} (hsize : LogDevice.size log = (.ok 0, after)) (id : Nat)
    (settings : Settings) (directory : Option Directory) :
    recover id settings directory log =
      (.ok (restored id settings directory (VersionTable.empty, 0)), after) := by
  have hstart : Scan.start log settings.paranoidChecks =
      (.ok ⟨0, 0, settings.paranoidChecks, false⟩, after) := by
    unfold Scan.start
    rw [hsize]
  have hnext : (⟨0, 0, settings.paranoidChecks, false⟩ : Scan).next after =
      (none, ⟨0, 0, settings.paranoidChecks, true⟩, after) := rfl
  unfold recover Journal.recover
  rw [hstart]
  simp only [Scan.replay_end hnext]
  rfl

end Database

end BatchStore
