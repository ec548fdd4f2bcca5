import BatchStore.Proofs.Construction
import BatchStore.Proofs.LoggedCalls
import BatchStore.Proofs.Recovery
import BatchStore.Proofs.Reopening
import BatchStore.Proofs.VersionOrder

/-!
# Batches committed in pieces

Batches that were built can be committed one after the other, or as one batch to
which they are appended. The two ways differ in the number of frames, in the numbers
in their headers and in the horizons that versions are pruned up to. They come to
the same records, though, and what readers find depends on these alone: of the live
database, of its snapshots, and of the database that the log is opened on again.
-/

namespace BatchStore

open LogDevice (Reliable)

theorem length_le_length_flatMap {α β : Type} {f : α → List β} {a : α} {list : List α}
    (h : a ∈ list) : (f a).length ≤ (list.flatMap f).length := by
  rw [List.flatMap_def]
  exact (List.sublist_flatten_of_mem (List.mem_map_of_mem h)).length_le

namespace Construction

/-- The batch to which the others are appended one by one. -/
def concat (first : Construction) (others : List Construction) : Construction :=
  others.foldl append first

theorem records_concat (first : Construction) (others : List Construction) :
    (first.concat others).records = (first :: others).flatMap records := by
  unfold concat
  induction others generalizing first with
  | nil => exact (List.append_nil _).symm
  | cons other others ih =>
    rw [List.foldl_cons, ih, List.flatMap_cons, List.flatMap_cons, List.flatMap_cons,
      ← List.append_assoc]
    rfl

theorem length_data (built : Construction) :
    built.batch.data.length = Batch.headerSize + (built.records.flatMap Record.encode).length := by
  rw [Batch.length_data, Batch.size, batch_eq]
  rfl

/-- A batch is no longer than one that it is appended to. -/
theorem length_data_le {first built : Construction} {others : List Construction}
    (h : built ∈ first :: others) :
    built.batch.data.length ≤ (first.concat others).batch.data.length := by
  have hbody : (built.records.flatMap Record.encode).length ≤
      ((first :: others).flatMap fun piece => piece.records.flatMap Record.encode).length :=
    length_le_length_flatMap (f := fun piece => piece.records.flatMap Record.encode) h
  rw [length_data, length_data, records_concat, List.flatMap_assoc]
  exact Nat.add_le_add_left hbody _

theorem sized_of_length {built : Construction} (h : built.batch.data.length < UInt64.size) :
    ∀ record ∈ built.records, record.Sized := by
  intro record hmem
  have hstored := length_le_length_flatMap (f := Record.encode) hmem
  have hlength := built.length_data
  have hrecord : record.encode.length = 1 + (Varstring.encode record.key).length +
      ((record.value.map Varstring.encode).getD []).length := by
    rw [Record.encode_eq, Record.fields, List.length_cons, List.length_append]
    omega
  have hstring : ∀ text, text.length ≤ (Varstring.encode text).length := by
    intro text
    unfold Varstring.encode
    rw [List.length_append]
    exact Nat.le_add_left _ _
  have hkey := hstring record.key
  refine ⟨by omega, fun value hvalue => ?_⟩
  have hsome : record.value = some value := hvalue
  rw [hsome, Option.map_some, Option.getD_some] at hrecord
  have hfits := hstring value
  omega

/-- Strict reading finds the records that were queued. -/
theorem records_batch {built : Construction} (hsized : ∀ record ∈ built.records, record.Sized) :
    Batch.Reader.records true built.batch.data = .ok built.records := by
  obtain ⟨hread, herror, -⟩ := Batch.Reader.drain_holding
    (fun record hmem => ⟨built.formed record hmem, hsized record hmem⟩) built.sequence true
  rw [← built.batch_eq] at hread herror
  exact Batch.Reader.records_ok_iff.mpr ⟨hread, herror⟩

theorem batch_records {built : Construction} (hsized : ∀ record ∈ built.records, record.Sized) :
    built.batch.records = built.records := by
  unfold Batch.records
  rw [records_batch hsized]

theorem decodes {built : Construction} (hsized : ∀ record ∈ built.records, record.Sized)
    (sequence : UInt64) :
    DecodedBatch.ofBytes (built.batch.setSequence sequence).data =
      .ok ⟨sequence.toNat, built.records⟩ := by
  unfold DecodedBatch.ofBytes
  rw [Batch.Reader.records_setSequence, records_batch hsized, Batch.decode?_data]
  rfl

end Construction

namespace Database

/-- A batch in a frame behind a whole log is the last one to be replayed. -/
theorem replayed_append {bytes payload : Bytes} (h : Frame.Whole bytes)
    (hfits : Frame.Fits payload) {batch : DecodedBatch}
    (hdecode : DecodedBatch.ofBytes payload = .ok batch) (paranoid : Bool) :
    replayed paranoid (bytes ++ Frame.encode payload) =
      (replayed paranoid bytes).map ([batch].foldl replayBatch) := by
  rw [replayed_eq_foldlM h, replayed_eq_foldlM (h.append_encode hfits),
    Frame.ofLog_append_encode h hfits, List.foldlM_append]
  cases (Frame.ofLog bytes).foldlM (replayFrame paranoid) (VersionTable.empty, 0) with
  | error error => rfl
  | ok state =>
    show List.foldlM (replayFrame paranoid) state [_] = _
    rw [List.foldlM_cons, replayFrame_decoded hdecode]
    rfl

end Database

/-- A batch that was built, and the settings that it is committed with. -/
structure Commit where
  settings : WriteSettings
  built : Construction

def Commit.action (commit : Commit) : Action := .write commit.settings commit.built.batch

namespace Session

variable {δ : Type} {holds : δ → Bytes → Prop}

/-- What committing records makes of a session: readers that no number is above see the
records applied, and live snapshots read on as before. -/
structure Commits (session next : Session δ) (records : List Record) : Prop where
  isOpen : next.database.isOpen = true
  settings : next.database.settings = session.database.settings
  id : next.database.id = session.database.id
  snapshots : next.database.snapshots = session.database.snapshots
  ordered : next.database.table.Ordered
  last : next.database.last = session.database.last + VersionTable.mutations records
  latest : ∀ {reader : Nat}, next.database.last ≤ reader →
    next.database.contentsAt reader = (session.database.contentsAt reader).applyAll records
  kept : ∀ {live : List Nat}, session.database.snapshots.Counts live → ∀ reader ∈ live,
    reader ≤ session.database.last →
      next.database.contentsAt reader = session.database.contentsAt reader

theorem Commits.refl {session : Session δ} (hopen : session.database.isOpen = true)
    (hordered : session.database.table.Ordered) : session.Commits session [] :=
  ⟨hopen, rfl, rfl, rfl, hordered, rfl, fun _ => rfl, fun _ _ _ _ => rfl⟩

theorem Commits.trans {session middle next : Session δ} {first second : List Record}
    (h : session.Commits middle first) (h' : middle.Commits next second) :
    session.Commits next (first ++ second) where
  isOpen := h'.isOpen
  settings := h'.settings.trans h.settings
  id := h'.id.trans h.id
  snapshots := h'.snapshots.trans h.snapshots
  ordered := h'.ordered
  last := by rw [h'.last, h.last, VersionTable.mutations_append, Nat.add_assoc]
  latest := by
    intro reader hreader
    have hmiddle : middle.database.last ≤ reader := by
      rw [h'.last] at hreader
      exact Nat.le_trans (Nat.le_add_right _ _) hreader
    rw [h'.latest hreader, h.latest hmiddle, Contents.applyAll_append]
  kept := by
    intro live hcounts reader hlive hle
    have hmiddle : reader ≤ middle.database.last := by
      rw [h.last]
      exact Nat.le_trans hle (Nat.le_add_right _ _)
    have hcounts' : middle.database.snapshots.Counts live := by
      rw [h.snapshots]
      exact hcounts
    rw [h'.kept hcounts' reader hlive hmiddle, h.kept hcounts reader hlive hle]

/-- What logging records makes of a log: replaying it in either mode comes to
batches of these records, which stand behind all that was found before. -/
structure Logs (session next : Session δ) (records : List Record) (bytes bytes' : Bytes)
    (batches : List DecodedBatch) : Prop where
  whole : Frame.Whole bytes'
  replayed : ∀ paranoid, Database.replayed paranoid bytes' =
    (Database.replayed paranoid bytes).map (batches.foldl Database.replayBatch)
  contents : batches.flatMap (·.records) = records
  counts : ∀ batch ∈ batches, VersionTable.FitsCount batch.records
  last : ∀ {state : Database.Replayed}, state.2 ≤ session.database.last →
    (batches.foldl Database.replayBatch state).2 =
      if 0 < VersionTable.mutations records then next.database.last else state.2

theorem Logs.refl {session : Session δ} {bytes : Bytes} (hwhole : Frame.Whole bytes) :
    session.Logs session [] bytes bytes [] where
  whole := hwhole
  replayed := by
    intro paranoid
    cases Database.replayed paranoid bytes <;> rfl
  contents := rfl
  counts := fun batch hmem => nomatch hmem
  last := fun _ => rfl

theorem Logs.trans {session middle next : Session δ} {first second : List Record}
    {bytes bytes' bytes'' : Bytes} {batches batches' : List DecodedBatch}
    (hcommits : session.Commits middle first) (hcommits' : middle.Commits next second)
    (h : session.Logs middle first bytes bytes' batches)
    (h' : middle.Logs next second bytes' bytes'' batches') :
    session.Logs next (first ++ second) bytes bytes'' (batches ++ batches') where
  whole := h'.whole
  replayed := by
    intro paranoid
    rw [h'.replayed, h.replayed]
    cases Database.replayed paranoid bytes with
    | error error => rfl
    | ok state => exact congrArg Except.ok (List.foldl_append ..).symm
  contents := by rw [List.flatMap_append, h.contents, h'.contents]
  counts := List.forall_mem_append.mpr ⟨h.counts, h'.counts⟩
  last := by
    intro state hle
    have hmiddle := hcommits.last
    have hnext := hcommits'.last
    have hbehind : (batches.foldl Database.replayBatch state).2 ≤ middle.database.last := by
      rw [h.last hle]
      split <;> omega
    rw [List.foldl_append, h'.last hbehind, VersionTable.mutations_append]
    rcases Nat.eq_zero_or_pos (VersionTable.mutations second) with hnone | hsome
    · -- the second part leaves the number of the first standing
      rw [hnone, Nat.add_zero] at hnext ⊢
      rw [if_neg (Nat.lt_irrefl 0), h.last hle, hnext]
    · rw [if_pos hsome, if_pos (Nat.add_pos_right _ hsome)]

/-- Applying a batch under the next numbers commits its records. -/
theorem commits_applyBatch {session : Session δ} (hopen : session.database.isOpen = true)
    (hordered : session.database.table.Ordered) {batch : DecodedBatch}
    (hfollows : session.database.Follows batch) (hcount : VersionTable.FitsCount batch.records)
    (log : δ) :
    session.Commits { session with database := (session.database.applyBatch batch).2, log }
      batch.records where
  isOpen := hopen
  settings := rfl
  id := rfl
  snapshots := rfl
  ordered := VersionTable.ordered_applyRecords _ _ hordered _
  last := Database.last_applyBatch hfollows hcount
  latest := by
    intro reader hreader
    rw [Database.last_applyBatch hfollows hcount] at hreader
    exact Database.contentsAt_applyBatch_of_le hfollows hordered hreader
  kept := fun hcounts _ hlive hle =>
    Database.contentsAt_applyBatch hfollows hordered (Database.horizon_le hcounts hlive) hle

/-- A committed batch that was logged is replayed behind what the log held. -/
theorem logs_applyBatch {session : Session δ} {bytes payload : Bytes} {batch : DecodedBatch}
    (hwhole : Frame.Whole bytes) (hfits : Frame.Fits payload)
    (hdecode : DecodedBatch.ofBytes payload = .ok batch)
    (hfollows : session.database.Follows batch) (log : δ) :
    session.Logs { session with database := (session.database.applyBatch batch).2, log }
      batch.records bytes (bytes ++ Frame.encode payload) [batch] where
  whole := hwhole.append_encode hfits
  replayed := Database.replayed_append hwhole hfits hdecode
  contents := List.flatMap_singleton _ _
  counts := List.forall_mem_singleton.mpr (Database.fitsCount_of_decoded hfits hdecode)
  last := fun hle =>
    Database.last_replayBatch_of_le hle hfollows (Database.fitsCount_of_decoded hfits hdecode)

/-- Two sessions that come from one by committing the same records read alike, the latest
state and every snapshot that was in use. -/
theorem readAlike_of_commits {session a b : Session δ} {records : List Record}
    (ha : session.Commits a records) (hb : session.Commits b records)
    (hcounted : session.Counted) (hreached : session.Reached) {reading : ReadSettings}
    (hreading : reading.snapshot = none ∨
      ∃ held ∈ session.held, 0 < held.holders ∧ reading.snapshot = some held.snapshot) :
    a.database.ReadAlike b.database reading := by
  have horder : a.database.settings.keyOrder = b.database.settings.keyOrder := by
    rw [ha.settings, hb.settings]
  rcases hreading with hlatest | ⟨held, hmem, hlive, hsnapshot⟩
  · have hlast : b.database.last = a.database.last := hb.last.trans ha.last.symm
    have hsame : a.database.contentsAt a.database.last = b.database.contentsAt b.database.last := by
      rw [ha.latest (Nat.le_refl _), hb.latest (Nat.le_refl _), hlast]
    exact Database.readAlike_of_contents ha.ordered hb.ordered
      (Database.readSequence_latest ha.isOpen hlatest)
      (Database.readSequence_latest hb.isOpen hlatest) hsame horder
  · obtain ⟨hown, hle⟩ := hreached held.snapshot (List.mem_map_of_mem hmem)
    obtain ⟨number, hnumber⟩ := List.mem_iff_getElem?.mp hmem
    have hread := HeldSnapshot.mem_live hnumber (Nat.ne_of_gt hlive)
    have hsame : a.database.contentsAt held.snapshot.sequence =
        b.database.contentsAt held.snapshot.sequence := by
      rw [ha.kept hcounted _ hread hle, hb.kept hcounted _ hread hle]
    exact Database.readAlike_of_contents ha.ordered hb.ordered
      (Database.readSequence_snapshot ha.isOpen hsnapshot (hown.trans ha.id.symm))
      (Database.readSequence_snapshot hb.isOpen hsnapshot (hown.trans hb.id.symm)) hsame horder

variable [LogDevice δ]

/-- Writing a batch that was built succeeds. It leaves the session as it is when the
batch is empty, and else applies and logs its records under the next numbers. -/
theorem step_commit_cases (hreliable : Reliable holds) {session : Session δ} {bytes : Bytes}
    (hlog : holds session.log bytes) (hopen : session.database.isOpen = true)
    (hfits : session.database.last + 1 < UInt64.size) {commit : Commit}
    (hsize : commit.built.batch.data.length < UInt32.size) :
    (∃ call, (session.step commit.action).1 = .wrote call ∧ call.Succeeds) ∧
    ((commit.built.records = [] ∧ (session.step commit.action).2 = session) ∨
      ∃ payload after,
        DecodedBatch.ofBytes payload =
          .ok ⟨session.database.last + 1, commit.built.records⟩ ∧
        Frame.Fits payload ∧
        holds after (bytes ++ if commit.settings.disableLog then [] else Frame.encode payload) ∧
        (session.step commit.action).2 =
          { session with
            database := (session.database.applyBatch
              ⟨session.database.last + 1, commit.built.records⟩).2
            log := after }) := by
  have hwords : UInt32.size < UInt64.size := by decide
  have hsized := Construction.sized_of_length (Nat.lt_trans hsize hwords)
  have hdecoded : DecodedBatch.ofBytes (session.database.number commit.built.batch).data =
      .ok ⟨session.database.last + 1, commit.built.records⟩ := by
    have hnumber := Construction.decodes hsized (UInt64.ofNat (session.database.last + 1))
    rw [UInt64.toNat_ofNat_of_lt' hfits] at hnumber
    exact hnumber
  have hroom : Frame.Fits (session.database.number commit.built.batch).data := by
    unfold Frame.Fits Database.number
    rw [Batch.length_data]
    rw [Batch.length_data] at hsize
    exact hsize
  obtain ⟨logged, hlogged, hafter⟩ :=
    Database.logBatch_fits hreliable hlog hroom commit.settings
  have houtcome := Database.write_outcome session.database session.log commit.settings
    commit.built.batch
  unfold step Commit.action write WriteCall.Succeeds WriteCall.written
  simp only
  generalize hwritten : session.database.write session.log commit.settings commit.built.batch =
    written at houtcome ⊢
  cases houtcome with
  | closed hclosed => rw [hopen] at hclosed; cases hclosed
  | empty _ hempty =>
    refine ⟨⟨_, rfl, _, congrArg Database.Written.result hwritten⟩, .inl ⟨?_, rfl⟩⟩
    rw [← Construction.batch_records hsized]
    exact Batch.records_eq_nil hempty
  | refused _ _ hdecode => rw [hdecoded] at hdecode; cases hdecode
  | unlogged _ _ _ hlog => rw [hlogged] at hlog; cases (Prod.mk.inj hlog).1
  | committed _ _ hdecode hlog =>
    rw [hdecoded] at hdecode
    obtain rfl := Except.ok.inj hdecode
    rw [hlogged] at hlog
    obtain ⟨-, rfl⟩ := Prod.mk.inj hlog
    exact ⟨⟨_, rfl, _, congrArg Database.Written.result hwritten⟩,
      .inr ⟨_, logged, hdecoded, hroom, hafter, rfl⟩⟩

/-- One commit comes to its records, and so does the log unless it is left out. -/
theorem commits_step (hreliable : Reliable holds) {session : Session δ} {bytes : Bytes}
    (hlog : holds session.log bytes) (hopen : session.database.isOpen = true)
    (hordered : session.database.table.Ordered)
    (hfits : session.database.last + 1 < UInt64.size) {commit : Commit}
    (hsize : commit.built.batch.data.length < UInt32.size) :
    session.Commits (session.step commit.action).2 commit.built.records ∧
      ∃ bytes', holds (session.step commit.action).2.log bytes' ∧
        (commit.settings.disableLog = false → Frame.Whole bytes →
          ∃ batches, session.Logs (session.step commit.action).2 commit.built.records bytes bytes'
            batches) := by
  obtain ⟨-, ⟨hnone, hsame⟩ | ⟨payload, after, hdecode, hroom, hafter, hnext⟩⟩ :=
    step_commit_cases hreliable hlog hopen hfits hsize
  · rw [hnone, hsame]
    exact ⟨.refl hopen hordered, bytes, hlog, fun _ hwhole => ⟨[], .refl hwhole⟩⟩
  · rw [hnext]
    let batch : DecodedBatch := ⟨session.database.last + 1, commit.built.records⟩
    have hfollows : session.database.Follows batch := rfl
    have hcount := Database.fitsCount_of_decoded hroom hdecode
    refine ⟨commits_applyBatch hopen hordered hfollows hcount after, _, hafter,
      fun henabled hwhole => ⟨[batch], ?_⟩⟩
    rw [henabled]
    exact logs_applyBatch hwhole hroom hdecode hfollows after

/-- Commits one after the other succeed and come to their records in a row. -/
theorem commits_run (hreliable : Reliable holds) {session : Session δ} {bytes : Bytes}
    (hlog : holds session.log bytes) (hopen : session.database.isOpen = true)
    (hordered : session.database.table.Ordered) {commits : List Commit}
    (hsize : ∀ commit ∈ commits, commit.built.batch.data.length < UInt32.size)
    (hnumbered : session.Numbered (commits.map Commit.action)) :
    (∀ call ∈ Event.writes (session.run (commits.map Commit.action)).1, call.Succeeds) ∧
      session.Commits (session.run (commits.map Commit.action)).2
        (commits.flatMap (·.built.records)) ∧
      ∃ bytes', holds (session.run (commits.map Commit.action)).2.log bytes' ∧
        ((∀ commit ∈ commits, commit.settings.disableLog = false) → Frame.Whole bytes →
          ∃ batches, session.Logs (session.run (commits.map Commit.action)).2
            (commits.flatMap (·.built.records)) bytes bytes' batches) := by
  induction commits generalizing session bytes with
  | nil =>
    exact ⟨fun call hmem => (nomatch hmem), .refl hopen hordered, bytes, hlog,
      fun _ hwhole => ⟨[], .refl hwhole⟩⟩
  | cons commit commits ih =>
    obtain ⟨hfits, hrest⟩ := hnumbered
    obtain ⟨hfirst, hothers⟩ := List.forall_mem_cons.mp hsize
    obtain ⟨⟨wrote, hwrote, hsucceeds⟩, -⟩ := step_commit_cases hreliable hlog hopen hfits hfirst
    obtain ⟨hstep, middle, hmiddle, hlogged⟩ :=
      commits_step hreliable hlog hopen hordered hfits hfirst
    obtain ⟨hcalls, hrun, bytes', hbytes', hlater⟩ :=
      ih hmiddle hstep.isOpen hstep.ordered hothers hrest
    refine ⟨forall_writes_cons.mpr ⟨fun call hcall => ?_, hcalls⟩, hstep.trans hrun, bytes',
      hbytes', fun henabled hwhole => ?_⟩
    · obtain rfl := Event.wrote.inj (hwrote.symm.trans hcall)
      exact hsucceeds
    · obtain ⟨henabled, hall⟩ := List.forall_mem_cons.mp henabled
      obtain ⟨batches, hfront⟩ := hlogged henabled hwhole
      obtain ⟨batches', hback⟩ := hlater hall hfront.whole
      exact ⟨batches ++ batches', hfront.trans hstep hrun hback⟩

end Session

namespace Database

/-- Two attempts to open a database fail for the same reason, or both succeed, with
the same latest number and the same latest reads. -/
def OpenAlike : Except StoreError Database → Except StoreError Database → Prop
  | .ok a, .ok b => a.last = b.last ∧
      ∀ reading : ReadSettings, reading.snapshot = none → a.ReadAlike b reading
  | .error error, .error error' => error = error'
  | .ok _, .error _ | .error _, .ok _ => False

/-- Restored databases with the same latest number and the same latest map. -/
theorem openAlike_restored {a b : Replayed} (ha : Consistent a) (hb : Consistent b)
    (hlast : a.2 = b.2) (hview : view a = view b) (id : Nat) (settings : Settings) :
    OpenAlike (.ok (restored id settings none a)) (.ok (restored id settings none b)) :=
  ⟨hlast, fun _ hlatest => readAlike_of_contents ha.ordered hb.ordered
    (readSequence_latest rfl hlatest) (readSequence_latest rfl hlatest) hview rfl⟩

end Database

namespace Session

variable {δ : Type} [LogDevice δ] {holds : δ → Bytes → Prop}

/-- Where the same records were committed and logged, the logs open alike. -/
theorem openAlike_of_logs (hreliable : Reliable holds) {session a b : Session δ}
    {records : List Record} {bytes bytesA bytesB : Bytes} {batchesA batchesB : List DecodedBatch}
    (ha : session.Logs a records bytes bytesA batchesA)
    (hb : session.Logs b records bytes bytesB batchesB) (hlast : a.database.last = b.database.last)
    (hloga : holds a.log bytesA) (hlogb : holds b.log bytesB)
    (hle : ∀ {paranoid state}, Database.replayed paranoid bytes = .ok state →
      state.2 ≤ session.database.last) (id : Nat) (settings : Settings) :
    Database.OpenAlike (Database.openLog id settings a.log).1
      (Database.openLog id settings b.log).1 := by
  cases hfault : settings.fault? with
  | some fault =>
    rw [Database.openLog_invalid hfault, Database.openLog_invalid hfault]
    rfl
  | none =>
    rw [Database.result_openLog hreliable hloga hfault,
      Database.result_openLog hreliable hlogb hfault, ha.replayed, hb.replayed]
    cases hstate : Database.replayed settings.paranoidChecks bytes with
    | error error => rfl
    | ok state =>
      have hconsistent := Database.consistent_replayed hstate
      refine Database.openAlike_restored ?_ ?_ ?_ ?_ id settings
      · exact Database.consistent_foldl_replayBatch ha.counts hconsistent
      · exact Database.consistent_foldl_replayBatch hb.counts hconsistent
      · rw [ha.last (hle hstate), hb.last (hle hstate), hlast]
      · rw [Database.view_foldl_replayBatch ha.counts hconsistent,
          Database.view_foldl_replayBatch hb.counts hconsistent, ha.contents, hb.contents]

/-- Whatever was done with a database before, as long as it is open and its device
fails no call: committing batches that were built, each with its own settings, and
committing the batch to which they are appended both succeed and leave the same
latest number and the same reads, of the latest state and of every snapshot in use.
When all is logged, the two logs open alike with any settings, and they do open in
the mode that the database was recovered in and in the lenient one. -/
theorem splitting_unobservable {id : Nat} {settings : Settings} {directory : Option Directory}
    {log opened : δ} {image : Bytes} {db : Database} {actions : List Action}
    {events : List (Event δ)} {session : Session δ} (hreliable : Reliable holds)
    (hlog : holds log image)
    (hopened : Database.recover id settings directory log = (.ok db, opened))
    (hnumbered : (start db opened).Numbered actions)
    (hrun : (start db opened).run actions = (events, session))
    (hopen : session.database.isOpen = true) (first : Commit) (others : List Commit)
    (joint : WriteSettings)
    (hsize : (first.built.concat (others.map (·.built))).batch.data.length < UInt32.size)
    (hfits : session.Numbered ((first :: others).map Commit.action)) :
    let split := session.run ((first :: others).map Commit.action)
    let joined := session.run [.write joint (first.built.concat (others.map (·.built))).batch]
    (∀ call ∈ Event.writes split.1 ++ Event.writes joined.1, call.Succeeds) ∧
    split.2.database.last = joined.2.database.last ∧
    (∀ reading : ReadSettings, (reading.snapshot = none ∨
        ∃ held ∈ session.held, 0 < held.holders ∧ reading.snapshot = some held.snapshot) →
      split.2.database.ReadAlike joined.2.database reading) ∧
    ((∀ commit ∈ first :: others, commit.settings.disableLog = false) → joint.disableLog = false →
      ∀ (again : Nat) (later : Settings),
        Database.OpenAlike (Database.openLog again later split.2.log).1
          (Database.openLog again later joined.2.log).1 ∧
        (later.fault? = none → (later.paranoidChecks = true → settings.paranoidChecks = true) →
          ∃ reopened, (Database.openLog again later split.2.log).1 = .ok reopened)) := by
  intro split joined
  have hordered := ordered_of_recover hopened actions
  obtain ⟨result, rfl, hjournals⟩ := journals_recovered hreliable hlog hopened
  have hcounted := counted_run
    (counted_start rfl opened : (start (Database.restored id settings directory result) opened).Counted)
    actions
  have hfresh : (start (Database.restored id settings directory result) opened).Reached :=
    fun snapshot hmem => nomatch hmem
  have hreached := reached_run actions hfresh hnumbered
  obtain ⟨bytes, state, hadvances⟩ := advances_run hreliable actions hjournals hnumbered
  rw [hrun] at hordered hcounted hreached hadvances
  have hend := hadvances.journals
  -- both ways are commits, the second of a single batch
  let whole : Commit := ⟨joint, first.built.concat (others.map (·.built))⟩
  have hrecords : (first :: others).flatMap (·.built.records) =
      [whole].flatMap (·.built.records) := by
    rw [List.flatMap_singleton, Construction.records_concat, ← List.map_cons, List.flatMap_map]
  have hsizes : ∀ commit ∈ first :: others, commit.built.batch.data.length < UInt32.size := by
    intro commit hmem
    refine Nat.lt_of_le_of_lt (Construction.length_data_le ?_) hsize
    exact List.mem_map_of_mem (f := Commit.built) hmem
  obtain ⟨hcalls, hsplit, bytesA, hlogA, hloggedA⟩ :=
    commits_run hreliable hend.log hopen hordered hsizes hfits
  have hwhole : ∀ commit ∈ [whole], commit.built.batch.data.length < UInt32.size :=
    List.forall_mem_singleton.mpr hsize
  obtain ⟨hcall, hjoined, bytesB, hlogB, hloggedB⟩ :=
    commits_run hreliable hend.log hopen hordered hwhole ⟨hfits.1, trivial⟩
  rw [hrecords] at hsplit hloggedA
  have hlast : split.2.database.last = joined.2.database.last := hsplit.last.trans hjoined.last.symm
  refine ⟨List.forall_mem_append.mpr ⟨hcalls, hcall⟩, hlast,
    fun reading => readAlike_of_commits hsplit hjoined hcounted hreached,
    fun henabled hjoint again later => ?_⟩
  · obtain ⟨batchesA, hA⟩ := hloggedA henabled hend.whole
    obtain ⟨batchesB, hB⟩ := hloggedB (List.forall_mem_singleton.mpr hjoint) hend.whole
    have hstate : Database.replayed settings.paranoidChecks bytes = .ok state :=
      Database.replayed_whole hend.whole hend.replay
    refine ⟨openAlike_of_logs hreliable hA hB hlast hlogA hlogB ?_ again later, ?_⟩
    · -- a replay that goes through finds the same in either mode
      intro paranoid found hfound
      rw [Database.replayed_eq_foldl hfound, ← Database.replayed_eq_foldl hstate]
      exact hend.le
    · intro hvalid hmode
      obtain ⟨again', hagain⟩ := (Database.replayed_ok_iff later.paranoidChecks bytes).mpr
        fun hparanoid => (Database.replayed_ok_iff _ bytes).mp ⟨state, hstate⟩ (hmode hparanoid)
      rw [Database.result_openLog hreliable hlogA hvalid, hA.replayed, hagain]
      exact ⟨_, rfl⟩

/-- Among the pieces one is empty and one holds log data alone; a snapshot reads a
value that both ways overwrite twice. The logs differ, but open alike. -/
theorem splitting_unobservable_around_log_data :
    let db := Database.restored 0 {} none (VersionTable.empty, 0)
    let session := ((start db (MemoryLog.empty)).run [.put {} [97] [49], .takeSnapshot]).2
    let kept : Snapshot := ⟨0, 1⟩
    let first : Commit := ⟨{}, .put (.delete .new [97]) [98] [49]⟩
    let others : List Commit := [⟨{ sync := true }, .new⟩, ⟨{}, .logData .new [7]⟩,
      ⟨{}, .setSequence (.merge (.put .new [97] [50]) [98] [51]) 9⟩]
    let split := (session.run ((first :: others).map Commit.action)).2
    let joined := (session.run
      [.write { sync := true } (first.built.concat (others.map (·.built))).batch]).2
    split.log ≠ joined.log ∧ split.database.last = 5 ∧ joined.database.last = 5 ∧
      split.database.get { snapshot := some kept } [97] = .ok (some [49]) ∧
      joined.database.get { snapshot := some kept } [97] = .ok (some [49]) ∧
      split.database.cursor {} = joined.database.cursor {} ∧
      ∃ reopened, (Database.openLog 1 {} split.log).1 = .ok reopened ∧
        Database.OpenAlike (.ok reopened) (Database.openLog 1 {} joined.log).1 := by
  intro db session kept first others split joined
  have hempty : LogDevice.size MemoryLog.empty = (.ok 0, MemoryLog.empty) := rfl
  obtain ⟨-, hlast, hreads, hlogs⟩ := splitting_unobservable MemoryLog.reliable rfl
    (Database.recover_empty hempty 0 {} none) (by decide +kernel)
    (Prod.eta ((start db MemoryLog.empty).run [.put {} [97] [49], .takeSnapshot])).symm
    (by decide +kernel) first others { sync := true } (by decide +kernel) (by decide +kernel)
  have hheld : session.held = [⟨kept, 1⟩] := by decide +kernel
  have hsnapshot := hreads { snapshot := some kept }
    (.inr ⟨⟨kept, 1⟩, hheld ▸ List.mem_singleton_self _, Nat.one_pos, rfl⟩)
  obtain ⟨halike, hopens⟩ := hlogs (by decide) rfl 1 {}
  obtain ⟨reopened, hreopened⟩ := hopens rfl fun h => h
  have hsplit : split.database.last = 5 := by decide +kernel
  have hget : split.database.get { snapshot := some kept } [97] = .ok (some [49]) := by
    decide +kernel
  refine ⟨by decide +kernel, hsplit, hlast.symm.trans hsplit, hget, ?_,
    (hreads {} (.inl rfl)).cursor, reopened, hreopened, ?_⟩
  · rw [← hsnapshot.get]
    exact hget
  · rw [← hreopened]
    exact halike

end Session

end BatchStore
