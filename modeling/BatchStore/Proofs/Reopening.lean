import BatchStore.Proofs.Logging
import BatchStore.Proofs.Refinement

/-!
# Reopening the log of a session

While a session runs on a reliable device its log consists of intact frames, and
replaying them gives the recovered map followed by the records of the writes
that were logged. A live commit prunes up to the horizon of its snapshots and a
replay up to the highest number found, so the tables differ; what their latest
readers find does not.
-/

namespace BatchStore

open LogDevice (Reliable)

namespace Frame

/-- A frame appended to a whole log is the last one of it. -/
theorem ofLog_append_encode {bytes payload : Bytes} (h : Whole bytes) (hfits : Fits payload) :
    ofLog (bytes ++ encode payload) = ofLog bytes ++ [⟨bytes.length, payload⟩] := by
  unfold ofLog
  rw [(h.parse_append (encode payload)).1, (parse_encode hfits).1, place_append, Nat.zero_add,
    ← h.eq]
  rfl

/-- The log that recovery keeps has the same frames and no tail. -/
theorem ofLog_encodeAll_payloads (bytes : Bytes) :
    ofLog (encodeAll (payloads bytes)) = ofLog bytes ∧ Whole (encodeAll (payloads bytes)) := by
  constructor
  · unfold ofLog
    rw [payloads_encodeAll fun _ => fits_of_mem]
  · exact whole_encodeAll fun _ => fits_of_mem

end Frame

namespace Database

/-- The verdict on a whole log is that on its frames. -/
theorem replayed_eq_foldlM {bytes : Bytes} (h : Frame.Whole bytes) (paranoid : Bool) :
    replayed paranoid bytes =
      (Frame.ofLog bytes).foldlM (replayFrame paranoid) (VersionTable.empty, 0) := by
  have htail : Frame.tail bytes = [] := h
  unfold replayed Frame.verdict Frame.ofLog
  rw [htail]
  cases (Frame.place 0 (Frame.payloads bytes)).foldlM (replayFrame paranoid)
    (VersionTable.empty, 0) <;> rfl

theorem replayed_whole {paranoid : Bool} {bytes : Bytes} (h : Frame.Whole bytes)
    {result : Replayed}
    (hreplay : (Frame.ofLog bytes).foldlM (replayFrame paranoid) (VersionTable.empty, 0) =
      .ok result) : replayed paranoid bytes = .ok result :=
  (replayed_eq_foldlM h paranoid).trans hreplay

/-- A batch under the next number brings a replay that is behind level, unless it has
no mutations. -/
theorem last_replayBatch_of_le {state : Replayed} {db : Database} {batch : DecodedBatch}
    (hle : state.2 ≤ db.last) (h : db.Follows batch)
    (hcount : VersionTable.FitsCount batch.records) :
    (replayBatch state batch).2 =
      if 0 < VersionTable.mutations batch.records then (db.applyBatch batch).2.last
      else state.2 := by
  rw [last_applyBatch h hcount]
  unfold Follows at h
  split
  · next hsome =>
    rw [replayBatch_eq state hcount hsome]
    simp only
    omega
  · next hnone => rw [replayBatch_eq_self state (Nat.eq_zero_of_not_pos hnone)]

/-- A replay that is not ahead of the live database stays behind it when both take
a batch in, and level with it when it was. -/
theorem replayBatch_last {state : Replayed} {db : Database} {batch : DecodedBatch}
    (hle : state.2 ≤ db.last) (h : db.Follows batch)
    (hcount : VersionTable.FitsCount batch.records) :
    (replayBatch state batch).2 ≤ (db.applyBatch batch).2.last ∧
      (state.2 = db.last → (replayBatch state batch).2 = (db.applyBatch batch).2.last) := by
  have hlast := last_applyBatch h hcount
  rw [last_replayBatch_of_le hle h hcount]
  split <;> omega

end Database

namespace Session

variable {δ : Type} {holds : δ → Bytes → Prop} {paranoid : Bool}

/-- The log of the session holds these bytes, all of them intact frames, and
replaying them gives this state. -/
structure Journals (holds : δ → Bytes → Prop) (paranoid : Bool) (session : Session δ)
    (bytes : Bytes) (state : Database.Replayed) : Prop where
  log : holds session.log bytes
  whole : Frame.Whole bytes
  replay : (Frame.ofLog bytes).foldlM (Database.replayFrame paranoid) (VersionTable.empty, 0) =
    .ok state
  le : state.2 ≤ session.database.last

theorem Journals.consistent {session : Session δ} {bytes : Bytes} {state : Database.Replayed}
    (h : session.Journals holds paranoid bytes state) : Database.Consistent state :=
  Database.consistent_replay Database.consistent_empty (fun _ => Frame.fits_of_mem_ofLog) h.replay

/-- Nothing has come into the log. -/
theorem Journals.mono {session next : Session δ} {bytes : Bytes} {state : Database.Replayed}
    (h : session.Journals holds paranoid bytes state) (hlog : holds next.log bytes)
    (hle : session.database.last ≤ next.database.last) :
    next.Journals holds paranoid bytes state :=
  ⟨hlog, h.whole, h.replay, Nat.le_trans h.le hle⟩

/-- A frame that holds a batch has come into the log. -/
theorem Journals.append {session next : Session δ} {bytes payload : Bytes}
    {state : Database.Replayed} {batch : DecodedBatch}
    (h : session.Journals holds paranoid bytes state) (hfits : Frame.Fits payload)
    (hdecode : DecodedBatch.ofBytes payload = .ok batch)
    (hlog : holds next.log (bytes ++ Frame.encode payload))
    (hle : (Database.replayBatch state batch).2 ≤ next.database.last) :
    next.Journals holds paranoid (bytes ++ Frame.encode payload)
      (Database.replayBatch state batch) where
  log := hlog
  whole := h.whole.append_encode hfits
  replay := by
    rw [Frame.ofLog_append_encode h.whole hfits, List.foldlM_append, h.replay]
    show List.foldlM (Database.replayFrame paranoid) state [_] = .ok _
    rw [List.foldlM_cons, Database.replayFrame_decoded hdecode]
    rfl
  le := hle

section Opening

variable [LogDevice δ]

/-- Recovery begins a session with a log of the frames that it kept. -/
theorem journals_recovered (hreliable : Reliable holds) {id : Nat} {settings : Settings}
    {directory : Option Directory} {log opened : δ} {image : Bytes} {db : Database}
    (hlog : holds log image)
    (hopened : Database.recover id settings directory log = (.ok db, opened)) :
    ∃ result, db = Database.restored id settings directory result ∧
      (start db opened).Journals holds settings.paranoidChecks
        (Frame.encodeAll (Frame.payloads image)) result := by
  obtain ⟨hkept, result, hresult, rfl⟩ := Database.recovered_ok hreliable hlog hopened
  obtain ⟨hframes, hwhole⟩ := Frame.ofLog_encodeAll_payloads image
  refine ⟨result, rfl, hkept, hwhole, ?_, Nat.le_refl _⟩
  rw [hframes]
  exact (Frame.verdict_ok hresult).1

theorem journals_start (hreliable : Reliable holds) {id : Nat} {settings : Settings}
    {log opened : δ} {image : Bytes} {db : Database} (hlog : holds log image)
    (hopened : Database.openLog id settings log = (.ok db, opened)) :
    ∃ result, db = Database.restored id settings none result ∧
      (start db opened).Journals holds settings.paranoidChecks
        (Frame.encodeAll (Frame.payloads image)) result := by
  have hvalid := (Database.of_openLog hreliable hlog hopened).1
  rw [Database.openLog_valid hvalid] at hopened
  exact journals_recovered hreliable hlog hopened

/-- Opening the log of a session restores what its frames give and cuts nothing
off. -/
theorem Journals.opens (hreliable : Reliable holds) {session : Session δ} {bytes : Bytes}
    {state : Database.Replayed} (h : session.Journals holds paranoid bytes state)
    {settings : Settings} (hvalid : settings.fault? = none)
    (hmode : settings.paranoidChecks = paranoid) (id : Nat) :
    Database.Opens id settings session.log (Database.restored id settings none state)
        (Frame.ofLog bytes) 0 ∧
      holds (Database.openLog id settings session.log).2 bytes := by
  subst hmode
  have htail : Frame.tail bytes = [] := h.whole
  have hreplayed := Database.replayed_whole h.whole h.replay
  have hopens := Database.opens_of_replayed hreliable h.log hvalid hreplayed id
  rw [htail] at hopens
  obtain ⟨after, hafter, hopen⟩ := Database.openLog_ok hreliable h.log hvalid hreplayed id
  rw [← h.whole.eq] at hafter
  rw [hopen]
  exact ⟨hopens, hafter⟩

end Opening

/-- The log after a step or a run: what replaying it gives, and when the latest
number comes back too. -/
structure Advances (holds : δ → Bytes → Prop) (paranoid : Bool) (session next : Session δ)
    (state : Database.Replayed) (records : List Record) (complete : Prop) (bytes : Bytes)
    (state' : Database.Replayed) : Prop where
  journals : next.Journals holds paranoid bytes state'
  view : Database.view state' = (Database.view state).applyAll records
  last : complete → state.2 = session.database.last → state'.2 = next.database.last

variable [LogDevice δ]

theorem logged_write (session : Session δ) (settings : WriteSettings) (batch : Batch) :
    (session.write settings batch).1.logged =
      match (session.database.write session.log settings batch).result with
      | .ok _ => if settings.disableLog then [] else batch.records
      | .error _ => [] := rfl

theorem advances_write (hreliable : Reliable holds) {session : Session δ} {bytes : Bytes}
    {state : Database.Replayed} (h : session.Journals holds paranoid bytes state)
    (hfits : session.database.last + 1 < UInt64.size) (settings : WriteSettings) (batch : Batch) :
    ∃ bytes' state', Advances holds paranoid session (session.write settings batch).2 state
      (session.write settings batch).1.logged
      (∀ call, (session.write settings batch).1 = .wrote call → call.Succeeds →
        call.settings.disableLog = false) bytes' state' := by
  have houtcome := Database.write_outcome session.database session.log settings batch
  have hsucceeds : (⟨session.database, session.log, settings, batch⟩ : WriteCall δ).Succeeds ↔
      ∃ first, (session.database.write session.log settings batch).result = .ok first := Iff.rfl
  have hnext : (session.write settings batch).2 =
      { session with
        database := (session.database.write session.log settings batch).database
        log := (session.database.write session.log settings batch).log } := rfl
  rw [logged_write, hnext]
  generalize session.database.write session.log settings batch = written at houtcome hsucceeds ⊢
  cases houtcome with
  | closed hopen => exact ⟨bytes, state, h.mono h.log (Nat.le_refl _), rfl, fun _ heq => heq⟩
  | empty hopen hempty =>
    refine ⟨bytes, state, h.mono h.log (Nat.le_refl _), ?_, fun _ heq => heq⟩
    simp only [Batch.records_eq_nil hempty, ite_self]
    rfl
  | refused hopen hempty hdecode =>
    exact ⟨bytes, state, h.mono h.log (Nat.le_refl _), rfl, fun _ heq => heq⟩
  | unlogged hopen hempty hdecode hlog =>
    rcases Database.logBatch_reliable hreliable h.log hlog with
      ⟨-, hok, -⟩ | ⟨-, hok, -⟩ | ⟨-, -, hafter⟩
    · cases hok
    · cases hok
    · exact ⟨bytes, state, h.mono hafter (Nat.le_refl _), rfl, fun _ heq => heq⟩
  | committed hopen hempty hdecode hlog =>
    obtain ⟨hfollows, hrecords⟩ := Database.follows_of_decoded hfits hdecode
    rcases Database.logBatch_reliable hreliable h.log hlog with
      ⟨hdisable, -, hafter⟩ | ⟨hdisable, -, hroom, hafter⟩ | ⟨-, herror, -⟩
    · -- applied but not logged: the replay stays behind
      refine ⟨bytes, state, h.mono hafter (Database.last_le_applyBatch hfollows), ?_, ?_⟩
      · simp only [hdisable, if_true]
        rfl
      · intro hcomplete
        have henabled := hcomplete _ rfl (hsucceeds.mpr ⟨_, rfl⟩)
        simp only [hdisable] at henabled
        cases henabled
    · have hcount := Database.fitsCount_of_decoded hroom hdecode
      obtain ⟨hbehind, hlevel⟩ := Database.replayBatch_last h.le hfollows hcount
      refine ⟨_, _, h.append hroom hdecode hafter hbehind, ?_, fun _ => hlevel⟩
      rw [Database.view_replayBatch h.consistent hcount, hrecords]
      simp only [hdisable, Bool.false_eq_true, if_false]
    · cases herror

theorem advances_step (hreliable : Reliable holds) {session : Session δ} {bytes : Bytes}
    {state : Database.Replayed} (h : session.Journals holds paranoid bytes state)
    (hfits : session.database.last + 1 < UInt64.size) (action : Action) :
    ∃ bytes' state', Advances holds paranoid session (session.step action).2 state
      (session.step action).1.logged
      (∀ call, (session.step action).1 = .wrote call → call.Succeeds →
        call.settings.disableLog = false) bytes' state' := by
  rcases session.step_cases action with ⟨settings, batch, hwrite⟩ | ⟨hnone, hrests⟩
  · rw [hwrite]
    exact advances_write hreliable h hfits settings batch
  · obtain ⟨after, hsync, hafter⟩ := hreliable.sync h.log
    have hlog : holds (session.step action).2.log bytes := by
      rcases hrests.log with hsame | hsame
      · rw [hsame]
        exact h.log
      · rw [hsame, hsync]
        exact hafter
    rw [Event.logged_eq_nil hnone]
    exact ⟨bytes, state, h.mono hlog (Nat.le_of_eq hrests.last.symm), rfl,
      fun _ heq => heq.trans hrests.last.symm⟩

theorem advances_run (hreliable : Reliable holds) {session : Session δ} {bytes : Bytes}
    {state : Database.Replayed} (actions : List Action)
    (h : session.Journals holds paranoid bytes state) (hnumbered : session.Numbered actions) :
    ∃ bytes' state', Advances holds paranoid session (session.run actions).2 state
      ((session.run actions).1.flatMap Event.logged)
      (∀ call ∈ Event.writes (session.run actions).1, call.Succeeds →
        call.settings.disableLog = false) bytes' state' := by
  induction actions generalizing session bytes state with
  | nil => exact ⟨bytes, state, h, rfl, fun _ heq => heq⟩
  | cons action actions ih =>
    obtain ⟨hfits, hnumbered⟩ := hnumbered
    obtain ⟨bytes', state', hstep⟩ := advances_step hreliable h hfits action
    obtain ⟨bytes'', state'', hrun⟩ := ih hstep.journals hnumbered
    refine ⟨bytes'', state'', hrun.journals, ?_, ?_⟩
    · rw [hrun.view, hstep.view, ← Contents.applyAll_append]
      rfl
    · intro hcomplete heq
      refine hrun.last (fun call hmem => hcomplete call ?_) (hstep.last (fun call hwrote => ?_) heq)
      · exact Event.mem_writes.mpr (List.mem_cons_of_mem _ (Event.mem_writes.mp hmem))
      · exact hcomplete call (Event.mem_writes.mpr (hwrote ▸ List.mem_cons_self))

/-- When every success is logged, the reference holds the records of the log. -/
theorem latest_observeAll {events : List (Event δ)} (reference : Reference)
    (hcomplete : ∀ call ∈ Event.writes events, call.Succeeds → call.settings.disableLog = false) :
    (reference.observeAll events).latest =
      reference.latest.applyAll (events.flatMap Event.logged) := by
  induction events generalizing reference with
  | nil => rfl
  | cons event events ih =>
    have hrest : ∀ call ∈ Event.writes events, call.Succeeds →
        call.settings.disableLog = false := by
      intro call hmem
      exact hcomplete call
        (Event.mem_writes.mpr (List.mem_cons_of_mem _ (Event.mem_writes.mp hmem)))
    have hone : (reference.observe event).latest = reference.latest.applyAll event.logged := by
      cases event with
      | wrote call =>
        have hcall := hcomplete call (Event.mem_writes.mpr List.mem_cons_self)
        unfold Reference.observe Event.logged
        cases hresult : call.written.result with
        | ok first => simp only [hresult, hcall ⟨first, hresult⟩, Bool.false_eq_true, if_false]
        | error error => simp only [hresult, Contents.applyAll_nil]
      | tookSnapshot result => cases result <;> rfl
      | sharedSnapshot number => rfl
      | droppedSnapshot number => rfl
      | closed result => rfl
    rw [List.flatMap_cons, Contents.applyAll_append, ← hone]
    exact ih (reference.observe event) hrest

theorem settings_run (session : Session δ) (actions : List Action) :
    (session.run actions).2.database.settings = session.database.settings := by
  induction actions generalizing session with
  | nil => rfl
  | cons action actions ih => exact (ih _).trans (session.fixed_step action).1

/-- Reopening the log of a session, in the same mode and at any point, cuts
nothing off and gives what was recovered at its start, followed by the records
of the writes that were logged. When no success was left out of the log, reads
and the latest number come back as they were. -/
theorem reopening_reproduces {id again : Nat} {settings later : Settings} {log opened : δ}
    {image : Bytes} {db : Database} {actions : List Action} {events : List (Event δ)}
    {session : Session δ} (hreliable : Reliable holds) (hlog : holds log image)
    (hopened : Database.openLog id settings log = (.ok db, opened))
    (hnumbered : (start db opened).Numbered actions)
    (hrun : (start db opened).run actions = (events, session))
    (hvalid : later.fault? = none) (hmode : later.paranoidChecks = settings.paranoidChecks) :
    ∃ (reopened : Database) (frames : List Frame),
      Database.Opens again later session.log reopened frames 0 ∧
      (∃ bytes, holds session.log bytes ∧ holds (Database.openLog again later session.log).2 bytes) ∧
      (∀ reading : ReadSettings, reading.snapshot = none →
        reopened.Answers reading
          ((db.contentsAt db.last).applyAll (events.flatMap Event.logged))) ∧
      reopened.last ≤ session.database.last ∧
      ((∀ call ∈ Event.writes events, call.Succeeds → call.settings.disableLog = false) →
        reopened.last = session.database.last ∧
        (session.database.isOpen = true → later.keyOrder = settings.keyOrder →
          ∀ reading : ReadSettings, reading.snapshot = none →
            reopened.get reading = session.database.get reading ∧
            reopened.cursor reading = session.database.cursor reading)) := by
  obtain ⟨result, rfl, hjournals⟩ := journals_start hreliable hlog hopened
  have hconsistent := hjournals.consistent
  obtain ⟨bytes, state, hadvances⟩ := advances_run hreliable actions hjournals hnumbered
  have hstart := refines_restored hconsistent id settings none opened
  have hsettings := settings_run (start (Database.restored id settings none result) opened) actions
  rw [hrun] at hadvances hsettings
  have hend := hadvances.journals
  obtain ⟨hopens, hafter⟩ := hend.opens hreliable hvalid hmode again
  have hordered : (Database.restored again later none state).table.Ordered :=
    hend.consistent.ordered
  refine ⟨Database.restored again later none state, Frame.ofLog bytes, hopens,
    ⟨bytes, hend.log, hafter⟩, ?_, hend.le, fun hcomplete => ⟨hadvances.last hcomplete rfl, ?_⟩⟩
  · intro reading hnone
    show Database.Answers _ reading ((Database.view result).applyAll _)
    rw [← hadvances.view]
    exact Database.answers_of_sequence hordered (Database.readSequence_latest rfl hnone)
  · intro hopen horder reading hnone
    have hrefines := refines_run actions hstart hnumbered (unloggedFit_of_logged (by rwa [hrun]))
    rw [hrun] at hrefines
    have hsame : Database.view state = session.database.contentsAt session.database.last := by
      rw [hadvances.view, hrefines.latest, latest_observeAll _ hcomplete]
    have hlive := Database.readSequence_latest hopen hnone
    have hagain : (Database.restored again later none state).readSequence reading =
        .ok state.2 := Database.readSequence_latest rfl hnone
    have hkeys : later.keyOrder = session.database.settings.keyOrder := by
      rw [horder, hsettings]
      rfl
    exact Database.reads_congr hordered hrefines.sound.ordered hagain hlive hsame hkeys

/-- A torn tail is cut off at first; then come a batch with a longer length than
it needs, one of log data alone, and a snapshot that holds the pruning back. -/
theorem reopening_reproduces_adopted :
    let kept := Frame.encode ((Batch.empty.setSequence 5).put [97] [49]).data
    let db := Database.restored 0 {} none (⟨[([97], [⟨5, some [49]⟩])], 2⟩, 5)
    let actions : List Action := [.takeSnapshot, .write {} ⟨⟨0, 1⟩, [1, 129, 0, 98, 1, 50]⟩,
      .delete { sync := true } [97], .write {} (Batch.empty.logData [7]), .merge {} [99] [51]]
    let session := ((start db (⟨kept⟩ : MemoryLog)).run actions).2
    Database.openLog 0 {} (⟨kept ++ [9, 9]⟩ : MemoryLog) = (.ok db, ⟨kept⟩) ∧
      ∃ (reopened : Database) (frames : List Frame),
        Database.Opens 1 {} session.log reopened frames 0 ∧ reopened.last = 8 ∧
        reopened.get {} = session.database.get {} ∧ reopened.get {} [97] = .ok none ∧
        reopened.get {} [98] = .ok (some [50]) := by
  intro kept db actions session
  have hopened : Database.openLog 0 {} (⟨kept ++ [9, 9]⟩ : MemoryLog) = (.ok db, ⟨kept⟩) := by
    have hlog : (⟨kept ++ [9, 9]⟩ : MemoryLog).bytes = kept ++ [9, 9] := rfl
    have hvalid : ({} : Settings).fault? = none := rfl
    have hreplayed : Database.replayed ({} : Settings).paranoidChecks (kept ++ [9, 9]) =
        .ok (⟨[([97], [⟨5, some [49]⟩])], 2⟩, 5) := by decide +kernel
    have hframes : Frame.encodeAll (Frame.payloads (kept ++ [9, 9])) = kept := by decide +kernel
    obtain ⟨after, hafter, hopen⟩ :=
      Database.openLog_ok MemoryLog.reliable hlog hvalid hreplayed 0
    rw [hframes] at hafter
    rw [hopen, ← hafter]
  have hrun : (start db (⟨kept⟩ : MemoryLog)).run actions =
      (((start db (⟨kept⟩ : MemoryLog)).run actions).1, session) := rfl
  obtain ⟨reopened, frames, hopens, -, hanswers, -, hcomplete⟩ :=
    reopening_reproduces MemoryLog.reliable rfl hopened (by decide +kernel) hrun rfl rfl
  have hlogged : ∀ call ∈ Event.writes ((start db (⟨kept⟩ : MemoryLog)).run actions).1,
      call.settings.disableLog = false := by decide +kernel
  obtain ⟨hlast, hreads⟩ := hcomplete fun call hmem _ => hlogged call hmem
  refine ⟨hopened, reopened, frames, hopens, ?_, ?_, ?_, ?_⟩
  · rw [hlast]
    decide +kernel
  · exact (hreads (by decide +kernel) rfl {} rfl).1
  · rw [(hanswers {} rfl).get [97]]
    decide +kernel
  · rw [(hanswers {} rfl).get [98]]
    decide +kernel

end Session

end BatchStore
