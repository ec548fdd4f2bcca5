import BatchStore.Host
import BatchStore.Proofs.FailedWrites

/-!
# Closing

Closing a database makes its log durable and ends all use of it, or it fails and
changes nothing but what the failed call has done to the device. A closed database
refuses every call and makes none on a device, whatever is done with it; of the
snapshots it can only forget some. Which device a session has does not matter while the
calls that sessions make get the same answers.
-/

namespace BatchStore

/-- The two outcomes give the same answer and leave states that belong together. -/
def Agree {α δ ε : Type} (same : δ → ε → Prop) (first : α × δ) (second : α × ε) : Prop :=
  first.1 = second.1 ∧ same first.2 second.2

theorem Agree.eq {α δ ε : Type} {same : δ → ε → Prop} {first : α × δ} {second : α × ε}
    (h : Agree same first second) :
    ∃ answer after behind, first = (answer, after) ∧ second = (answer, behind) ∧
      same after behind :=
  ⟨first.1, first.2, second.2, rfl, Prod.ext h.1.symm rfl, h.2⟩

/-- The calls that a session makes on its log do not tell the states apart that belong
together. -/
structure LogDevice.InStep {δ ε : Type} [LogDevice δ] [LogDevice ε] (same : δ → ε → Prop) :
    Prop where
  append : ∀ {first second}, same first second → ∀ data,
    Agree same (LogDevice.append first data) (LogDevice.append second data)
  flush : ∀ {first second}, same first second →
    Agree same (LogDevice.flush first) (LogDevice.flush second)
  sync : ∀ {first second}, same first second →
    Agree same (LogDevice.sync first) (LogDevice.sync second)

section InStep

variable {δ ε : Type} {same : δ → ε → Prop}

theorem Journal.lift_agree {α : Type} {first : Except DeviceError α × δ}
    {second : Except DeviceError α × ε} (h : Agree same first second) :
    Agree same (lift first) (lift second) := by
  obtain ⟨result, after, behind, rfl, rfl, hsame⟩ := h.eq
  cases result with
  | ok value => exact ⟨rfl, hsame⟩
  | error fault => exact ⟨rfl, hsame⟩

variable [LogDevice δ] [LogDevice ε] (h : LogDevice.InStep same) {first : δ} {second : ε}
  (hsame : same first second)

include h hsame

theorem Journal.append_agree (payload : Bytes) (durable : Bool) :
    Agree same (append first payload durable) (append second payload durable) := by
  by_cases hfits : Frame.Fits payload
  · obtain ⟨result, after, behind, hfirst, hsecond, hafter⟩ :=
      (h.append hsame (Frame.encode payload)).eq
    have hsettle : Agree same (if durable then sync after else flush after)
        (if durable then sync behind else flush behind) := by
      cases durable with
      | true => exact lift_agree (h.sync hafter)
      | false => exact lift_agree (h.flush hafter)
    obtain ⟨settled, last, final, hone, htwo, hend⟩ := hsettle.eq
    have hroom : payload.length < UInt32.size := hfits
    unfold append
    simp only [if_pos hroom, hfirst, hsecond]
    cases result with
    | error fault => exact ⟨rfl, hafter⟩
    | ok offset =>
      simp only [hone, htwo]
      cases settled with
      | ok done => exact ⟨rfl, hend⟩
      | error error => exact ⟨rfl, hend⟩
  · rw [append_large hfits, append_large hfits]
    exact ⟨rfl, hsame⟩

theorem Database.logBatch_agree (settings : WriteSettings) (payload : Bytes) :
    Agree same (logBatch settings first payload) (logBatch settings second payload) := by
  obtain ⟨result, after, behind, hfirst, hsecond, hafter⟩ :=
    (Journal.append_agree h hsame payload settings.sync).eq
  unfold logBatch
  simp only [hfirst, hsecond]
  cases settings.disableLog with
  | true => exact ⟨rfl, hsame⟩
  | false =>
    cases result with
    | ok offset => exact ⟨rfl, hafter⟩
    | error error => exact ⟨rfl, hafter⟩

theorem Database.commit_agree (db : Database) (settings : WriteSettings) (batch : Batch) :
    Agree (Agree same) (db.commit first settings batch) (db.commit second settings batch) := by
  obtain ⟨result, after, behind, hfirst, hsecond, hafter⟩ :=
    (logBatch_agree h hsame settings batch.data).eq
  unfold commit
  simp only [hfirst, hsecond]
  cases DecodedBatch.ofBytes batch.data with
  | error fault => exact ⟨rfl, rfl, hsame⟩
  | ok decoded =>
    cases result with
    | ok done => exact ⟨rfl, rfl, hafter⟩
    | error error => exact ⟨rfl, rfl, hafter⟩

/-- A write leaves the same behind on either device. -/
theorem Database.write_agree (db : Database) (settings : WriteSettings) (batch : Batch) :
    (db.write first settings batch).result = (db.write second settings batch).result ∧
      (db.write first settings batch).batch = (db.write second settings batch).batch ∧
      (db.write first settings batch).database = (db.write second settings batch).database ∧
      same (db.write first settings batch).log (db.write second settings batch).log := by
  obtain ⟨result, ⟨database, after⟩, ⟨other, behind⟩, hfirst, hsecond, rfl, hafter⟩ :=
    (commit_agree h hsame db settings (db.number batch)).eq
  unfold number at hfirst hsecond
  unfold write
  simp only [hfirst, hsecond]
  cases db.isOpen with
  | false => exact ⟨rfl, rfl, rfl, hsame⟩
  | true =>
    cases batch.isEmpty with
    | true => exact ⟨rfl, rfl, rfl, hsame⟩
    | false =>
      cases result with
      | ok number => exact ⟨rfl, rfl, rfl, hafter⟩
      | error error => exact ⟨rfl, rfl, rfl, hafter⟩

theorem Database.close_agree (db : Database) :
    Agree (Agree same) (db.close first) (db.close second) := by
  obtain ⟨result, after, behind, hfirst, hsecond, hafter⟩ :=
    (Journal.lift_agree (h.sync hsame)).eq
  unfold close Journal.sync
  simp only [hfirst, hsecond]
  cases db.isOpen with
  | false => exact ⟨rfl, rfl, hsame⟩
  | true =>
    cases result with
    | ok done => exact ⟨rfl, rfl, hafter⟩
    | error error => exact ⟨rfl, rfl, hafter⟩

end InStep

namespace Monitored

variable {δ : Type}

/-- The devices and their planned faults are the same, whatever calls were recorded. -/
def SamePlan (first second : Monitored δ) : Prop :=
  first.device = second.device ∧ first.faults = second.faults

theorem SamePlan.record {first second : Monitored δ} (h : first.SamePlan second) (call : LogCall) :
    (first.record call).SamePlan (second.record call) := h

theorem SamePlan.strike {first second : Monitored δ} (h : first.SamePlan second)
    (operation : LogOperation) :
    Agree SamePlan (first.strike operation) (second.strike operation) := by
  unfold Monitored.strike
  rw [h.2]
  cases second.faults.find? (·.operation = operation) with
  | none => exact ⟨rfl, h⟩
  | some fault =>
    simp only
    split
    · exact ⟨rfl, h.1, rfl⟩
    · exact ⟨rfl, h.1, rfl⟩

theorem SamePlan.call {α : Type} {first second : Monitored δ} (h : first.SamePlan second)
    (operation : LogOperation) (act : δ → Except DeviceError α × δ) :
    Agree SamePlan (first.call operation act) (second.call operation act) := by
  obtain ⟨fault, after, behind, hfirst, hsecond, hafter⟩ := (h.strike operation).eq
  unfold Monitored.call
  rw [hfirst, hsecond]
  cases fault with
  | some fault => exact ⟨rfl, hafter⟩
  | none =>
    simp only [hafter.1]
    exact ⟨rfl, rfl, hafter.2⟩

/-- What has been recorded does not matter. -/
theorem inStep [LogDevice δ] : LogDevice.InStep (SamePlan : Monitored δ → Monitored δ → Prop) where
  append := by
    intro first second h data
    obtain ⟨fault, after, behind, hfirst, hsecond, hafter⟩ :=
      ((h.record (.append data.length)).strike .append).eq
    show Agree SamePlan ((first.record (.append data.length)).append data)
      ((second.record (.append data.length)).append data)
    unfold append
    rw [hfirst, hsecond]
    cases fault with
    | some fault =>
      simp only [hafter.1]
      exact ⟨rfl, rfl, hafter.2⟩
    | none =>
      simp only [hafter.1]
      exact ⟨rfl, rfl, hafter.2⟩
  flush := fun h => (h.record .flush).call .flush LogDevice.flush
  sync := fun h => (h.record .sync).call .sync LogDevice.sync

end Monitored

/-- What the caller of an action is told. -/
inductive Reply where
  | wrote (result : Except StoreError Nat) (batch : Batch)
  | tookSnapshot (result : Except StoreError Snapshot)
  | sharedSnapshot (number : Nat)
  | droppedSnapshot (number : Nat)
  | closed (result : Except StoreError Unit)

def Event.reply {δ : Type} [LogDevice δ] : Event δ → Reply
  | .wrote call => .wrote call.written.result call.written.batch
  | .tookSnapshot result => .tookSnapshot result
  | .sharedSnapshot number => .sharedSnapshot number
  | .droppedSnapshot number => .droppedSnapshot number
  | .closed result => .closed result

namespace Session

/-- The sessions differ in their devices alone, and these belong together. -/
structure InStep {δ ε : Type} (same : δ → ε → Prop) (first : Session δ) (second : Session ε) :
    Prop where
  database : first.database = second.database
  held : first.held = second.held
  log : same first.log second.log

section InStep

variable {δ ε : Type} [LogDevice δ] [LogDevice ε] {same : δ → ε → Prop} {first : Session δ}
  {second : Session ε}

theorem inStep_write (hdevice : LogDevice.InStep same) (h : first.InStep same second)
    (settings : WriteSettings) (batch : Batch) :
    (first.write settings batch).1.reply = (second.write settings batch).1.reply ∧
      (first.write settings batch).2.InStep same (second.write settings batch).2 := by
  obtain ⟨database, log, held⟩ := first
  obtain ⟨rfl, rfl, hlog⟩ := h
  obtain ⟨hresult, hbatch, hdatabase, hafter⟩ :=
    Database.write_agree hdevice hlog second.database settings batch
  exact ⟨congrArg₂ Reply.wrote hresult hbatch, hdatabase, rfl, hafter⟩

theorem inStep_step (hdevice : LogDevice.InStep same) (h : first.InStep same second)
    (action : Action) :
    (first.step action).1.reply = (second.step action).1.reply ∧
      (first.step action).2.InStep same (second.step action).2 := by
  cases action with
  | write settings batch => exact inStep_write hdevice h settings batch
  | put settings key value => exact inStep_write hdevice h settings _
  | delete settings key => exact inStep_write hdevice h settings _
  | merge settings key operand => exact inStep_write hdevice h settings _
  | takeSnapshot =>
    unfold step takeSnapshot
    rw [h.database, h.held]
    rcases second.database.takeSnapshot with ⟨result, database⟩
    cases result with
    | error error => exact ⟨rfl, rfl, rfl, h.log⟩
    | ok snapshot => exact ⟨rfl, rfl, rfl, h.log⟩
  | shareSnapshot number =>
    exact ⟨rfl, h.database, congrArg (List.modify · number HeldSnapshot.share) h.held, h.log⟩
  | dropSnapshot number =>
    refine ⟨rfl, ?_⟩
    show (first.dropSnapshot number).InStep same (second.dropSnapshot number)
    unfold dropSnapshot
    rw [h.database, h.held]
    cases second.held[number]? with
    | none => exact h
    | some held => exact ⟨rfl, rfl, h.log⟩
  | close =>
    obtain ⟨result, ⟨database, after⟩, ⟨other, behind⟩, hfirst, hsecond, rfl, hafter⟩ :=
      (Database.close_agree hdevice h.log first.database).eq
    rw [h.database] at hsecond
    unfold step close
    rw [hfirst, hsecond]
    exact ⟨rfl, rfl, h.held, hafter⟩

theorem inStep_run (hdevice : LogDevice.InStep same) (h : first.InStep same second)
    (actions : List Action) :
    (first.run actions).1.map Event.reply = (second.run actions).1.map Event.reply ∧
      (first.run actions).2.InStep same (second.run actions).2 := by
  induction actions generalizing first second with
  | nil => exact ⟨rfl, h⟩
  | cons action actions ih =>
    obtain ⟨hreply, hnext⟩ := inStep_step hdevice h action
    obtain ⟨hreplies, hend⟩ := ih hnext
    exact ⟨congrArg₂ List.cons hreply hreplies, hend⟩

end InStep

end Session

namespace Database

variable {δ : Type} [LogDevice δ]

/-- Closing again does nothing; else it is the syncing of the log that decides. -/
theorem close_cases (db : Database) (log : δ) :
    (db.isOpen = false ∧ db.close log = (.ok (), db, log)) ∨
    (db.isOpen = true ∧ (LogDevice.sync log).1 = .ok () ∧
      db.close log = (.ok (), { db with isOpen := false }, (LogDevice.sync log).2)) ∨
    (db.isOpen = true ∧ ∃ fault, (LogDevice.sync log).1 = .error fault ∧
      db.close log = (.error (.device fault), db, (LogDevice.sync log).2)) := by
  unfold close Journal.sync
  cases hopen : db.isOpen with
  | false => exact .inl ⟨rfl, rfl⟩
  | true =>
    rcases hsync : LogDevice.sync log with ⟨result, after⟩
    cases result with
    | ok done => exact .inr (.inl ⟨rfl, rfl, rfl⟩)
    | error fault => exact .inr (.inr ⟨rfl, fault, rfl, rfl⟩)

theorem close_closed {db : Database} (h : db.isOpen = false) (log : δ) :
    db.close log = (.ok (), db, log) := by
  unfold close
  rw [h]
  rfl

/-- Every call is refused, and none is made on a device, whatever device that is. To
give the database up makes no call either. -/
structure Refuses (db : Database) : Prop where
  write : ∀ {ε : Type} [LogDevice ε] (device : ε) (settings : WriteSettings) (batch : Batch),
    db.write device settings batch = ⟨.error .closed, batch, db, device⟩
  put : ∀ {ε : Type} [LogDevice ε] (device : ε) (settings : WriteSettings) (key value : Bytes),
    db.put device settings key value = ⟨.error .closed, Batch.empty.put key value, db, device⟩
  delete : ∀ {ε : Type} [LogDevice ε] (device : ε) (settings : WriteSettings) (key : Bytes),
    db.delete device settings key = ⟨.error .closed, Batch.empty.delete key, db, device⟩
  merge : ∀ {ε : Type} [LogDevice ε] (device : ε) (settings : WriteSettings) (key operand : Bytes),
    db.merge device settings key operand =
      ⟨.error .closed, Batch.empty.merge key operand, db, device⟩
  get : ∀ reading key, db.get reading key = .error .closed
  cursor : ∀ reading, db.cursor reading = .error .closed
  takeSnapshot : db.takeSnapshot = (.error .closed, db)
  close : ∀ {ε : Type} [LogDevice ε] (device : ε), db.close device = (.ok (), db, device)
  drop : ∀ (host : Host) (number log : Nat), host.databases[number]?.join = some ⟨db, log⟩ →
    (host.drop number).logs = host.logs ∧
      ∃ locked, (host.drop number).files = { host.files with locked }

end Database

/-- The device comes back unchanged when nothing is done with it. -/
theorem Host.setLog_log (host : Host) (number : Nat) :
    host.setLog number (host.log number) = host := by
  unfold setLog log
  congr 1
  by_cases hnumber : number < host.logs.length
  · rw [List.getD_eq_getElem?_getD, List.getElem?_eq_getElem hnumber]
    exact List.set_getElem_self hnumber
  · exact List.set_eq_of_length_le (Nat.not_lt.mp hnumber)

theorem Host.drop_closed {host : Host} {number log : Nat} {db : Database}
    (h : host.databases[number]?.join = some ⟨db, log⟩) (hclosed : db.isOpen = false) :
    (host.drop number).logs = host.logs ∧
      ∃ locked, (host.drop number).files = { host.files with locked } := by
  have hclose : host.close number = (.ok (), host.setDatabase number db) := by
    unfold close
    simp only [h, Database.close_closed hclosed]
    show ((.ok () : Except StoreError Unit),
      (host.setLog log (host.log log)).setDatabase number db) = _
    rw [setLog_log]
  unfold drop
  rw [hclose]
  refine ⟨rfl, ?_⟩
  simp only
  cases (host.database? number).bind (·.directory) with
  | some directory => exact ⟨_, rfl⟩
  | none => exact ⟨_, rfl⟩

namespace Database

theorem refuses {db : Database} (h : db.isOpen = false) : db.Refuses where
  write := fun device settings batch => write_closed h device settings batch
  put := fun device settings key value => write_closed h device settings _
  delete := fun device settings key => write_closed h device settings _
  merge := fun device settings key operand => write_closed h device settings _
  get := fun reading key => by simp [get, readSequence, h, Except.map]
  cursor := fun reading => by simp [cursor, readSequence, h, Except.map]
  takeSnapshot := takeSnapshot_closed h
  close := fun device => close_closed h device
  drop := fun host number log hhosted => Host.drop_closed hhosted h

end Database

/-- What the caller of the action is told once the database is closed. -/
def Action.refusal : Action → Reply
  | .write _ batch => .wrote (.error .closed) batch
  | .put _ key value => .wrote (.error .closed) (Batch.empty.put key value)
  | .delete _ key => .wrote (.error .closed) (Batch.empty.delete key)
  | .merge _ key operand => .wrote (.error .closed) (Batch.empty.merge key operand)
  | .takeSnapshot => .tookSnapshot (.error .closed)
  | .shareSnapshot number => .sharedSnapshot number
  | .dropSnapshot number => .droppedSnapshot number
  | .close => .closed (.ok ())

namespace Session

variable {δ : Type}

/-- Nothing has changed but the snapshots that the session knows. -/
def Ended (session final : Session δ) : Prop :=
  ∃ snapshots held, final =
    ⟨{ session.database with snapshots }, session.log, held⟩

theorem Ended.refl (session : Session δ) : session.Ended session :=
  ⟨session.database.snapshots, session.held, rfl⟩

theorem Ended.trans {session middle final : Session δ} (h : session.Ended middle)
    (h' : middle.Ended final) : session.Ended final := by
  obtain ⟨_, _, rfl⟩ := h
  obtain ⟨snapshots, held, rfl⟩ := h'
  exact ⟨snapshots, held, rfl⟩

variable [LogDevice δ]

theorem closed_write {session : Session δ} (h : session.database.isOpen = false)
    (settings : WriteSettings) (batch : Batch) :
    (session.write settings batch).1.reply = .wrote (.error .closed) batch ∧
      (session.write settings batch).2 = session := by
  have hwrite := Database.write_closed h session.log settings batch
  refine ⟨?_, ?_⟩
  · show Reply.wrote (session.database.write session.log settings batch).result
      (session.database.write session.log settings batch).batch = _
    rw [hwrite]
  · unfold write
    rw [hwrite]

theorem closed_step {session : Session δ} (h : session.database.isOpen = false)
    (action : Action) :
    (session.step action).1.reply = action.refusal ∧ session.Ended (session.step action).2 := by
  have hwrite (settings : WriteSettings) (batch : Batch) :
      (session.write settings batch).1.reply = .wrote (.error .closed) batch ∧
        session.Ended (session.write settings batch).2 := by
    obtain ⟨hreply, hsame⟩ := closed_write h settings batch
    rw [hsame]
    exact ⟨hreply, .refl session⟩
  cases action with
  | write settings batch => exact hwrite settings batch
  | put settings key value => exact hwrite settings _
  | delete settings key => exact hwrite settings _
  | merge settings key operand => exact hwrite settings _
  | takeSnapshot =>
    unfold step takeSnapshot
    rw [Database.takeSnapshot_closed h]
    exact ⟨rfl, .refl session⟩
  | shareSnapshot number => exact ⟨rfl, session.database.snapshots, _, rfl⟩
  | dropSnapshot number =>
    refine ⟨rfl, ?_⟩
    show session.Ended (session.dropSnapshot number)
    unfold dropSnapshot
    cases session.held[number]? with
    | none => exact .refl session
    | some held =>
      simp only
      split
      · exact ⟨_, _, rfl⟩
      · exact ⟨session.database.snapshots, _, rfl⟩
  | close =>
    unfold step close
    rw [Database.close_closed h]
    exact ⟨rfl, .refl session⟩

theorem closed_run {session : Session δ} (h : session.database.isOpen = false)
    (actions : List Action) :
    (session.run actions).1.map Event.reply = actions.map Action.refusal ∧
      session.Ended (session.run actions).2 := by
  induction actions generalizing session with
  | nil => exact ⟨rfl, .refl session⟩
  | cons action actions ih =>
    obtain ⟨hreply, hnext⟩ := closed_step h action
    have hclosed : (session.step action).2.database.isOpen = false := by
      obtain ⟨snapshots, held, hstep⟩ := hnext
      rw [hstep]
      exact h
    obtain ⟨hreplies, hend⟩ := ih hclosed
    exact ⟨congrArg₂ List.cons hreply hreplies, hnext.trans hend⟩

/-- Whatever is done then, every call is refused, none reaches the device, and the
counters stay. -/
structure Over (session : Session δ) : Prop where
  replies : ∀ actions, (session.run actions).1.map Event.reply = actions.map Action.refusal
  refuses : ∀ actions, (session.run actions).2.database.Refuses
  log : ∀ actions, (session.run actions).2.log = session.log
  last : ∀ actions, (session.run actions).2.database.last = session.database.last
  memoryUsage : ∀ actions,
    (session.run actions).2.database.memoryUsage = session.database.memoryUsage

theorem over_of_closed {session : Session δ} (h : session.database.isOpen = false) :
    session.Over where
  replies := fun actions => (closed_run h actions).1
  refuses := by
    intro actions
    obtain ⟨-, snapshots, held, hrun⟩ := closed_run h actions
    rw [hrun]
    exact Database.refuses h
  log := by
    intro actions
    obtain ⟨-, snapshots, held, hrun⟩ := closed_run h actions
    rw [hrun]
  last := by
    intro actions
    obtain ⟨-, snapshots, held, hrun⟩ := closed_run h actions
    rw [hrun]
  memoryUsage := by
    intro actions
    obtain ⟨-, snapshots, held, hrun⟩ := closed_run h actions
    rw [hrun]
    rfl

/-- Whatever the state of the database and its device: a close that fails has tried to
make the log durable and leaves the database open and as it was, so that over any device
that answers like the one left a run goes on as if there had been no close. After a
close that succeeds all is over. -/
theorem closing_is_final_or_undone (session : Session δ) :
    (∀ error, session.close.1.reply = .closed (.error error) →
      session.close.2 = { session with log := (LogDevice.sync session.log).2 } ∧
      session.database.isOpen = true ∧
      (∃ fault, (LogDevice.sync session.log).1 = .error fault ∧ error = .device fault) ∧
      ∀ {ε : Type} [LogDevice ε] {same : ε → δ → Prop}, LogDevice.InStep same →
        ∀ other : Session ε, other.InStep same { session with log := session.close.2.log } →
        ∀ actions,
          (other.run actions).1.map Event.reply =
            (session.close.2.run actions).1.map Event.reply ∧
          (other.run actions).2.InStep same (session.close.2.run actions).2) ∧
    (session.close.1.reply = .closed (.ok ()) →
      session.close.2.Over ∧
        session.close.2.database = { session.database with isOpen := false }) := by
  have hreply : session.close.1.reply = .closed (session.database.close session.log).1 := rfl
  have hafter : session.close.2 = ⟨(session.database.close session.log).2.1,
    (session.database.close session.log).2.2, session.held⟩ := rfl
  rcases session.database.close_cases session.log with
    ⟨hopen, hclose⟩ | ⟨hopen, hsync, hclose⟩ | ⟨hopen, fault, hsync, hclose⟩
  · rw [hclose] at hreply hafter
    rw [hreply, hafter]
    refine ⟨fun error h => (nomatch h), fun _ => ⟨over_of_closed hopen, ?_⟩⟩
    rw [← hopen]
  · rw [hclose] at hreply hafter
    rw [hreply, hafter]
    exact ⟨fun error h => (nomatch h), fun _ => ⟨over_of_closed rfl, rfl⟩⟩
  · rw [hclose] at hreply hafter
    rw [hreply, hafter]
    refine ⟨fun error h => ?_, fun h => (nomatch h)⟩
    obtain rfl : StoreError.device fault = error := by injection h with h; injection h
    exact ⟨rfl, hopen, ⟨fault, hsync, rfl⟩, fun hdevice other hother actions =>
      inStep_run hdevice hother actions⟩

/-- The first close fails, and a durable write after it is told what it would be told
without: its number is 2. The second close succeeds; then a write is refused, and to the
device the third close is nothing. -/
theorem closing_is_final_after_failure :
    let log := (Monitored.ofDevice MemoryLog.empty).plan ⟨.sync, 0, 0⟩
    let db := Database.restored 0 {} none (VersionTable.empty, 0)
    let session := ((start db log).run [.put {} [97] [49], .takeSnapshot]).2
    let failed := session.close.2
    let other : Session (Monitored MemoryLog) :=
      { session with log := { session.log with faults := [] } }
    let later : List Action := [.delete { sync := true } [97], .dropSnapshot 0]
    let closed := (failed.run later).2.close.2
    let refused := closed.run [.write {} ((Batch.empty.put [98] [50]).setSequence 7), .close]
    (failed.database.isOpen = true ∧
      (other.run later).1.map Event.reply = (failed.run later).1.map Event.reply ∧
      (failed.run later).2.database.last = 2) ∧
    refused.1.map Event.reply =
        [.wrote (.error .closed) ((Batch.empty.put [98] [50]).setSequence 7), .closed (.ok ())] ∧
      refused.2.log.calls = [.append 25, .flush, .sync, .append 23, .sync, .sync] ∧
      refused.2.database.last = 2 := by
  intro log db session failed other later closed refused
  have hfails : session.close.1.reply = .closed (.error (.device (Monitored.injected .sync))) :=
    congrArg Reply.closed (by decide +kernel)
  have hcloses : (failed.run later).2.close.1.reply = .closed (.ok ()) :=
    congrArg Reply.closed (by decide +kernel)
  obtain ⟨hafter, hopen, -, hundone⟩ := (closing_is_final_or_undone session).1 _ hfails
  obtain ⟨hover, -⟩ := (closing_is_final_or_undone (failed.run later).2).2 hcloses
  have hother : other.InStep Monitored.SamePlan { session with log := failed.log } :=
    ⟨rfl, rfl, by decide +kernel, by decide +kernel⟩
  have hstays : failed.database.isOpen = true := (congrArg (·.database.isOpen) hafter).trans hopen
  refine ⟨⟨hstays, (hundone Monitored.inStep other hother later).1, by decide +kernel⟩,
    hover.replies _, ?_, ?_⟩
  · rw [hover.log]
    decide +kernel
  · rw [hover.last]
    decide +kernel

end Session

end BatchStore
