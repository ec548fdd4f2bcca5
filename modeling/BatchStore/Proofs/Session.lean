import BatchStore.Proofs.Write

/-!
# Sessions

A session is the use of one opened database: writes, the life of snapshots,
and closing, in any order. Each action answers with an event, so that a run
yields the list of what its callers were told.
-/

namespace BatchStore

structure Session (δ : Type) where
  database : Database
  log : δ
  /-- The snapshots taken so far; one without holders has been dropped. -/
  held : List HeldSnapshot

/-- What the user of a database can do. Snapshots are known by number. -/
inductive Action where
  | write (settings : WriteSettings) (batch : Batch)
  | put (settings : WriteSettings) (key value : Bytes)
  | delete (settings : WriteSettings) (key : Bytes)
  | merge (settings : WriteSettings) (key operand : Bytes)
  | takeSnapshot
  | shareSnapshot (number : Nat)
  | dropSnapshot (number : Nat)
  | close

/-- A call of `write` and the state that it found. -/
structure WriteCall (δ : Type) where
  database : Database
  log : δ
  settings : WriteSettings
  batch : Batch

inductive Event (δ : Type) where
  | wrote (call : WriteCall δ)
  | tookSnapshot (result : Except StoreError Snapshot)
  | sharedSnapshot (number : Nat)
  | droppedSnapshot (number : Nat)
  | closed (result : Except StoreError Unit)

namespace WriteCall

variable {δ : Type} [LogDevice δ]

/-- What the call leaves behind. -/
def written (call : WriteCall δ) : Database.Written δ :=
  call.database.write call.log call.settings call.batch

/-- The bytes that the call logs: those of the batch under its number. -/
def payload (call : WriteCall δ) : Bytes := (call.database.number call.batch).data

def Succeeds (call : WriteCall δ) : Prop := ∃ first, call.written.result = .ok first

def Fails (call : WriteCall δ) : Prop := ∃ error, call.written.result = .error error

/-- The call succeeds and has put a frame into the log. -/
def IsLogged (call : WriteCall δ) : Prop :=
  call.Succeeds ∧ call.settings.disableLog = false ∧ call.batch.isEmpty = false

end WriteCall

namespace Session

variable {δ : Type} [LogDevice δ]

/-- The use of a database begins. -/
def start (database : Database) (log : δ) : Session δ := ⟨database, log, []⟩

def write (session : Session δ) (settings : WriteSettings) (batch : Batch) :
    Event δ × Session δ :=
  let written := session.database.write session.log settings batch
  (.wrote ⟨session.database, session.log, settings, batch⟩,
    { session with database := written.database, log := written.log })

def takeSnapshot (session : Session δ) : Event δ × Session δ :=
  match session.database.takeSnapshot with
  | (.error error, database) => (.tookSnapshot (.error error), { session with database })
  | (.ok snapshot, database) =>
    (.tookSnapshot (.ok snapshot),
      { session with database, held := session.held ++ [⟨snapshot, 1⟩] })

/-- Takes a holder from a snapshot, and gives it up with its last one. -/
def dropSnapshot (session : Session δ) (number : Nat) : Session δ :=
  match session.held[number]? with
  | none => session
  | some held =>
    { session with
      database :=
        if held.holders = 1 then session.database.releaseSnapshot held.snapshot
        else session.database
      held := session.held.modify number HeldSnapshot.leave }

def close (session : Session δ) : Event δ × Session δ :=
  let (result, database, log) := session.database.close session.log
  (.closed result, { session with database, log })

def step (session : Session δ) : Action → Event δ × Session δ
  | .write settings batch => session.write settings batch
  | .put settings key value => session.write settings (Batch.empty.put key value)
  | .delete settings key => session.write settings (Batch.empty.delete key)
  | .merge settings key operand => session.write settings (Batch.empty.merge key operand)
  | .takeSnapshot => session.takeSnapshot
  | .shareSnapshot number =>
    (.sharedSnapshot number,
      { session with held := session.held.modify number HeldSnapshot.share })
  | .dropSnapshot number => (.droppedSnapshot number, session.dropSnapshot number)
  | .close => session.close

def run (session : Session δ) : List Action → List (Event δ) × Session δ
  | [] => ([], session)
  | action :: actions =>
    let (event, next) := session.step action
    let (events, last) := next.run actions
    (event :: events, last)

/-- In every state that an action meets there is a next sequence number. -/
def Numbered (session : Session δ) : List Action → Prop
  | [] => True
  | action :: actions =>
    session.database.last + 1 < UInt64.size ∧ (session.step action).2.Numbered actions

instance decidableNumbered (session : Session δ) :
    (actions : List Action) → Decidable (session.Numbered actions)
  | [] => .isTrue trivial
  | action :: actions =>
    have := decidableNumbered (session.step action).2 actions
    inferInstanceAs (Decidable (_ ∧ _))

theorem numbered_append {session : Session δ} {earlier later : List Action} :
    session.Numbered (earlier ++ later) ↔
      session.Numbered earlier ∧ (session.run earlier).2.Numbered later := by
  induction earlier generalizing session with
  | nil => simp [Numbered, run]
  | cons action earlier ih => simp only [List.cons_append, Numbered, run, ih, and_assoc]

end Session

/-- The writes among the events. -/
def Event.writes {δ : Type} (events : List (Event δ)) : List (WriteCall δ) :=
  events.filterMap fun
    | .wrote call => some call
    | _ => none

theorem Event.mem_writes {δ : Type} {events : List (Event δ)} {call : WriteCall δ} :
    call ∈ Event.writes events ↔ .wrote call ∈ events := by
  unfold Event.writes
  rw [List.mem_filterMap]
  constructor
  · rintro ⟨event, hevent, hcall⟩
    cases event with
    | wrote found =>
      obtain rfl := Option.some.inj hcall
      exact hevent
    | _ => cases hcall
  · intro h
    exact ⟨_, h, rfl⟩

/-- The records that an event has put into the log for good: those of a write
that succeeded and was not left out of the log. -/
def Event.logged {δ : Type} [LogDevice δ] : Event δ → List Record
  | .wrote call =>
    match call.written.result with
    | .ok _ => if call.settings.disableLog then [] else call.batch.records
    | .error _ => []
  | .tookSnapshot _ | .sharedSnapshot _ | .droppedSnapshot _ | .closed _ => []

namespace Database

theorem takeSnapshot_open {db : Database} (h : db.isOpen = true) :
    db.takeSnapshot =
      (.ok ⟨db.id, db.last⟩, { db with snapshots := db.snapshots.acquire db.last }) := by
  unfold takeSnapshot
  rw [h]
  rfl

theorem takeSnapshot_closed {db : Database} (h : db.isOpen = false) :
    db.takeSnapshot = (.error .closed, db) := by
  unfold takeSnapshot
  rw [h]
  rfl

/-- Closing changes nothing of the database but whether it is open, and nothing
of the log but that it may have been made durable. -/
theorem close_effect {δ : Type} [LogDevice δ] (db : Database) (log : δ) :
    ∃ isOpen, (db.close log).2.1 = { db with isOpen } ∧
      ((db.close log).2.2 = log ∨ (db.close log).2.2 = (LogDevice.sync log).2) := by
  unfold close Journal.sync
  cases hopen : db.isOpen with
  | false => exact ⟨db.isOpen, rfl, .inl rfl⟩
  | true =>
    rcases hsync : LogDevice.sync log with ⟨result, after⟩
    cases result with
    | ok done => exact ⟨false, rfl, .inr rfl⟩
    | error error => exact ⟨db.isOpen, rfl, .inr rfl⟩

end Database

namespace Session

variable {δ : Type} [LogDevice δ]

/-- Nothing is committed or logged; the log may have been made durable. -/
structure Rests (session next : Session δ) : Prop where
  last : next.database.last = session.database.last
  settings : next.database.settings = session.database.settings
  id : next.database.id = session.database.id
  log : next.log = session.log ∨ next.log = (LogDevice.sync session.log).2

theorem rests_takeSnapshot (session : Session δ) : session.Rests session.takeSnapshot.2 := by
  unfold takeSnapshot
  cases hopen : session.database.isOpen with
  | true =>
    rw [Database.takeSnapshot_open hopen]
    exact ⟨rfl, rfl, rfl, .inl rfl⟩
  | false =>
    rw [Database.takeSnapshot_closed hopen]
    exact ⟨rfl, rfl, rfl, .inl rfl⟩

theorem rests_dropSnapshot (session : Session δ) (number : Nat) :
    session.Rests (session.dropSnapshot number) := by
  unfold dropSnapshot
  cases session.held[number]? with
  | none => exact ⟨rfl, rfl, rfl, .inl rfl⟩
  | some held =>
    by_cases hlast : held.holders = 1
    · simp only [if_pos hlast]
      exact ⟨rfl, rfl, rfl, .inl rfl⟩
    · simp only [if_neg hlast]
      exact ⟨rfl, rfl, rfl, .inl rfl⟩

theorem rests_close (session : Session δ) : session.Rests session.close.2 := by
  obtain ⟨isOpen, hdatabase, hlog⟩ := session.database.close_effect session.log
  refine ⟨?_, ?_, ?_, hlog⟩
  · show (session.database.close session.log).2.1.last = _
    rw [hdatabase]
  · show (session.database.close session.log).2.1.settings = _
    rw [hdatabase]
  · show (session.database.close session.log).2.1.id = _
    rw [hdatabase]

/-- A step is a write, or it writes nothing. -/
theorem step_cases (session : Session δ) (action : Action) :
    (∃ settings batch, session.step action = session.write settings batch) ∨
      (∀ call, (session.step action).1 ≠ .wrote call) ∧
        session.Rests (session.step action).2 := by
  cases action with
  | write settings batch => exact .inl ⟨settings, batch, rfl⟩
  | put settings key value => exact .inl ⟨settings, _, rfl⟩
  | delete settings key => exact .inl ⟨settings, _, rfl⟩
  | merge settings key operand => exact .inl ⟨settings, _, rfl⟩
  | takeSnapshot =>
    refine .inr ⟨fun call => ?_, session.rests_takeSnapshot⟩
    unfold step takeSnapshot
    rcases session.database.takeSnapshot with ⟨result, database⟩
    cases result <;> exact fun h => nomatch h
  | shareSnapshot number =>
    refine .inr ⟨fun call h => ?_, rfl, rfl, rfl, .inl rfl⟩
    cases h
  | dropSnapshot number =>
    refine .inr ⟨fun call h => ?_, session.rests_dropSnapshot number⟩
    cases h
  | close =>
    refine .inr ⟨fun call h => ?_, session.rests_close⟩
    cases h

/-- A database keeps its settings and its identity. -/
theorem fixed_step (session : Session δ) (action : Action) :
    (session.step action).2.database.settings = session.database.settings ∧
      (session.step action).2.database.id = session.database.id := by
  rcases session.step_cases action with ⟨settings, batch, hwrite⟩ | ⟨-, hrests⟩
  · have houtcome := Database.write_outcome session.database session.log settings batch
    rw [hwrite, write]
    generalize session.database.write session.log settings batch = written at houtcome ⊢
    cases houtcome <;> exact ⟨rfl, rfl⟩
  · exact ⟨hrests.settings, hrests.id⟩

end Session

theorem Event.logged_eq_nil {δ : Type} [LogDevice δ] {event : Event δ}
    (h : ∀ call, event ≠ .wrote call) : event.logged = [] := by
  cases event with
  | wrote call => exact absurd rfl (h call)
  | _ => rfl

end BatchStore
