import BatchStore.Proofs.Durability

/-!
# Logged calls

A write puts a frame into the log when it is acknowledged and logged. On a
reliable device, or when no device call has failed in it, any other write puts
nothing there. So the log of a run grows by the frames of the logged calls, one
behind the other.
-/

namespace BatchStore

open LogDevice (Reliable Appending)

namespace Journal

theorem lift_error {δ α : Type} {outcome : Except DeviceError α × δ} {error : StoreError} {after : δ}
    (h : lift outcome = (.error error, after)) : ∃ fault, error = .device fault := by
  obtain ⟨result, log⟩ := outcome
  cases result with
  | ok value => cases (Prod.mk.inj h).1
  | error fault => exact ⟨fault, (Except.error.inj (Prod.mk.inj h).1).symm⟩

variable {δ : Type} [LogDevice δ]

/-- An append fails by an error of the device, or before any call when the payload
has no room in a frame. -/
theorem append_error_cases {log after : δ} {payload : Bytes} {durable : Bool} {error : StoreError}
    (h : append log payload durable = (.error error, after)) :
    (∃ fault, error = .device fault) ∨
      (error = .invalidArgument .frameTooLarge ∧ after = log) := by
  by_cases hfits : Frame.Fits payload
  · left
    unfold append at h
    rw [if_pos (show payload.length < UInt32.size from hfits)] at h
    rcases happend : LogDevice.append log (Frame.encode payload) with ⟨result, log'⟩
    rw [happend] at h
    cases result with
    | error fault => exact ⟨fault, (Except.error.inj (Prod.mk.inj h).1).symm⟩
    | ok offset =>
      simp only at h
      split at h
      · next hsettle =>
        obtain rfl := Except.error.inj (Prod.mk.inj h).1
        cases durable with
        | true => exact lift_error hsettle
        | false => exact lift_error hsettle
      · cases (Prod.mk.inj h).1
  · right
    rw [append_large hfits] at h
    obtain ⟨herror, hlog⟩ := Prod.mk.inj h
    exact ⟨(Except.error.inj herror).symm, hlog.symm⟩

theorem fits_of_append {log after : δ} {payload : Bytes} {durable : Bool} {offset : Nat}
    (h : append log payload durable = (.ok offset, after)) : Frame.Fits payload := by
  by_contra hlarge
  rw [append_large hlarge] at h
  cases (Prod.mk.inj h).1

end Journal

theorem Database.logBatch_cases {δ : Type} [LogDevice δ] {settings : WriteSettings} {log after : δ}
    {payload : Bytes} {result : Except StoreError Unit}
    (h : logBatch settings log payload = (result, after)) :
    (settings.disableLog = true ∧ result = .ok () ∧ after = log) ∨
    (settings.disableLog = false ∧ result = .ok () ∧
      ∃ offset, Journal.append log payload settings.sync = (.ok offset, after)) ∨
    (settings.disableLog = false ∧ ∃ error, result = .error error ∧
      Journal.append log payload settings.sync = (.error error, after)) := by
  unfold logBatch at h
  cases hdisable : settings.disableLog with
  | true =>
    simp only [hdisable, if_true] at h
    obtain ⟨rfl, rfl⟩ := Prod.mk.inj h
    exact .inl ⟨rfl, rfl, rfl⟩
  | false =>
    rcases happend : Journal.append log payload settings.sync with ⟨outcome, log'⟩
    simp only [hdisable, happend, Bool.false_eq_true, if_false] at h
    cases outcome with
    | ok offset =>
      obtain ⟨rfl, rfl⟩ := Prod.mk.inj h
      exact .inr (.inl ⟨rfl, rfl, offset, rfl⟩)
    | error error =>
      obtain ⟨rfl, rfl⟩ := Prod.mk.inj h
      exact .inr (.inr ⟨rfl, error, rfl, rfl⟩)

namespace WriteCall

variable {δ : Type} [LogDevice δ]

/-- No device call has failed in the write. -/
def Faultless (call : WriteCall δ) : Prop :=
  ∀ fault, call.written.result ≠ .error (.device fault)

theorem Succeeds.faultless {call : WriteCall δ} (h : call.Succeeds) : call.Faultless :=
  fun _ hfailed => not_fails h ⟨_, hfailed⟩

/-- The batch of the call as a reader of its frame finds it. -/
def decoded (call : WriteCall δ) : DecodedBatch := ⟨call.database.last + 1, call.batch.records⟩

/-- All that a call can do to the log: it is logged by an append, it makes no
append, or its append fails. -/
theorem log_cases (call : WriteCall δ) :
    (call.IsLogged ∧ ∃ decoded offset, DecodedBatch.ofBytes call.payload = .ok decoded ∧
      Journal.append call.log call.payload call.settings.sync = (.ok offset, call.written.log)) ∨
    (¬call.IsLogged ∧ call.written.log = call.log) ∨
    (¬call.IsLogged ∧ ∃ error, call.written.result = .error error ∧
      Journal.append call.log call.payload call.settings.sync =
        (.error error, call.written.log)) := by
  have houtcome := Database.write_outcome call.database call.log call.settings call.batch
  unfold IsLogged Succeeds written
  generalize call.database.write call.log call.settings call.batch = written at houtcome ⊢
  cases houtcome with
  | closed hopen => exact .inr (.inl ⟨fun hlogged => (nomatch hlogged.1), rfl⟩)
  | empty hopen hempty =>
    refine .inr (.inl ⟨?_, rfl⟩)
    rintro ⟨-, -, hfull⟩
    rw [hempty] at hfull
    cases hfull
  | refused hopen hempty hdecode => exact .inr (.inl ⟨fun hlogged => (nomatch hlogged.1), rfl⟩)
  | unlogged hopen hempty hdecode hlog =>
    rcases Database.logBatch_cases hlog with
      ⟨-, hok, -⟩ | ⟨-, hok, -⟩ | ⟨-, error, herror, happend⟩
    · cases hok
    · cases hok
    · obtain rfl := Except.error.inj herror
      exact .inr (.inr ⟨fun hlogged => (nomatch hlogged.1), _, rfl, happend⟩)
  | committed hopen hempty hdecode hlog =>
    rcases Database.logBatch_cases hlog with
      ⟨hdisable, -, hsame⟩ | ⟨henabled, -, offset, happend⟩ | ⟨-, error, herror, -⟩
    · refine .inr (.inl ⟨?_, hsame⟩)
      rintro ⟨-, henabled, -⟩
      rw [hdisable] at henabled
      cases henabled
    · exact .inl ⟨⟨⟨_, rfl⟩, henabled, hempty⟩, _, offset, hdecode, happend⟩
    · cases herror

theorem IsLogged.appended {call : WriteCall δ} (h : call.IsLogged) :
    ∃ decoded offset, DecodedBatch.ofBytes call.payload = .ok decoded ∧
      Journal.append call.log call.payload call.settings.sync = (.ok offset, call.written.log) := by
  rcases call.log_cases with ⟨-, happended⟩ | ⟨hunlogged, -⟩ | ⟨hunlogged, -⟩
  · exact happended
  · exact absurd h hunlogged
  · exact absurd h hunlogged

theorem IsLogged.fits {call : WriteCall δ} (h : call.IsLogged) : Frame.Fits call.payload := by
  obtain ⟨decoded, offset, -, happend⟩ := h.appended
  exact Journal.fits_of_append happend

theorem IsLogged.decodes {call : WriteCall δ} (h : call.IsLogged)
    (hnumber : call.database.last + 1 < UInt64.size) :
    DecodedBatch.ofBytes call.payload = .ok call.decoded := by
  obtain ⟨⟨first, records⟩, offset, hdecode, -⟩ := h.appended
  obtain ⟨hfollows, hrecords⟩ := Database.follows_of_decoded hnumber hdecode
  rw [hdecode]
  exact congrArg Except.ok (congrArg₂ DecodedBatch.mk hfollows hrecords)

/-- A success that is left out of the log has no more mutations than a batch counts. -/
def UnloggedFits (call : WriteCall δ) : Prop :=
  call.Succeeds → call.settings.disableLog = true → VersionTable.FitsCount call.batch.records

instance (call : WriteCall δ) : Decidable call.UnloggedFits :=
  inferInstanceAs (Decidable (_ → _ → _))

/-- Neither has one that is logged: its batch has room in a frame. -/
theorem UnloggedFits.fitsCount {call : WriteCall δ} (h : call.UnloggedFits)
    (hsucceeds : call.Succeeds) : VersionTable.FitsCount call.batch.records := by
  cases hdisable : call.settings.disableLog with
  | true => exact h hsucceeds hdisable
  | false =>
    cases hempty : call.batch.isEmpty with
    | true =>
      rw [Batch.records_eq_nil hempty]
      decide
    | false =>
      have hlogged : call.IsLogged := ⟨hsucceeds, hdisable, hempty⟩
      obtain ⟨decoded, -, hdecode, -⟩ := hlogged.appended
      have hcount := Database.fitsCount_of_decoded hlogged.fits hdecode
      rw [DecodedBatch.ofBytes_setSequence hdecode] at hcount
      exact hcount

/-- The call adds its frame to the log when it is logged, and nothing when not. -/
def Stores (holds : δ → Bytes → Prop) (call : WriteCall δ) : Prop :=
  ∀ {bytes}, holds call.log bytes →
    holds call.written.log (bytes ++ if call.IsLogged then Frame.encode call.payload else [])

theorem stores_of_reliable {holds : δ → Bytes → Prop} (hreliable : Reliable holds)
    (call : WriteCall δ) : call.Stores holds := by
  intro bytes hlog
  rcases call.log_cases with
    ⟨hlogged, decoded, offset, -, happend⟩ | ⟨hunlogged, hsame⟩ | ⟨hunlogged, error, -, happend⟩
  · obtain ⟨after, hreliably, hafter⟩ :=
      Journal.append_reliable hreliable hlog hlogged.fits call.settings.sync
    rw [happend] at hreliably
    rw [if_pos hlogged, (Prod.mk.inj hreliably).2]
    exact hafter
  · rw [if_neg hunlogged, List.append_nil, hsame]
    exact hlog
  · -- a reliable device refuses nothing but what has no room in a frame
    rw [if_neg hunlogged, List.append_nil]
    by_cases hfits : Frame.Fits call.payload
    · obtain ⟨after, hreliably, -⟩ :=
        Journal.append_reliable hreliable hlog hfits call.settings.sync
      rw [happend] at hreliably
      cases (Prod.mk.inj hreliably).1
    · rw [Journal.append_large hfits] at happend
      rw [← (Prod.mk.inj happend).2]
      exact hlog

theorem stores_of_faultless {bytes : δ → Bytes} (happending : Appending bytes) {call : WriteCall δ}
    (h : call.Faultless) : call.Stores fun log held => bytes log = held := by
  rintro _ rfl
  rcases call.log_cases with
    ⟨hlogged, -⟩ | ⟨hunlogged, hsame⟩ | ⟨hunlogged, error, hfailed, happend⟩
  · rw [if_pos hlogged]
    exact (hlogged.stored happending).2
  · rw [if_neg hunlogged, List.append_nil, hsame]
  · rw [if_neg hunlogged, List.append_nil]
    rcases Journal.append_error_cases happend with ⟨fault, rfl⟩ | ⟨-, hsame⟩
    · exact absurd hfailed (h fault)
    · rw [hsame]

end WriteCall

namespace Event

variable {δ : Type} [LogDevice δ]

/-- The calls that were acknowledged and logged, in order. -/
def loggedCalls (events : List (Event δ)) : List (WriteCall δ) :=
  (writes events).filter fun call => call.IsLogged

theorem loggedCalls_cons (event : Event δ) (events : List (Event δ)) :
    loggedCalls (event :: events) = loggedCalls [event] ++ loggedCalls events := by
  unfold loggedCalls writes
  rw [← List.filter_append, ← List.filterMap_append, List.singleton_append]

theorem loggedCalls_wrote (call : WriteCall δ) :
    loggedCalls [.wrote call] = if call.IsLogged then [call] else [] := by
  show [call].filter _ = _
  simp only [List.filter_cons, List.filter_nil, decide_eq_true_eq]

theorem loggedCalls_of_not_wrote {event : Event δ} (h : ∀ call, event ≠ .wrote call) :
    loggedCalls [event] = [] := by
  cases event with
  | wrote call => exact absurd rfl (h call)
  | _ => rfl

theorem mem_loggedCalls {events : List (Event δ)} {call : WriteCall δ} :
    call ∈ loggedCalls events ↔ call ∈ writes events ∧ call.IsLogged := by
  unfold loggedCalls
  rw [List.mem_filter, decide_eq_true_eq]

end Event

namespace Session

open Event (loggedCalls loggedCalls_cons loggedCalls_wrote loggedCalls_of_not_wrote mem_loggedCalls)

variable {δ : Type} [LogDevice δ]

/-- A write is called on the state that its step finds, and leaves its log to
the next; any other step at most makes the log durable. -/
theorem step_log_cases (session : Session δ) (action : Action) :
    (∃ call, (session.step action).1 = .wrote call ∧ call.database = session.database ∧
      call.log = session.log ∧ (session.step action).2.log = call.written.log) ∨
    (∀ call, (session.step action).1 ≠ .wrote call) ∧
      ((session.step action).2.log = session.log ∨
        (session.step action).2.log = (LogDevice.sync session.log).2) := by
  rcases session.step_cases action with ⟨settings, batch, hwrite⟩ | ⟨hnone, hrests⟩
  · rw [hwrite]
    exact .inl ⟨_, rfl, rfl, rfl, rfl⟩
  · exact .inr ⟨hnone, hrests.log⟩

theorem forall_writes_cons {session : Session δ} {action : Action} {actions : List Action}
    {p : WriteCall δ → Prop} :
    (∀ call ∈ Event.writes (session.run (action :: actions)).1, p call) ↔
      (∀ call, (session.step action).1 = .wrote call → p call) ∧
        ∀ call ∈ Event.writes ((session.step action).2.run actions).1, p call := by
  constructor
  · intro h
    refine ⟨fun call hwrote => ?_, fun call hmem => ?_⟩
    · exact h call (Event.mem_writes.mpr (hwrote ▸ List.mem_cons_self))
    · exact h call (Event.mem_writes.mpr (List.mem_cons_of_mem _ (Event.mem_writes.mp hmem)))
  · rintro ⟨hfirst, hrest⟩ call hmem
    rcases List.mem_cons.mp (Event.mem_writes.mp hmem) with hwrote | hlater
    · exact hfirst call hwrote.symm
    · exact hrest call (Event.mem_writes.mpr hlater)

/-- No success that a run leaves out of the log has more mutations than a batch counts. -/
def UnloggedFit (session : Session δ) (actions : List Action) : Prop :=
  ∀ call ∈ Event.writes (session.run actions).1, call.UnloggedFits

instance (session : Session δ) (actions : List Action) : Decidable (session.UnloggedFit actions) :=
  inferInstanceAs (Decidable (∀ call ∈ _, _))

theorem unloggedFit_cons {session : Session δ} {action : Action} {actions : List Action} :
    session.UnloggedFit (action :: actions) ↔
      (∀ call, (session.step action).1 = .wrote call → call.UnloggedFits) ∧
        (session.step action).2.UnloggedFit actions := forall_writes_cons

/-- Where every success is logged nothing is left out. -/
theorem unloggedFit_of_logged {session : Session δ} {actions : List Action}
    (h : ∀ call ∈ Event.writes (session.run actions).1, call.Succeeds →
      call.settings.disableLog = false) : session.UnloggedFit actions := by
  intro call hmem hsucceeds hdisable
  rw [h call hmem hsucceeds] at hdisable
  cases hdisable

theorem loggedCalls_run_cons (session : Session δ) (action : Action) (actions : List Action) :
    loggedCalls (session.run (action :: actions)).1 = loggedCalls [(session.step action).1] ++
      loggedCalls ((session.step action).2.run actions).1 := loggedCalls_cons _ _

section Stored

variable (holds : δ → Bytes → Prop)
  (hsync : ∀ {log bytes}, holds log bytes → holds (LogDevice.sync log).2 bytes)
include hsync

/-- A step adds the frame of one logged call to the log, or nothing. -/
theorem holds_step {session : Session δ} {bytes : Bytes} (action : Action)
    (hlog : holds session.log bytes)
    (hstores : ∀ call, (session.step action).1 = .wrote call → call.Stores holds) :
    (∃ call, loggedCalls [(session.step action).1] = [call] ∧ call.log = session.log ∧
      holds (session.step action).2.log (bytes ++ Frame.encode call.payload)) ∨
    (loggedCalls [(session.step action).1] = [] ∧ holds (session.step action).2.log bytes) := by
  rcases session.step_log_cases action with ⟨call, hwrote, -, hfound, hleft⟩ | ⟨hnone, hsame⟩
  · have hstored := hstores call hwrote (hfound.symm ▸ hlog)
    rw [hwrote, hleft, loggedCalls_wrote]
    by_cases hlogged : call.IsLogged
    · rw [if_pos hlogged] at hstored ⊢
      exact .inl ⟨call, rfl, hfound, hstored⟩
    · rw [if_neg hlogged, List.append_nil] at hstored
      rw [if_neg hlogged]
      exact .inr ⟨rfl, hstored⟩
  · refine .inr ⟨loggedCalls_of_not_wrote hnone, ?_⟩
    rcases hsame with hsame | hsame
    · exact hsame.symm ▸ hlog
    · exact hsame.symm ▸ hsync hlog

/-- The log of a run grows by the frames of the logged calls. -/
theorem holds_run {session : Session δ} (actions : List Action) {bytes : Bytes}
    (hlog : holds session.log bytes)
    (hstores : ∀ call ∈ Event.writes (session.run actions).1, call.Stores holds) :
    holds (session.run actions).2.log (bytes ++
      Frame.encodeAll ((loggedCalls (session.run actions).1).map WriteCall.payload)) := by
  induction actions generalizing session bytes with
  | nil =>
    show holds session.log (bytes ++ [])
    rw [List.append_nil]
    exact hlog
  | cons action actions ih =>
    obtain ⟨hfirst, hrest⟩ := forall_writes_cons.mp hstores
    rw [loggedCalls_run_cons]
    rcases holds_step holds hsync action hlog hfirst with ⟨call, hcalls, -, hstep⟩ | ⟨hcalls, hstep⟩
    · rw [hcalls, List.singleton_append, List.map_cons, Frame.encodeAll_cons, ← List.append_assoc]
      exact ih hstep hrest
    · rw [hcalls, List.nil_append]
      exact ih hstep hrest

end Stored

theorem holds_run_of_reliable {holds : δ → Bytes → Prop} (hreliable : Reliable holds)
    {session : Session δ} (actions : List Action) {bytes : Bytes} (hlog : holds session.log bytes) :
    holds (session.run actions).2.log (bytes ++
      Frame.encodeAll ((loggedCalls (session.run actions).1).map WriteCall.payload)) := by
  have hsync : ∀ {log : δ} {held : Bytes}, holds log held → holds (LogDevice.sync log).2 held := by
    intro log held hheld
    obtain ⟨after, hsync, hafter⟩ := hreliable.sync hheld
    rw [hsync]
    exact hafter
  exact holds_run holds hsync actions hlog fun call _ => WriteCall.stores_of_reliable hreliable call

/-- The frames of the logged calls stand one behind the other. -/
theorem place_run {bytes : δ → Bytes} (happending : Appending bytes) {session : Session δ}
    (actions : List Action)
    (hfaultless : ∀ call ∈ Event.writes (session.run actions).1, call.Faultless) :
    Frame.place (bytes session.log).length
        ((loggedCalls (session.run actions).1).map WriteCall.payload) =
      (loggedCalls (session.run actions).1).map (WriteCall.frame bytes) := by
  induction actions generalizing session with
  | nil => rfl
  | cons action actions ih =>
    obtain ⟨hfirst, hrest⟩ := forall_writes_cons.mp hfaultless
    have hlater := ih hrest
    have hhere : bytes session.log = bytes session.log := rfl
    have hstep := holds_step (fun log held => bytes log = held)
      (fun hlog => (happending.sync _).trans hlog) action hhere
      fun call hwrote => WriteCall.stores_of_faultless happending (hfirst call hwrote)
    rw [loggedCalls_run_cons]
    rcases hstep with ⟨call, hcalls, hfound, hbytes⟩ | ⟨hcalls, hbytes⟩
    · have hframe : call.frame bytes = ⟨(bytes session.log).length, call.payload⟩ := by
        rw [WriteCall.frame, hfound]
      rw [hbytes, List.length_append] at hlater
      rw [hcalls, List.singleton_append, List.map_cons, List.map_cons, Frame.place, ← hframe,
        ← hlater, hframe, Frame.finish_mk]
    · rw [hbytes] at hlater
      rw [hcalls, List.nil_append]
      exact hlater

/-- A run whose steps find databases with a property makes its calls on such databases. -/
theorem forall_writes_of_step {P : Session δ → List Action → Prop} {Q : Database → Prop}
    (hstep : ∀ {session : Session δ} {action : Action} {actions : List Action},
      P session (action :: actions) → Q session.database ∧ P (session.step action).2 actions)
    {session : Session δ} {actions : List Action} (h : P session actions) :
    ∀ call ∈ Event.writes (session.run actions).1, Q call.database := by
  induction actions generalizing session with
  | nil => exact fun call hmem => nomatch hmem
  | cons action actions ih =>
    obtain ⟨hhere, hrest⟩ := hstep h
    refine forall_writes_cons.mpr ⟨fun call hwrote => ?_, ih hrest⟩
    rcases session.step_log_cases action with ⟨found, hfound, hdatabase, -⟩ | ⟨hnone, -⟩
    · obtain rfl := Event.wrote.inj (hwrote.symm.trans hfound)
      rw [hdatabase]
      exact hhere
    · exact absurd hwrote (hnone call)

theorem numbered_writes {session : Session δ} {actions : List Action}
    (h : session.Numbered actions) :
    ∀ call ∈ Event.writes (session.run actions).1, call.database.last + 1 < UInt64.size :=
  forall_writes_of_step (P := Numbered) (Q := fun db => db.last + 1 < UInt64.size) (fun h => h) h

/-- What is logged in a run can be decoded and has room in a frame. -/
theorem decodes_run {session : Session δ} {actions : List Action} (h : session.Numbered actions) :
    ∀ call ∈ loggedCalls (session.run actions).1,
      Frame.Fits call.payload ∧ DecodedBatch.ofBytes call.payload = .ok call.decoded := by
  intro call hmem
  obtain ⟨hwrite, hlogged⟩ := mem_loggedCalls.mp hmem
  exact ⟨hlogged.fits, hlogged.decodes (numbered_writes h call hwrite)⟩

/-- The log of a session without a failed device call holds the frames of the
logged calls and nothing else. -/
theorem ofLog_run (happending : Appending bytes) {session : Session δ} (actions : List Action)
    (hbytes : bytes session.log = [])
    (hfaultless : ∀ call ∈ Event.writes (session.run actions).1, call.Faultless) :
    Frame.Whole (bytes (session.run actions).2.log) ∧
      Frame.ofLog (bytes (session.run actions).2.log) =
        acknowledged bytes (session.run actions).1 := by
  have hlog := holds_run (fun log held => bytes log = held)
    (fun hlog => (happending.sync _).trans hlog) actions hbytes
    fun call hmem => WriteCall.stores_of_faultless happending (hfaultless call hmem)
  have hfits : ∀ payload ∈ (loggedCalls (session.run actions).1).map WriteCall.payload,
      Frame.Fits payload :=
    List.forall_mem_map.mpr fun call hcall => (mem_loggedCalls.mp hcall).2.fits
  have hplace := place_run happending actions hfaultless
  rw [hbytes] at hplace
  rw [hlog, List.nil_append]
  refine ⟨Frame.whole_encodeAll hfits, ?_⟩
  unfold Frame.ofLog
  rw [Frame.payloads_encodeAll hfits]
  exact hplace

end Session

end BatchStore
