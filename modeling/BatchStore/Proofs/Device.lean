import BatchStore.Device.Memory
import BatchStore.Device.Monitored

/-!
# What log devices promise

A device is a state machine; what it holds is read off its states by a relation
or a function. A reliable relation is kept by every call, and no call made on a
state that it relates fails. A function that only sees bytes being appended
promises less: a call may fail, and a failed append may have stored the
beginning of its data.
-/

namespace BatchStore

namespace LogDevice

variable {δ : Type} [LogDevice δ]

/-- From states that hold some bytes every call succeeds, and the state after
it holds the bytes that the call leaves. -/
structure Reliable (holds : δ → Bytes → Prop) : Prop where
  size : ∀ {log bytes}, holds log bytes →
    ∃ after, LogDevice.size log = (.ok bytes.length, after) ∧ holds after bytes
  readAt : ∀ {log bytes} (offset length : Nat), holds log bytes → offset + length ≤ bytes.length →
    ∃ after, LogDevice.readAt log offset length = (.ok ((bytes.drop offset).take length), after) ∧
      holds after bytes
  append : ∀ {log bytes} (data : Bytes), holds log bytes →
    ∃ after, LogDevice.append log data = (.ok bytes.length, after) ∧ holds after (bytes ++ data)
  flush : ∀ {log bytes}, holds log bytes →
    ∃ after, LogDevice.flush log = (.ok (), after) ∧ holds after bytes
  sync : ∀ {log bytes}, holds log bytes →
    ∃ after, LogDevice.sync log = (.ok (), after) ∧ holds after bytes
  truncate : ∀ {log bytes} (newSize : Nat), holds log bytes → newSize ≤ bytes.length →
    ∃ after, LogDevice.truncate log newSize = (.ok (), after) ∧ holds after (bytes.take newSize)

/-- Appending stores all the data, or some beginning of it when it fails; making
the log durable stores nothing, whether it fails or not. -/
structure Appending (bytes : δ → Bytes) : Prop where
  append_ok : ∀ {log after data offset}, LogDevice.append log data = (.ok offset, after) →
    bytes after = bytes log ++ data
  append_error : ∀ {log after data error}, LogDevice.append log data = (.error error, after) →
    ∃ stored, bytes after = bytes log ++ data.take stored
  flush : ∀ log, bytes (LogDevice.flush log).2 = bytes log
  sync : ∀ log, bytes (LogDevice.sync log).2 = bytes log

/-- A call fails, or it gives the answer that is due. -/
inductive Answers {α : Type} (answer : α) (failed : DeviceError → δ → Prop) (answered : δ → Prop) :
    Except DeviceError α × δ → Prop where
  | failed {fault : DeviceError} {after : δ} (h : failed fault after) :
    Answers answer failed answered (.error fault, after)
  | answered {after : δ} (h : answered after) : Answers answer failed answered (.ok answer, after)

/-- A reading call may fail, and otherwise answers for the bytes, which stay. -/
structure Readable (holds : δ → Bytes → Prop) (failed : Bytes → DeviceError → δ → Prop) : Prop where
  size : ∀ {log bytes}, holds log bytes →
    Answers bytes.length (failed bytes) (holds · bytes) (LogDevice.size log)
  readAt : ∀ {log bytes} (offset length : Nat), holds log bytes → offset + length ≤ bytes.length →
    Answers ((bytes.drop offset).take length) (failed bytes) (holds · bytes)
      (LogDevice.readAt log offset length)

/-- The calls of a recovery may fail, and one that fails has no effect. -/
structure Fallible (holds : δ → Bytes → Prop) : Prop
    extends Readable holds fun bytes _ after => holds after bytes where
  sync : ∀ {log bytes}, holds log bytes →
    Answers () (fun _ after => holds after bytes) (holds · bytes) (LogDevice.sync log)
  truncate : ∀ {log bytes} (newSize : Nat), holds log bytes → newSize ≤ bytes.length →
    Answers () (fun _ after => holds after bytes) (holds · (bytes.take newSize))
      (LogDevice.truncate log newSize)

omit [LogDevice δ] in
theorem Answers.mono {α : Type} {answer : α} {failed failed' : DeviceError → δ → Prop}
    {answered answered' : δ → Prop} {outcome : Except DeviceError α × δ}
    (h : Answers answer failed answered outcome)
    (hfailed : ∀ {fault after}, failed fault after → failed' fault after)
    (hanswered : ∀ {after}, answered after → answered' after) :
    Answers answer failed' answered' outcome := by
  cases h with
  | failed h => exact .failed (hfailed h)
  | answered h => exact .answered (hanswered h)

/-- Reading a reliable device never fails. -/
theorem Reliable.readable {holds : δ → Bytes → Prop} (h : Reliable holds) :
    Readable holds fun _ _ _ => False where
  size := by
    intro log bytes hlog
    obtain ⟨after, hsize, hafter⟩ := h.size hlog
    rw [hsize]
    exact .answered hafter
  readAt := by
    intro log bytes offset length hlog hle
    obtain ⟨after, hread, hafter⟩ := h.readAt offset length hlog hle
    rw [hread]
    exact .answered hafter

theorem Reliable.fallible {holds : δ → Bytes → Prop} (h : Reliable holds) : Fallible holds where
  size := fun hlog => (h.readable.size hlog).mono False.elim id
  readAt := fun offset length hlog hle =>
    (h.readable.readAt offset length hlog hle).mono False.elim id
  sync := by
    intro log bytes hlog
    obtain ⟨after, hsync, hafter⟩ := h.sync hlog
    rw [hsync]
    exact .answered hafter
  truncate := by
    intro log bytes newSize hlog hle
    obtain ⟨after, htruncate, hafter⟩ := h.truncate newSize hlog hle
    rw [htruncate]
    exact .answered hafter

end LogDevice

open LogDevice

theorem MemoryLog.reliable : Reliable fun (log : MemoryLog) bytes => log.bytes = bytes where
  size := by
    rintro log _ rfl
    exact ⟨log, rfl, rfl⟩
  readAt := by
    rintro log _ offset length rfl hle
    refine ⟨log, ?_, rfl⟩
    show (log.readAt offset length, log) = _
    unfold MemoryLog.readAt
    rw [if_pos hle]
  append := by
    rintro log _ data rfl
    exact ⟨log.append data, rfl, rfl⟩
  flush := by
    rintro log _ rfl
    exact ⟨log, rfl, rfl⟩
  sync := by
    rintro log _ rfl
    exact ⟨log, rfl, rfl⟩
  truncate := by
    rintro log _ newSize rfl hle
    refine ⟨⟨log.bytes.take newSize⟩, ?_, rfl⟩
    show log.truncate newSize = _
    unfold MemoryLog.truncate
    rw [if_pos hle]

theorem MemoryLog.appending : Appending MemoryLog.bytes where
  append_ok := by
    intro log after data offset h
    obtain ⟨-, rfl⟩ := Prod.mk.inj h
    rfl
  append_error := by
    intro log after data error h
    obtain ⟨h, -⟩ := Prod.mk.inj h
    cases h
  flush := fun log => rfl
  sync := fun log => rfl

namespace Monitored

variable {δ : Type}

/-- A strike uses up plans and nothing else. -/
theorem device_strike (log : Monitored δ) (operation : LogOperation) :
    (log.strike operation).2.device = log.device := by
  unfold strike
  split
  · rfl
  · simp only
    split <;> rfl

/-- A call is struck and does not reach the device, or it goes through. -/
theorem call_cases {α : Type} (log : Monitored δ) (operation : LogOperation)
    (act : δ → Except DeviceError α × δ) :
    (∃ after : Monitored δ, log.call operation act = (.error (injected operation), after) ∧
      after.device = log.device) ∨
    ∃ after : Monitored δ, log.call operation act = ((act log.device).1, after) ∧
      after.device = (act log.device).2 := by
  have hstrike := log.device_strike operation
  unfold call
  rcases h : log.strike operation with ⟨fault, after⟩
  rw [h] at hstrike
  cases fault with
  | some fault => exact .inl ⟨after, rfl, hstrike⟩
  | none =>
    simp only at hstrike ⊢
    rw [hstrike]
    exact .inr ⟨_, rfl, rfl⟩

theorem device_call {α : Type} (log : Monitored δ) (operation : LogOperation)
    (act : δ → Except DeviceError α × δ) :
    (log.call operation act).2.device = log.device ∨
      (log.call operation act).2.device = (act log.device).2 := by
  rcases log.call_cases operation act with ⟨after, hcall, hdevice⟩ | ⟨after, hcall, hdevice⟩
  · rw [hcall]
    exact .inl hdevice
  · rw [hcall]
    exact .inr hdevice

/-- A planned fault is one more way for a call to fail. -/
theorem answers_call {α : Type} {answer : α} {failed : DeviceError → δ → Prop}
    {answered : δ → Prop} (log : Monitored δ) (operation : LogOperation)
    (act : δ → Except DeviceError α × δ) (h : Answers answer failed answered (act log.device))
    (hstruck : failed (injected operation) log.device) :
    Answers answer (fun fault after => failed fault after.device)
      (fun after => answered after.device) (log.call operation act) := by
  rcases log.call_cases operation act with ⟨after, hcall, hdevice⟩ | ⟨after, hcall, hdevice⟩
  · rw [hcall]
    exact .failed (hdevice.symm ▸ hstruck)
  · rw [hcall]
    generalize act log.device = outcome at h hdevice
    cases h with
    | failed h => exact .failed (hdevice.symm ▸ h)
    | answered h => exact .answered (hdevice.symm ▸ h)

variable [LogDevice δ]

/-- An append is struck, and stores a beginning of its data, or goes through. -/
theorem append_cases (log : Monitored δ) (data : Bytes) :
    (∃ torn, (LogDevice.append log data).1 = .error (injected .append) ∧
      (LogDevice.append log data).2.device = (LogDevice.append log.device (data.take torn)).2) ∨
    (LogDevice.append log data).1 = (LogDevice.append log.device data).1 ∧
      (LogDevice.append log data).2.device = (LogDevice.append log.device data).2 := by
  change (∃ torn, ((log.record (.append data.length)).append data).1 = _ ∧
      ((log.record (.append data.length)).append data).2.device = _) ∨
    ((log.record (.append data.length)).append data).1 = _ ∧
      ((log.record (.append data.length)).append data).2.device = _
  have hstrike : ((log.record (.append data.length)).strike .append).2.device = log.device :=
    (log.record (.append data.length)).device_strike .append
  unfold append
  rcases h : (log.record (.append data.length)).strike .append with ⟨fault, after⟩
  rw [h] at hstrike
  simp only at hstrike
  cases fault with
  | some fault =>
    refine .inl ⟨fault.torn, rfl, ?_⟩
    rw [← hstrike]
  | none =>
    rw [← hstrike]
    exact .inr ⟨rfl, rfl⟩

/-- Planned faults do not lead beyond what appending devices may do. -/
theorem appending {bytes : δ → Bytes} (h : Appending bytes) :
    Appending fun log : Monitored δ => bytes log.device where
  append_ok := by
    intro log after data offset heq
    show bytes after.device = bytes log.device ++ data
    rcases log.append_cases data with ⟨torn, hresult, -⟩ | ⟨hresult, hdevice⟩
    · rw [heq] at hresult
      cases hresult
    · rw [heq] at hresult hdevice
      change after.device = _ at hdevice
      rw [hdevice]
      exact h.append_ok (Prod.ext hresult.symm rfl)
  append_error := by
    intro log after data error heq
    show ∃ stored, bytes after.device = bytes log.device ++ data.take stored
    rcases log.append_cases data with ⟨torn, -, hdevice⟩ | ⟨hresult, hdevice⟩
    · rw [heq] at hdevice
      change after.device = _ at hdevice
      rw [hdevice]
      rcases happend : LogDevice.append log.device (data.take torn) with ⟨result, device⟩
      cases result with
      | ok offset => exact ⟨torn, h.append_ok happend⟩
      | error error =>
        obtain ⟨stored, hstored⟩ := h.append_error happend
        rw [List.take_take] at hstored
        exact ⟨_, hstored⟩
    · rw [heq] at hresult hdevice
      change after.device = _ at hdevice
      rw [hdevice]
      exact h.append_error (Prod.ext hresult.symm rfl)
  flush := by
    intro log
    rcases (log.record .flush).device_call .flush LogDevice.flush with hsame | hsame
    · exact congrArg bytes hsame
    · exact (congrArg bytes hsame).trans (h.flush log.device)
  sync := by
    intro log
    rcases (log.record .sync).device_call .sync LogDevice.sync with hsame | hsame
    · exact congrArg bytes hsame
    · exact (congrArg bytes hsame).trans (h.sync log.device)

/-- Planned faults are among those that a recovery may meet. -/
theorem fallible {holds : δ → Bytes → Prop} (h : Fallible holds) :
    Fallible fun (log : Monitored δ) bytes => holds log.device bytes where
  size := by
    intro log bytes hlog
    exact log.answers_call .size LogDevice.size (h.size hlog) hlog
  readAt := by
    intro log bytes offset length hlog hle
    exact log.answers_call .readAt (LogDevice.readAt · offset length)
      (h.readAt offset length hlog hle) hlog
  sync := by
    intro log bytes hlog
    exact (log.record .sync).answers_call .sync LogDevice.sync (h.sync hlog) hlog
  truncate := by
    intro log bytes newSize hlog hle
    exact (log.record (.truncate newSize)).answers_call .truncate (LogDevice.truncate · newSize)
      (h.truncate newSize hlog hle) hlog

end Monitored

end BatchStore
