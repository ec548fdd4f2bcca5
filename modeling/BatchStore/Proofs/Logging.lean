import BatchStore.Proofs.Device
import BatchStore.Proofs.Frames
import BatchStore.Proofs.Write

/-!
# What a write leaves in the log

On a reliable device a write that logs its batch adds one frame, and every other
write adds nothing. On a device that only appends, a failed write may have added
the beginning of its frame, or all of it.
-/

namespace BatchStore

open LogDevice (Reliable Appending)

namespace Journal

variable {δ : Type} [LogDevice δ]

theorem append_large {payload : Bytes} (h : ¬Frame.Fits payload) (log : δ) (durable : Bool) :
    append log payload durable = (.error (.invalidArgument .frameTooLarge), log) :=
  if_neg h

theorem append_reliable {holds : δ → Bytes → Prop} (hreliable : Reliable holds) {log : δ}
    {bytes payload : Bytes} (hlog : holds log bytes) (hfits : Frame.Fits payload)
    (durable : Bool) :
    ∃ after, append log payload durable = (.ok bytes.length, after) ∧
      holds after (bytes ++ Frame.encode payload) := by
  obtain ⟨log', happend, hlog'⟩ := hreliable.append (Frame.encode payload) hlog
  unfold append
  rw [if_pos (show payload.length < UInt32.size from hfits), happend]
  cases durable with
  | true =>
    obtain ⟨after, hsync, hafter⟩ := hreliable.sync hlog'
    refine ⟨after, ?_, hafter⟩
    simp only [if_true, sync, hsync, lift]
  | false =>
    obtain ⟨after, hflush, hafter⟩ := hreliable.flush hlog'
    refine ⟨after, ?_, hafter⟩
    simp only [Bool.false_eq_true, if_false, flush, hflush, lift]

/-- Handing the bytes on or making them durable adds none. -/
theorem bytes_settle {bytes : δ → Bytes} (happending : Appending bytes) (log : δ)
    (durable : Bool) : bytes (if durable then sync log else flush log).2 = bytes log := by
  have hlift : ∀ outcome : Except DeviceError Unit × δ, (lift outcome).2 = outcome.2 := by
    rintro ⟨result, after⟩
    cases result <;> rfl
  cases durable with
  | true => exact (congrArg bytes (hlift _)).trans (happending.sync log)
  | false => exact (congrArg bytes (hlift _)).trans (happending.flush log)

/-- An append stores the whole frame, or it fails and has stored a beginning of
the frame. That may be all of it: the step after the append can fail too. -/
theorem append_appending {bytes : δ → Bytes} (happending : Appending bytes) (log : δ)
    (payload : Bytes) (durable : Bool) :
    (∃ offset, (append log payload durable).1 = .ok offset ∧ Frame.Fits payload ∧
      bytes (append log payload durable).2 = bytes log ++ Frame.encode payload) ∨
    ∃ error stored, (append log payload durable).1 = .error error ∧
      (Frame.Fits payload ∨ stored = 0) ∧
      bytes (append log payload durable).2 = bytes log ++ (Frame.encode payload).take stored := by
  by_cases hfits : Frame.Fits payload
  · unfold append
    rw [if_pos (show payload.length < UInt32.size from hfits)]
    rcases happend : LogDevice.append log (Frame.encode payload) with ⟨result, log'⟩
    cases result with
    | error error =>
      obtain ⟨stored, hstored⟩ := happending.append_error happend
      exact .inr ⟨_, stored, rfl, .inl hfits, hstored⟩
    | ok offset =>
      have hstored := happending.append_ok happend
      have hsettle := bytes_settle happending log' durable
      rcases hs : (if durable then sync log' else flush log') with ⟨result, log''⟩
      rw [hs] at hsettle
      simp only at hsettle
      simp only [hs]
      cases result with
      | ok done => exact .inl ⟨offset, rfl, hfits, hsettle.trans hstored⟩
      | error error =>
        refine .inr ⟨error, (Frame.encode payload).length, rfl, .inl hfits, ?_⟩
        rw [List.take_length]
        exact hsettle.trans hstored
  · rw [append_large hfits]
    refine .inr ⟨_, 0, rfl, .inr rfl, ?_⟩
    rw [List.take_zero, List.append_nil]

end Journal

namespace Database

variable {δ : Type} [LogDevice δ]

theorem logBatch_disabled {settings : WriteSettings} (h : settings.disableLog = true) (log : δ)
    (payload : Bytes) : logBatch settings log payload = (.ok (), log) := by
  unfold logBatch
  rw [h]
  rfl

theorem logBatch_enabled {settings : WriteSettings} (h : settings.disableLog = false) (log : δ)
    (payload : Bytes) :
    logBatch settings log payload =
      ((Journal.append log payload settings.sync).1.map fun _ => (),
        (Journal.append log payload settings.sync).2) := by
  unfold logBatch
  rw [h]
  rcases Journal.append log payload settings.sync with ⟨result, after⟩
  cases result <;> rfl

/-- A batch with room in a frame is logged unless it is to be left out. -/
theorem logBatch_fits {holds : δ → Bytes → Prop} (hreliable : Reliable holds) {log : δ}
    {bytes payload : Bytes} (hlog : holds log bytes) (hfits : Frame.Fits payload) (settings : WriteSettings) :
    ∃ after, logBatch settings log payload = (.ok (), after) ∧
      holds after (bytes ++ if settings.disableLog then [] else Frame.encode payload) := by
  cases hdisable : settings.disableLog with
  | true =>
    refine ⟨log, logBatch_disabled hdisable log payload, ?_⟩
    rw [if_pos rfl, List.append_nil]
    exact hlog
  | false =>
    obtain ⟨after, happend, hafter⟩ :=
      Journal.append_reliable hreliable hlog hfits settings.sync
    refine ⟨after, ?_, hafter⟩
    rw [logBatch_enabled hdisable, happend]
    rfl

/-- Logging a batch succeeds exactly when it is left out or has room in a frame. -/
theorem logBatch_reliable {holds : δ → Bytes → Prop} (hreliable : Reliable holds) {log after : δ}
    {bytes payload : Bytes} (hlog : holds log bytes) {settings : WriteSettings}
    {result : Except StoreError Unit}
    (h : logBatch settings log payload = (result, after)) :
    (settings.disableLog = true ∧ result = .ok () ∧ holds after bytes) ∨
    (settings.disableLog = false ∧ result = .ok () ∧ Frame.Fits payload ∧
      holds after (bytes ++ Frame.encode payload)) ∨
    (settings.disableLog = false ∧ result = .error (.invalidArgument .frameTooLarge) ∧
      holds after bytes) := by
  cases hdisable : settings.disableLog with
  | true =>
    rw [logBatch_disabled hdisable] at h
    obtain ⟨rfl, rfl⟩ := Prod.mk.inj h
    exact .inl ⟨rfl, rfl, hlog⟩
  | false =>
    rw [logBatch_enabled hdisable] at h
    obtain ⟨rfl, rfl⟩ := Prod.mk.inj h
    by_cases hfits : Frame.Fits payload
    · obtain ⟨after, happend, hafter⟩ := Journal.append_reliable hreliable hlog hfits settings.sync
      rw [happend]
      exact .inr (.inl ⟨rfl, rfl, hfits, hafter⟩)
    · rw [Journal.append_large hfits]
      exact .inr (.inr ⟨rfl, rfl, hlog⟩)

theorem logBatch_ok {bytes : δ → Bytes} (happending : Appending bytes) {log after : δ}
    {payload : Bytes} {settings : WriteSettings} (hdisable : settings.disableLog = false)
    (h : logBatch settings log payload = (.ok (), after)) :
    Frame.Fits payload ∧ bytes after = bytes log ++ Frame.encode payload := by
  rw [logBatch_enabled hdisable] at h
  obtain ⟨hresult, rfl⟩ := Prod.mk.inj h
  rcases Journal.append_appending happending log payload settings.sync with
    ⟨offset, -, hstored⟩ | ⟨error, stored, herror, -, -⟩
  · exact hstored
  · rw [herror] at hresult
    cases hresult

theorem logBatch_error {bytes : δ → Bytes} (happending : Appending bytes) {log after : δ}
    {payload : Bytes} {settings : WriteSettings} {error : StoreError}
    (h : logBatch settings log payload = (.error error, after)) :
    ∃ stored, (Frame.Fits payload ∨ stored = 0) ∧
      bytes after = bytes log ++ (Frame.encode payload).take stored := by
  cases hdisable : settings.disableLog with
  | true =>
    rw [logBatch_disabled hdisable] at h
    cases (Prod.mk.inj h).1
  | false =>
    rw [logBatch_enabled hdisable] at h
    obtain ⟨hresult, rfl⟩ := Prod.mk.inj h
    rcases Journal.append_appending happending log payload settings.sync with
      ⟨offset, hok, -⟩ | ⟨found, stored, -, hroom, hstored⟩
    · rw [hok] at hresult
      cases hresult
    · exact ⟨stored, hroom, hstored⟩

end Database

end BatchStore
