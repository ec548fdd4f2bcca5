import BatchStore.Proofs.Scanning

/-!
# Recovery from a device that fails

Any call of a recovery may fail. Then the recovery ends, and what it has done to the log
depends on where it was: reading, handing frames over, or cutting the tail off. Only the
last of these touches the log, and it begins when every frame was accepted. So a log is
found whole afterwards, or cut behind its last intact frame.
-/

namespace BatchStore

open LogDevice (Answers Readable Fallible)

/-- A device with the calls made so far, in order, each with the error it failed with. -/
structure Watched (δ : Type) where
  device : δ
  calls : List (LogOperation × Option DeviceError)

namespace Watched

variable {δ : Type}

def fault? {α : Type} : Except DeviceError α → Option DeviceError
  | .ok _ => none
  | .error fault => some fault

def note {α : Type} (log : Watched δ) (operation : LogOperation)
    (outcome : Except DeviceError α × δ) : Except DeviceError α × Watched δ :=
  (outcome.1, ⟨outcome.2, log.calls ++ [(operation, fault? outcome.1)]⟩)

instance [LogDevice δ] : LogDevice (Watched δ) where
  size log := log.note .size (LogDevice.size log.device)
  readAt log offset length := log.note .readAt (LogDevice.readAt log.device offset length)
  append log data := log.note .append (LogDevice.append log.device data)
  flush log := log.note .flush (LogDevice.flush log.device)
  sync log := log.note .sync (LogDevice.sync log.device)
  truncate log newSize := log.note .truncate (LogDevice.truncate log.device newSize)

/-- The calls have asked for the size and read, and none of them failed. -/
def OnlyRead (calls : List (LogOperation × Option DeviceError)) : Prop :=
  ∀ call ∈ calls, call = (.size, none) ∨ call = (.readAt, none)

theorem OnlyRead.append {calls : List (LogOperation × Option DeviceError)} (h : OnlyRead calls)
    {operation : LogOperation} (hreads : operation = .size ∨ operation = .readAt) :
    OnlyRead (calls ++ [(operation, none)]) := by
  intro call hmem
  rcases List.mem_append.mp hmem with hold | hnew
  · exact h call hold
  · rw [List.mem_singleton.mp hnew]
    exact hreads.imp (congrArg (·, none)) (congrArg (·, none))

/-- The device holds the bytes and was only read. -/
structure Holds (holds : δ → Bytes → Prop) (log : Watched δ) (bytes : Bytes) : Prop where
  device : holds log.device bytes
  calls : OnlyRead log.calls

/-- The device holds the bytes and was only read, until a reading call failed. -/
structure Failed (holds : δ → Bytes → Prop) (bytes : Bytes) (fault : DeviceError)
    (log : Watched δ) : Prop where
  device : holds log.device bytes
  calls : ∃ reads operation, OnlyRead reads ∧ (operation = .size ∨ operation = .readAt) ∧
    log.calls = reads ++ [(operation, some fault)]

theorem answers_note {α : Type} {answer : α} {holds : δ → Bytes → Prop} {log : Watched δ}
    {bytes : Bytes} (hlog : log.Holds holds bytes) {operation : LogOperation}
    (hreads : operation = .size ∨ operation = .readAt) {outcome : Except DeviceError α × δ}
    (h : Answers answer (fun _ after => holds after bytes) (holds · bytes) outcome) :
    Answers answer (Failed holds bytes) (Holds holds · bytes) (log.note operation outcome) := by
  cases h with
  | failed hafter => exact .failed ⟨hafter, log.calls, operation, hlog.calls, hreads, rfl⟩
  | answered hafter => exact .answered ⟨hafter, hlog.calls.append hreads⟩

theorem readable [LogDevice δ] {holds : δ → Bytes → Prop} (h : Fallible holds) :
    Readable (Holds holds) (Failed holds) where
  size := fun hlog => answers_note hlog (.inl rfl) (h.size hlog.device)
  readAt := fun offset length hlog hle =>
    answers_note hlog (.inr rfl) (h.readAt offset length hlog.device hle)

end Watched

/-- Dropping a part of a device's state changes no answer that a recovery gets from it. -/
structure LogDevice.Forgets {δ ε : Type} [LogDevice δ] [LogDevice ε] (forget : δ → ε) : Prop where
  size : ∀ log, LogDevice.size (forget log) = Prod.map id forget (LogDevice.size log)
  readAt : ∀ log offset length,
    LogDevice.readAt (forget log) offset length =
      Prod.map id forget (LogDevice.readAt log offset length)
  sync : ∀ log, LogDevice.sync (forget log) = Prod.map id forget (LogDevice.sync log)
  truncate : ∀ log newSize,
    LogDevice.truncate (forget log) newSize = Prod.map id forget (LogDevice.truncate log newSize)

theorem Watched.forgets {δ : Type} [LogDevice δ] :
    LogDevice.Forgets (Watched.device : Watched δ → δ) where
  size := fun _ => rfl
  readAt := fun _ _ _ => rfl
  sync := fun _ => rfl
  truncate := fun _ _ => rfl

section Forgetting

variable {δ ε σ : Type} [LogDevice δ] [LogDevice ε] {forget : δ → ε}

namespace Scan

theorem start_forget (h : LogDevice.Forgets forget) (log : δ) (paranoid : Bool) :
    start (forget log) paranoid = Prod.map id forget (start log paranoid) := by
  unfold start
  rw [h.size]
  rcases LogDevice.size log with ⟨result, after⟩
  cases result <;> rfl

theorem readFrame_forget (h : LogDevice.Forgets forget) (scan : Scan) (log : δ) :
    scan.readFrame (forget log) = Prod.map id forget (scan.readFrame log) := by
  unfold readFrame
  by_cases hshort : scan.total - scan.offset < Frame.headerSize
  · simp only [if_pos hshort]
    rfl
  simp only [if_neg hshort, h.readAt]
  rcases LogDevice.readAt log scan.offset Frame.headerSize with ⟨result, after⟩
  cases result with
  | error fault => rfl
  | ok header =>
    simp only [Prod.map_apply, id_eq, h.readAt]
    by_cases hpast : scan.total - scan.offset - Frame.headerSize < (Frame.decodeHeader header).1
    · simp only [if_pos hpast]
      rfl
    · simp only [if_neg hpast]
      rcases LogDevice.readAt after (scan.offset + Frame.headerSize) (Frame.decodeHeader header).1
        with ⟨result, last⟩
      cases result <;> rfl

theorem next_forget (h : LogDevice.Forgets forget) (scan : Scan) (log : δ) :
    scan.next (forget log) = Prod.map id (Prod.map id forget) (scan.next log) := by
  unfold next
  by_cases hfinished : scan.finished = true
  · simp only [if_pos hfinished]
    rfl
  simp only [if_neg hfinished, readFrame_forget h]
  rcases scan.readFrame log with ⟨_ | _ | frame, after⟩ <;> rfl

theorem replay_forget (h : LogDevice.Forgets forget) (scan : Scan) (log : δ)
    (accept : σ → Frame → Except StoreError σ) (state : σ) (frames : Nat) :
    let progress := scan.replay log accept state frames
    scan.replay (forget log) accept state frames =
      ⟨progress.outcome, progress.state, progress.frames, progress.scan, forget progress.log⟩ := by
  induction hn : scan.total - scan.offset using Nat.strongRecOn
    generalizing scan log state frames with
  | ind n ih =>
    subst hn
    have hforget := next_forget h scan log
    rcases hnext : scan.next log with ⟨item, later, after⟩
    rw [hnext] at hforget
    rcases item with _ | error | frame
    · rw [replay_end hnext, replay_end hforget]
      rfl
    · rw [replay_error hnext, replay_error hforget]
      rfl
    · rw [replay_frame hnext, replay_frame hforget]
      cases accept state frame with
      | error error => rfl
      | ok next => exact ih _ (next_advances hnext) later after next (frames + 1) rfl

end Scan

namespace Journal

theorem trim_forget (h : LogDevice.Forgets forget) (scan : Scan) (log : δ) :
    trim scan (forget log) = Prod.map id forget (trim scan log) := by
  unfold trim
  by_cases hmore : scan.offset < scan.total
  · simp only [if_pos hmore, h.truncate]
    rcases LogDevice.truncate log scan.offset with ⟨result, after⟩
    cases result with
    | error fault => rfl
    | ok done =>
      simp only [Prod.map_apply, id_eq, h.sync]
      rcases LogDevice.sync after with ⟨result, last⟩
      cases result <;> rfl
  · simp only [if_neg hmore]
    rfl

/-- A recovery comes to the same on a device of which a part is dropped. -/
theorem recover_forget (h : LogDevice.Forgets forget) (log : δ) (paranoid : Bool)
    (accept : σ → Frame → Except StoreError σ) (state : σ) :
    let recovered := recover log paranoid accept state
    recover (forget log) paranoid accept state =
      ⟨recovered.result, recovered.state, forget recovered.log⟩ := by
  unfold recover
  simp only [Scan.start_forget h]
  rcases Scan.start log paranoid with ⟨result, opened⟩
  cases result with
  | error error => rfl
  | ok scan =>
    simp only [Prod.map_apply, id_eq, Scan.replay_forget h]
    cases (scan.replay opened accept state 0).outcome with
    | error error => rfl
    | ok done =>
      simp only [trim_forget h]
      rcases trim (scan.replay opened accept state 0).scan (scan.replay opened accept state 0).log
        with ⟨result, last⟩
      cases result <;> rfl

end Journal

end Forgetting

namespace Frame

variable {σ : Type} {paranoid : Bool} {accept : σ → Frame → Except StoreError σ} {bytes : Bytes}
  {state : σ} {error : StoreError}

/-- The frames are accepted in order up to one that is refused with the error. -/
def Refuses (accept : σ → Frame → Except StoreError σ) (state : σ) (frames : List Frame)
    (error : StoreError) : Prop :=
  ∃ before frame after reached, frames = before ++ frame :: after ∧
    before.foldlM accept state = .ok reached ∧ accept reached frame = .error error

theorem refuses_of_foldlM {frames : List Frame} (h : frames.foldlM accept state = .error error) :
    Refuses accept state frames error := by
  induction frames generalizing state with
  | nil => cases h
  | cons first rest ih =>
    rw [List.foldlM_cons] at h
    cases hfirst : accept state first with
    | error other =>
      rw [hfirst] at h
      cases h
      exact ⟨[], first, rest, state, rfl, rfl, hfirst⟩
    | ok next =>
      rw [hfirst] at h
      obtain ⟨before, frame, after, reached, rfl, hbefore, hframe⟩ := ih h
      refine ⟨first :: before, frame, after, reached, rfl, ?_, hframe⟩
      rw [List.foldlM_cons, hfirst]
      exact hbefore

/-- Only a damaged tail is an error. -/
theorem mismatched_of_tailError {offset : Nat}
    (h : tailError paranoid offset (tail bytes) = some error) :
    paranoid = true ∧ Mismatched (tail bytes) ∧
      error = .checksumMismatch offset (declaredChecksum (tail bytes))
        (Checksum.crc32 (declaredPayload (tail bytes))) := by
  unfold tailError at h
  rcases front_not_intact (front_tail bytes) with ⟨-, hfront⟩ | ⟨-, hfront⟩ | ⟨hdamaged, hfront⟩
  · rw [hfront] at h
    cases h
  · rw [hfront] at h
    cases h
  · rw [hfront] at h
    cases paranoid with
    | false => cases h
    | true =>
      cases h
      exact ⟨rfl, hdamaged, rfl⟩

/-- A verdict is bad because a frame is refused, or because the tail is damaged. -/
theorem verdict_error (h : verdict paranoid accept 0 bytes state = .error error) :
    Refuses accept state (ofLog bytes) error ∨
      (∃ final, (ofLog bytes).foldlM accept state = .ok final) ∧
        tailError paranoid (encodeAll (payloads bytes)).length (tail bytes) = some error := by
  unfold verdict at h
  rw [Nat.zero_add] at h
  cases hfold : (place 0 (payloads bytes)).foldlM accept state with
  | error refusal =>
    rw [hfold] at h
    cases h
    exact .inl (refuses_of_foldlM hfold)
  | ok final =>
    refine .inr ⟨⟨final, hfold⟩, ?_⟩
    simp only [hfold] at h
    split at h
    · next htail => exact htail.trans (congrArg some (Except.error.inj h))
    · cases h

end Frame

namespace Journal

open Watched (OnlyRead)

variable {δ σ : Type} {holds : δ → Bytes → Prop} {bytes : Bytes} {paranoid : Bool}
  {accept : σ → Frame → Except StoreError σ} {state : σ}

/-- All that a recovery can come to: its result and its state, the bytes that are left in
the log, and the calls that it has made, each with the error that it failed with. -/
inductive Ending (bytes : Bytes) (paranoid : Bool) (accept : σ → Frame → Except StoreError σ)
    (state : σ) :
    Except StoreError Recovery → σ → Bytes → List (LogOperation × Option DeviceError) → Prop where
  /-- The log cannot be read. -/
  | unreadable {reads : List (LogOperation × Option DeviceError)} {operation : LogOperation}
      {fault : DeviceError} {final : σ} (hreads : OnlyRead reads)
      (hoperation : operation = .size ∨ operation = .readAt) :
      Ending bytes paranoid accept state (.error (.device fault)) final bytes
        (reads ++ [(operation, some fault)])
  /-- A frame is refused. -/
  | refused {reads : List (LogOperation × Option DeviceError)} {error : StoreError} {final : σ}
      (hreads : OnlyRead reads) (hrefuses : Frame.Refuses accept state (Frame.ofLog bytes) error) :
      Ending bytes paranoid accept state (.error error) final bytes reads
  /-- The tail is damaged, which only strict checks report. -/
  | damaged {reads : List (LogOperation × Option DeviceError)} {final : σ}
      (hreads : OnlyRead reads) (hparanoid : paranoid = true)
      (haccepts : ∃ reached, (Frame.ofLog bytes).foldlM accept state = .ok reached)
      (htail : Frame.Mismatched (Frame.tail bytes)) :
      Ending bytes paranoid accept state
        (.error (.checksumMismatch (Frame.encodeAll (Frame.payloads bytes)).length
          (Frame.declaredChecksum (Frame.tail bytes))
          (Checksum.crc32 (Frame.declaredPayload (Frame.tail bytes)))))
        final bytes reads
  /-- The tail cannot be cut off. -/
  | uncut {reads : List (LogOperation × Option DeviceError)} {fault : DeviceError} {final : σ}
      (hreads : OnlyRead reads) (haccepts : (Frame.ofLog bytes).foldlM accept state = .ok final)
      (hmore : Frame.tail bytes ≠ []) :
      Ending bytes paranoid accept state (.error (.device fault)) final bytes
        (reads ++ [(.truncate, some fault)])
  /-- The tail is cut off, and that cannot be made durable. -/
  | unsynced {reads : List (LogOperation × Option DeviceError)} {fault : DeviceError} {final : σ}
      (hreads : OnlyRead reads) (haccepts : (Frame.ofLog bytes).foldlM accept state = .ok final)
      (hmore : Frame.tail bytes ≠ []) :
      Ending bytes paranoid accept state (.error (.device fault)) final
        (bytes.take (Frame.encodeAll (Frame.payloads bytes)).length)
        (reads ++ [(.truncate, none), (.sync, some fault)])
  /-- The tail is cut off for good. -/
  | trimmed {reads : List (LogOperation × Option DeviceError)} {final : σ}
      (hreads : OnlyRead reads) (haccepts : (Frame.ofLog bytes).foldlM accept state = .ok final)
      (hmore : Frame.tail bytes ≠ []) :
      Ending bytes paranoid accept state
        (.ok ⟨(Frame.ofLog bytes).length,
          bytes.length - (Frame.encodeAll (Frame.payloads bytes)).length⟩) final
        (bytes.take (Frame.encodeAll (Frame.payloads bytes)).length)
        (reads ++ [(.truncate, none), (.sync, none)])
  /-- There is no tail. -/
  | whole {reads : List (LogOperation × Option DeviceError)} {final : σ}
      (hreads : OnlyRead reads) (haccepts : (Frame.ofLog bytes).foldlM accept state = .ok final)
      (hnone : Frame.tail bytes = []) :
      Ending bytes paranoid accept state (.ok ⟨(Frame.ofLog bytes).length, 0⟩) final bytes reads

theorem Ending.held_cases {result : Except StoreError Recovery} {final : σ} {held : Bytes}
    {calls : List (LogOperation × Option DeviceError)}
    (h : Ending bytes paranoid accept state result final held calls) :
    held = bytes ∨ held = bytes.take (Frame.encodeAll (Frame.payloads bytes)).length := by
  cases h with
  | unreadable | refused | damaged | uncut | whole => exact .inl rfl
  | unsynced | trimmed => exact .inr rfl

/-- A recovery that succeeds has handed over all the frames of what it leaves. -/
theorem Ending.of_ok {recovery : Recovery} {final : σ} {held : Bytes}
    {calls : List (LogOperation × Option DeviceError)}
    (h : Ending bytes paranoid accept state (.ok recovery) final held calls) :
    held = bytes.take (Frame.encodeAll (Frame.payloads bytes)).length ∧
      (Frame.ofLog bytes).foldlM accept state = .ok final ∧
      recovery.frames = (Frame.ofLog bytes).length ∧
      recovery.discarded = bytes.length - held.length := by
  have hheld := Frame.take_encodeAll bytes
  cases h with
  | trimmed hreads haccepts hmore => exact ⟨rfl, haccepts, rfl, by rw [hheld]⟩
  | whole hreads haccepts hnone =>
    exact ⟨(hheld.trans (Frame.Whole.eq hnone).symm).symm, haccepts, rfl, (Nat.sub_self _).symm⟩

theorem unreadable_ending {log : Watched δ} {fault : DeviceError} {final : σ}
    (hfailed : Watched.Failed holds bytes fault log) :
    ∃ held, holds log.device held ∧
      Ending bytes paranoid accept state (.error (.device fault)) final held log.calls := by
  obtain ⟨reads, operation, hreads, hoperation, hcalls⟩ := hfailed.calls
  rw [hcalls]
  exact ⟨bytes, hfailed.device, .unreadable hreads hoperation⟩

/-- A log with a bad verdict is not cut. -/
theorem stopped_ending {log : Watched δ} (hlog : log.Holds holds bytes) {error : StoreError}
    (hverdict : Frame.verdict paranoid accept 0 bytes state = .error error) (final : σ) :
    ∃ held, holds log.device held ∧
      Ending bytes paranoid accept state (.error error) final held log.calls := by
  refine ⟨bytes, hlog.device, ?_⟩
  rcases Frame.verdict_error hverdict with hrefuses | ⟨haccepts, htail⟩
  · exact .refused hlog.calls hrefuses
  · obtain ⟨hparanoid, hdamaged, rfl⟩ := Frame.mismatched_of_tailError htail
    exact .damaged hlog.calls hparanoid haccepts hdamaged

variable [LogDevice δ]

/-- Where a log ends with its last intact frame there is nothing to trim; elsewhere it is
cut there, and each of the two calls that this takes may fail. -/
theorem trim_watched (hfallible : Fallible holds) {log : Watched δ} (hlog : holds log.device bytes)
    {scan : Scan} (htotal : scan.total = bytes.length) :
    (bytes.length ≤ scan.offset ∧ trim scan log = (.ok 0, log)) ∨
    scan.offset < bytes.length ∧
      ((∃ fault device, holds device bytes ∧
        trim scan log =
          (.error (.device fault), ⟨device, log.calls ++ [(.truncate, some fault)]⟩)) ∨
      (∃ fault device, holds device (bytes.take scan.offset) ∧
        trim scan log = (.error (.device fault),
          ⟨device, log.calls ++ [(.truncate, none), (.sync, some fault)]⟩)) ∨
      ∃ device, holds device (bytes.take scan.offset) ∧
        trim scan log = (.ok (bytes.length - scan.offset),
          ⟨device, log.calls ++ [(.truncate, none), (.sync, none)]⟩)) := by
  unfold trim
  rw [htotal]
  by_cases hmore : scan.offset < bytes.length
  · refine .inr ⟨hmore, ?_⟩
    rw [if_pos hmore]
    have htruncate := hfallible.truncate scan.offset hlog (Nat.le_of_lt hmore)
    have hnoted : LogDevice.truncate log scan.offset =
        log.note .truncate (LogDevice.truncate log.device scan.offset) := rfl
    rw [hnoted]
    generalize LogDevice.truncate log.device scan.offset = outcome at htruncate ⊢
    cases htruncate with
    | failed hafter => exact .inl ⟨_, _, hafter, rfl⟩
    | @answered cut hcut =>
      have hsync := hfallible.sync hcut
      have hnoted : LogDevice.sync (⟨cut, log.calls ++ [(.truncate, none)]⟩ : Watched δ) =
          Watched.note ⟨cut, log.calls ++ [(.truncate, none)]⟩ .sync (LogDevice.sync cut) := rfl
      simp only [Watched.note, Watched.fault?] at hnoted ⊢
      rw [hnoted, List.append_assoc]
      generalize LogDevice.sync cut = outcome at hsync ⊢
      cases hsync with
      | failed hafter => exact .inr (.inl ⟨_, _, hafter, rfl⟩)
      | answered hafter => exact .inr (.inr ⟨_, hafter, rfl⟩)
  · rw [if_neg hmore]
    exact .inl ⟨Nat.le_of_not_lt hmore, rfl⟩

/-- A replay that took all the frames is followed by the cut, which ends the recovery. -/
theorem trimmed_ending (hfallible : Fallible holds) {log : Watched δ} (hlog : log.Holds holds bytes)
    (paranoid : Bool) {final : σ} (haccepts : (Frame.ofLog bytes).foldlM accept state = .ok final)
    (scan : Scan) (htotal : scan.total = bytes.length)
    (hoffset : scan.offset = (Frame.encodeAll (Frame.payloads bytes)).length) :
    ∃ held, holds (trim scan log).2.device held ∧
      Ending bytes paranoid accept state
        ((trim scan log).1.map fun discarded => ⟨(Frame.ofLog bytes).length, discarded⟩) final held
        (trim scan log).2.calls := by
  have hsplit := congrArg List.length (Frame.encodeAll_payloads bytes)
  rw [List.length_append] at hsplit
  rcases trim_watched hfallible hlog.device htotal with ⟨hend, htrim⟩ | ⟨hmore, hcut⟩
  · have hnone : Frame.tail bytes = [] := List.eq_nil_of_length_eq_zero (by omega)
    rw [htrim]
    exact ⟨bytes, hlog.device, .whole hlog.calls haccepts hnone⟩
  have hsome : Frame.tail bytes ≠ [] := by
    intro hnone
    rw [hnone, List.length_nil] at hsplit
    omega
  rcases hcut with ⟨fault, device, hheld, htrim⟩ | ⟨fault, device, hheld, htrim⟩ |
    ⟨device, hheld, htrim⟩
  · rw [htrim]
    exact ⟨_, hheld, .uncut hlog.calls haccepts hsome⟩
  · rw [htrim]
    rw [hoffset] at hheld
    exact ⟨_, hheld, .unsynced hlog.calls haccepts hsome⟩
  · rw [htrim]
    rw [hoffset] at hheld ⊢
    exact ⟨_, hheld, .trimmed hlog.calls haccepts hsome⟩

theorem recover_ending (hfallible : Fallible holds) {log : δ} (hlog : holds log bytes)
    (paranoid : Bool) (accept : σ → Frame → Except StoreError σ) (state : σ) :
    let watched := recover (⟨log, []⟩ : Watched δ) paranoid accept state
    ∃ held, holds watched.log.device held ∧
      Ending bytes paranoid accept state watched.result watched.state held watched.log.calls := by
  have hreadable := Watched.readable hfallible
  have hfresh : Watched.Holds holds ⟨log, []⟩ bytes := ⟨hlog, nofun⟩
  unfold recover
  rcases start_cases hreadable hfresh paranoid with
    ⟨fault, after, hstart, hfailed⟩ | ⟨opened, hstart, hopened⟩
  · simp only [hstart]
    exact unreadable_ending hfailed
  rcases Scan.replay_cases hreadable hopened ⟨bytes.length, 0, paranoid, false⟩ rfl rfl accept
    state 0 with ⟨fault, houtcome, hfailed⟩ | ⟨after, hafter, hreached, hreplay⟩
  · simp only [hstart, houtcome]
    exact unreadable_ending hfailed
  simp only [List.drop_zero] at hreplay
  cases hverdict : Frame.verdict paranoid accept 0 bytes state with
  | error error =>
    rw [hverdict] at hreplay
    simp only [hstart, hreplay, hreached]
    exact stopped_ending hafter hverdict _
  | ok final =>
    rw [hverdict] at hreplay
    have hending := trimmed_ending hfallible hafter paranoid (Frame.verdict_ok hverdict).1
      (Scan.atEnd ⟨bytes.length, 0, paranoid, false⟩ bytes) rfl (Nat.zero_add _)
    have hframes : 0 + (Frame.payloads bytes).length = (Frame.ofLog bytes).length := by
      rw [Nat.zero_add, Frame.length_ofLog]
    simp only [hstart, hreplay, hframes]
    rcases htrim : trim (Scan.atEnd ⟨bytes.length, 0, paranoid, false⟩ bytes) after with
      ⟨result, last⟩
    rw [htrim] at hending
    cases result with
    | error error => exact hending
    | ok discarded => exact hending

/-- Whatever log a recovery meets, and whichever of its calls fail without effect: the log
is then what it was, or it is cut behind its last intact frame. The calls before the cut
have only read, so an error of theirs, of the checksum or of the one who takes the frames
leaves the log alone. A recovery that succeeds has handed over all the frames of what it
leaves, in order, and says how many they are and how much was cut off. -/
theorem recovers_whole_or_trimmed (hfallible : Fallible holds) {log : δ} (hlog : holds log bytes)
    (paranoid : Bool) (accept : σ → Frame → Except StoreError σ) (state : σ) :
    let recovered := recover log paranoid accept state
    let watched := recover (⟨log, []⟩ : Watched δ) paranoid accept state
    let validEnd := (Frame.encodeAll (Frame.payloads bytes)).length
    recovered = ⟨watched.result, watched.state, watched.log.device⟩ ∧
    Frame.Tiles (Frame.ofLog bytes) (bytes.take validEnd) ∧
    ∃ held, holds recovered.log held ∧ (held = bytes ∨ held = bytes.take validEnd) ∧
      Ending bytes paranoid accept state recovered.result recovered.state held
        watched.log.calls ∧
      ∀ recovery, recovered.result = .ok recovery →
        held = bytes.take validEnd ∧
          (Frame.ofLog bytes).foldlM accept state = .ok recovered.state ∧
          recovery.frames = (Frame.ofLog bytes).length ∧
          recovery.discarded = bytes.length - held.length := by
  intro recovered watched validEnd
  have hsame : recovered = ⟨watched.result, watched.state, watched.log.device⟩ :=
    recover_forget Watched.forgets (⟨log, []⟩ : Watched δ) paranoid accept state
  have htiles : Frame.Tiles (Frame.ofLog bytes) (bytes.take validEnd) := by
    rw [Frame.take_encodeAll]
    exact Frame.tiles_place _
  obtain ⟨held, hheld, hending⟩ := recover_ending hfallible hlog paranoid accept state
  rw [hsame]
  refine ⟨rfl, htiles, held, hheld, hending.held_cases, hending, fun recovery hok => ?_⟩
  exact Ending.of_ok (hok ▸ hending)

/-- Behind two frames three octets are left over. A log of them whose cut cannot be made
durable is cut nevertheless; one that cannot be read to its end stays as it was. -/
theorem recovers_whole_or_trimmed_torn :
    let bytes := Frame.encode [1, 2] ++ Frame.encode [3] ++ [4, 5, 6]
    let log (operation : LogOperation) (skip : Nat) : Monitored MemoryLog :=
      (Monitored.ofDevice ⟨bytes⟩).plan ⟨operation, skip, 0⟩
    let accept (read : List Bytes) (frame : Frame) : Except StoreError (List Bytes) :=
      .ok (read ++ [frame.payload])
    let unsynced := recover (log .sync 0) true accept []
    let unread := recover (log .readAt 3) true accept []
    (unsynced.result = .error (.device (Monitored.injected .sync)) ∧
      unsynced.log.device.bytes = bytes.take 19 ∧
      Ending bytes true accept [] unsynced.result unsynced.state (bytes.take 19)
        [(.size, none), (.readAt, none), (.readAt, none), (.readAt, none), (.readAt, none),
          (.truncate, none), (.sync, some (Monitored.injected .sync))]) ∧
    unread.result = .error (.device (Monitored.injected .readAt)) ∧ unread.state = [[1, 2]] ∧
      unread.log.device.bytes = bytes ∧
      Ending bytes true accept [] unread.result unread.state bytes
        [(.size, none), (.readAt, none), (.readAt, none), (.readAt, none),
          (.readAt, some (Monitored.injected .readAt))] := by
  intro bytes log accept unsynced unread
  have hfallible := Monitored.fallible MemoryLog.reliable.fallible
  have hunsynced : unsynced.log.device.bytes = bytes.take 19 := by decide +kernel
  have hunread : unread.log.device.bytes = bytes := by decide +kernel
  obtain ⟨-, -, held, hheld, -, hending, -⟩ :=
    recovers_whole_or_trimmed hfallible (rfl : (log .sync 0).device.bytes = bytes) true accept []
  obtain ⟨-, -, kept, hkept, -, hkeeping, -⟩ :=
    recovers_whole_or_trimmed hfallible (rfl : (log .readAt 3).device.bytes = bytes) true accept []
  obtain rfl := hheld.symm.trans hunsynced
  obtain rfl := hkept.symm.trans hunread
  have hcalls : (recover (⟨log .sync 0, []⟩ : Watched (Monitored MemoryLog)) true accept
      []).log.calls = [(.size, none), (.readAt, none), (.readAt, none), (.readAt, none),
        (.readAt, none), (.truncate, none), (.sync, some (Monitored.injected .sync))] := by
    decide +kernel
  have hreads : (recover (⟨log .readAt 3, []⟩ : Watched (Monitored MemoryLog)) true accept
      []).log.calls = [(.size, none), (.readAt, none), (.readAt, none), (.readAt, none),
        (.readAt, some (Monitored.injected .readAt))] := by
    decide +kernel
  rw [hcalls] at hending
  rw [hreads] at hkeeping
  exact ⟨⟨by decide +kernel, hunsynced, hending⟩, by decide +kernel, by decide +kernel, hunread,
    hkeeping⟩

end Journal

end BatchStore
