import BatchStore.Journal.Basic
import BatchStore.Proofs.Device
import BatchStore.Proofs.Frames

/-!
# What a replay finds

On a reliable device a replay takes the intact frames of the log one by one and
then meets the tail. Its outcome is a function of the bytes, the verdict, which
carries over to recovery; there a good verdict trims the tail away.
-/

namespace BatchStore

open LogDevice (Answers Readable Reliable)

namespace Frame

/-- The frames of payloads that stand one behind the other. -/
def place : (offset : Nat) → List Bytes → List Frame
  | _, [] => []
  | offset, payload :: payloads =>
    ⟨offset, payload⟩ :: place (finish ⟨offset, payload⟩) payloads

/-- The intact frames of a log. -/
def ofLog (bytes : Bytes) : List Frame := place 0 (payloads bytes)

/-- The error that a paranoid scan ends with at a damaged frame. -/
def tailError (paranoid : Bool) (offset : Nat) (tail : Bytes) : Option StoreError :=
  match front tail with
  | .damaged stored computed =>
    if paranoid then some (.checksumMismatch offset stored computed) else none
  | .intact .. | .torn => none

/-- What comes of handing the frames that stand from an offset on to `accept`,
and of the tail behind them. -/
def verdict {σ : Type} (paranoid : Bool) (accept : σ → Frame → Except StoreError σ)
    (offset : Nat) (bytes : Bytes) (state : σ) : Except StoreError σ :=
  match (place offset (payloads bytes)).foldlM accept state with
  | .error error => .error error
  | .ok final =>
    match tailError paranoid (offset + (encodeAll (payloads bytes)).length) (tail bytes) with
    | some error => .error error
    | none => .ok final

theorem length_place (offset : Nat) (payloads : List Bytes) :
    (place offset payloads).length = payloads.length := by
  induction payloads generalizing offset with
  | nil => rfl
  | cons payload payloads ih => exact congrArg Nat.succ (ih _)

theorem finish_mk (offset : Nat) (payload : Bytes) :
    finish ⟨offset, payload⟩ = offset + (encode payload).length := by
  rw [length_encode]
  exact Nat.add_assoc _ _ _

theorem place_append (offset : Nat) (first second : List Bytes) :
    place offset (first ++ second) =
      place offset first ++ place (offset + (encodeAll first).length) second := by
  induction first generalizing offset with
  | nil => rfl
  | cons payload first ih =>
    simp only [List.cons_append, place, ih, finish_mk, encodeAll_cons, List.length_append,
      Nat.add_assoc]

theorem map_payload_place (offset : Nat) (payloads : List Bytes) :
    (place offset payloads).map (·.payload) = payloads := by
  induction payloads generalizing offset with
  | nil => rfl
  | cons payload payloads ih => exact congrArg (payload :: ·) (ih _)

theorem length_ofLog (bytes : Bytes) : (ofLog bytes).length = (payloads bytes).length :=
  length_place 0 _

theorem map_payload_ofLog (bytes : Bytes) : (ofLog bytes).map (·.payload) = payloads bytes :=
  map_payload_place 0 _

theorem fits_of_mem_ofLog {bytes : Bytes} {frame : Frame} (h : frame ∈ ofLog bytes) :
    Fits frame.payload := by
  have hmem : frame.payload ∈ payloads bytes := by
    rw [← map_payload_ofLog]
    exact List.mem_map_of_mem h
  exact fits_of_mem hmem

section Verdict

variable {σ : Type} {paranoid : Bool} {accept : σ → Frame → Except StoreError σ} {bytes : Bytes}
  {state final : σ}

/-- A good verdict means that the frames are accepted and the tail is no error. -/
theorem verdict_ok (h : verdict paranoid accept 0 bytes state = .ok final) :
    (ofLog bytes).foldlM accept state = .ok final ∧
      tailError paranoid (encodeAll (payloads bytes)).length (tail bytes) = none := by
  unfold verdict at h
  rw [Nat.zero_add] at h
  unfold ofLog
  split at h
  · cases h
  · next hfold =>
    split at h
    · cases h
    · next htail =>
      cases h
      exact ⟨hfold, htail⟩

theorem verdict_of_fold (hfold : (ofLog bytes).foldlM accept state = .ok final)
    (htail : tailError paranoid (encodeAll (payloads bytes)).length (tail bytes) = none) :
    verdict paranoid accept 0 bytes state = .ok final := by
  unfold ofLog at hfold
  unfold verdict
  rw [hfold, Nat.zero_add, htail]

/-- The first frame is handed over before the verdict on the rest. -/
theorem verdict_of_intact {payload rest : Bytes} (h : front bytes = .intact payload rest)
    (offset : Nat) :
    verdict paranoid accept offset bytes state =
      match accept state ⟨offset, payload⟩ with
      | .error error => .error error
      | .ok next => verdict paranoid accept (finish ⟨offset, payload⟩) rest next := by
  obtain ⟨hpayloads, htail⟩ := parse_intact h
  unfold verdict
  rw [hpayloads, htail, encodeAll_cons, List.length_append, ← Nat.add_assoc, ← finish_mk]
  simp only [place, List.foldlM_cons]
  cases accept state ⟨offset, payload⟩ <;> rfl

/-- Without a frame the verdict is one on the tail. -/
theorem verdict_of_not_intact (h : ∀ payload rest, front bytes ≠ .intact payload rest)
    (offset : Nat) :
    verdict paranoid accept offset bytes state =
      match tailError paranoid offset bytes with
      | some error => .error error
      | none => .ok state := by
  obtain ⟨hpayloads, htail⟩ := parse_of_not_intact h
  unfold verdict
  rw [hpayloads, htail]
  rfl

end Verdict

end Frame

namespace Scan

variable {δ σ : Type} [LogDevice δ]

theorem replay_end {scan later : Scan} {log after : δ} (h : scan.next log = (none, later, after))
    (accept : σ → Frame → Except StoreError σ) (state : σ) (frames : Nat) :
    scan.replay log accept state frames = ⟨.ok (), state, frames, later, after⟩ := by
  rw [replay]
  split <;> simp_all

theorem replay_error {scan later : Scan} {log after : δ} {error : StoreError}
    (h : scan.next log = (some (.error error), later, after))
    (accept : σ → Frame → Except StoreError σ) (state : σ) (frames : Nat) :
    scan.replay log accept state frames = ⟨.error error, state, frames, later, after⟩ := by
  rw [replay]
  split <;> simp_all

theorem replay_frame {scan later : Scan} {log after : δ} {frame : Frame}
    (h : scan.next log = (some (.ok frame), later, after))
    (accept : σ → Frame → Except StoreError σ) (state : σ) (frames : Nat) :
    scan.replay log accept state frames =
      match accept state frame with
      | .error error => ⟨.error error, state, frames, later, after⟩
      | .ok state => later.replay after accept state (frames + 1) := by
  rw [replay]
  split
  · next hnext =>
    rw [h] at hnext
    cases hnext
  · next hnext =>
    rw [h] at hnext
    cases hnext
  · next hnext =>
    rw [h] at hnext
    cases hnext
    cases accept state frame <;> rfl

/-- What a scan reads at its offset, by what the rest of the log begins with. -/
def found (scan : Scan) : Frame.Front → Except StoreError (Option Frame)
  | .intact payload _ => .ok (some ⟨scan.offset, payload⟩)
  | .damaged stored computed =>
    if scan.paranoid then .error (.checksumMismatch scan.offset stored computed) else .ok none
  | .torn => .ok none

theorem found_of_not_intact {rest : Bytes}
    (h : ∀ payload later, Frame.front rest ≠ .intact payload later) (scan : Scan) :
    scan.found (Frame.front rest) =
      match Frame.tailError scan.paranoid scan.offset rest with
      | some error => .error error
      | none => .ok none := by
  unfold Frame.tailError
  cases hfront : Frame.front rest with
  | intact payload later => exact absurd hfront (h payload later)
  | torn => rfl
  | damaged stored computed =>
    unfold found
    cases scan.paranoid <;> rfl

section Reading

variable {holds : δ → Bytes → Prop} {failed : Bytes → DeviceError → δ → Prop} {log : δ}
  {bytes : Bytes}

/-- A frame is read as the log has it, unless a reading call fails. -/
theorem readFrame_cases (hreadable : Readable holds failed) (hlog : holds log bytes) {scan : Scan}
    (htotal : scan.total = bytes.length) :
    (∃ fault after, scan.readFrame log = (.error (.device fault), after) ∧
      failed bytes fault after) ∨
    ∃ after, scan.readFrame log = (scan.found (Frame.front (bytes.drop scan.offset)), after) ∧
      holds after bytes := by
  unfold readFrame Frame.front
  rw [List.length_drop, htotal]
  by_cases hshort : bytes.length - scan.offset < Frame.headerSize
  · simp only [if_pos hshort]
    exact .inr ⟨log, rfl, hlog⟩
  have hhead : scan.offset + Frame.headerSize ≤ bytes.length := by
    unfold Frame.headerSize at hshort ⊢
    omega
  simp only [if_neg hshort]
  have hheader := hreadable.readAt scan.offset Frame.headerSize hlog hhead
  generalize LogDevice.readAt log scan.offset Frame.headerSize = outcome at hheader ⊢
  cases hheader with
  | failed hfault => exact .inl ⟨_, _, rfl, hfault⟩
  | @answered log' hlog' =>
  simp only
  rcases hheader : Frame.decodeHeader ((bytes.drop scan.offset).take Frame.headerSize) with
    ⟨length, stored⟩
  have hbody : ((bytes.drop scan.offset).drop Frame.headerSize).length =
      bytes.length - scan.offset - Frame.headerSize := by
    rw [List.length_drop, List.length_drop]
  simp only [hbody]
  by_cases hpast : bytes.length - scan.offset - Frame.headerSize < length
  · simp only [if_pos hpast]
    exact .inr ⟨log', rfl, hlog'⟩
  have hfull : scan.offset + Frame.headerSize + length ≤ bytes.length := by omega
  simp only [if_neg hpast]
  have hpayload := hreadable.readAt (scan.offset + Frame.headerSize) length hlog' hfull
  rw [← List.drop_drop] at hpayload
  generalize LogDevice.readAt log' (scan.offset + Frame.headerSize) length = outcome at hpayload ⊢
  cases hpayload with
  | failed hfault => exact .inl ⟨_, _, rfl, hfault⟩
  | @answered after hafter =>
    refine .inr ⟨after, ?_, hafter⟩
    unfold check
    simp only
    split <;> rfl

theorem next_cases (hreadable : Readable holds failed) (hlog : holds log bytes) {scan : Scan}
    (htotal : scan.total = bytes.length) (hrunning : scan.finished = false) :
    (∃ fault after, failed bytes fault after ∧
      scan.next log = (some (.error (.device fault)), { scan with finished := true }, after)) ∨
    ∃ after, holds after bytes ∧
      scan.next log = match scan.found (Frame.front (bytes.drop scan.offset)) with
        | .ok (some frame) => (some (.ok frame), { scan with offset := frame.finish }, after)
        | .ok none => (none, { scan with finished := true }, after)
        | .error error => (some (.error error), { scan with finished := true }, after) := by
  unfold next
  rw [hrunning]
  simp only [Bool.false_eq_true, if_false]
  rcases readFrame_cases hreadable hlog htotal with
    ⟨fault, after, hread, hfault⟩ | ⟨after, hread, hafter⟩
  · rw [hread]
    exact .inl ⟨fault, after, hfault, rfl⟩
  · refine .inr ⟨after, hafter, ?_⟩
    rw [hread]
    split <;> simp_all

theorem next_eq (hreliable : Reliable holds) (hlog : holds log bytes) {scan : Scan}
    (htotal : scan.total = bytes.length) (hrunning : scan.finished = false) :
    ∃ after, holds after bytes ∧
      scan.next log = match scan.found (Frame.front (bytes.drop scan.offset)) with
        | .ok (some frame) => (some (.ok frame), { scan with offset := frame.finish }, after)
        | .ok none => (none, { scan with finished := true }, after)
        | .error error => (some (.error error), { scan with finished := true }, after) :=
  (next_cases hreliable.readable hlog htotal hrunning).resolve_left fun ⟨_, _, hfault, _⟩ => hfault

end Reading

/-- The scan behind the last intact frame. -/
def atEnd (scan : Scan) (bytes : Bytes) : Scan :=
  { scan with
    offset := scan.offset + (Frame.encodeAll (Frame.payloads (bytes.drop scan.offset))).length
    finished := true }

/-- A frame on the way does not move the end. -/
theorem atEnd_of_intact {scan : Scan} {bytes payload rest : Bytes}
    (hfront : Frame.front (bytes.drop scan.offset) = .intact payload rest)
    (hrest : bytes.drop (Frame.finish ⟨scan.offset, payload⟩) = rest) :
    atEnd { scan with offset := Frame.finish ⟨scan.offset, payload⟩ } bytes = scan.atEnd bytes := by
  unfold atEnd
  simp only [hrest]
  rw [(Frame.parse_intact hfront).1, Frame.encodeAll_cons, List.length_append, ← Nat.add_assoc,
    ← Frame.finish_mk]

/-- A replay comes to the verdict on the rest of the log, unless a reading call fails.
When the verdict is good it has taken all the frames and stands behind the last. -/
theorem replay_cases {holds : δ → Bytes → Prop} {failed : Bytes → DeviceError → δ → Prop}
    (hreadable : Readable holds failed) {log : δ} {bytes : Bytes} (hlog : holds log bytes)
    (scan : Scan) (htotal : scan.total = bytes.length) (hrunning : scan.finished = false)
    (accept : σ → Frame → Except StoreError σ) (state : σ) (frames : Nat) :
    (∃ fault, (scan.replay log accept state frames).outcome = .error (.device fault) ∧
      failed bytes fault (scan.replay log accept state frames).log) ∨
    ∃ after, holds after bytes ∧ (scan.replay log accept state frames).log = after ∧
      match Frame.verdict scan.paranoid accept scan.offset (bytes.drop scan.offset) state with
      | .error error => (scan.replay log accept state frames).outcome = .error error
      | .ok final =>
        scan.replay log accept state frames =
          ⟨.ok (), final, frames + (Frame.payloads (bytes.drop scan.offset)).length,
            scan.atEnd bytes, after⟩ := by
  -- every frame brings the scan nearer to the end of the log
  induction hn : bytes.length - scan.offset using Nat.strongRecOn
    generalizing scan log state frames with
  | ind n ih =>
    rcases next_cases hreadable hlog htotal hrunning with
      ⟨fault, after, hfault, hnext⟩ | ⟨after, hafter, hnext⟩
    · rw [replay_error hnext]
      exact .inl ⟨fault, rfl, hfault⟩
    rcases Frame.front_cases (bytes.drop scan.offset) with ⟨payload, rest, hfront⟩ | hnone
    · rw [hfront] at hnext
      simp only [found] at hnext
      rw [Frame.verdict_of_intact hfront, replay_frame hnext]
      cases haccept : accept state ⟨scan.offset, payload⟩ with
      | error error => exact .inr ⟨after, hafter, rfl, rfl⟩
      | ok next =>
        have hrest : bytes.drop (Frame.finish ⟨scan.offset, payload⟩) = rest := by
          rw [Frame.finish_mk, ← List.drop_drop, (Frame.front_eq_intact hfront).2, List.drop_left]
        have hnear := Frame.length_lt_of_front hfront
        rw [← hrest, List.length_drop, List.length_drop] at hnear
        have hlater := ih _ (hn ▸ hnear) hafter
          { scan with offset := Frame.finish ⟨scan.offset, payload⟩ } htotal hrunning
          next (frames + 1) rfl
        simp only [hrest, atEnd_of_intact hfront hrest] at hlater
        rw [(Frame.parse_intact hfront).1, List.length_cons,
          Nat.add_comm (Frame.payloads rest).length 1, ← Nat.add_assoc]
        exact hlater
    · right
      rw [found_of_not_intact hnone] at hnext
      have hend : scan.atEnd bytes = { scan with finished := true } := by
        unfold atEnd
        rw [(Frame.parse_of_not_intact hnone).1]
        rfl
      rw [Frame.verdict_of_not_intact hnone, (Frame.parse_of_not_intact hnone).1, hend]
      cases htail : Frame.tailError scan.paranoid scan.offset (bytes.drop scan.offset) with
      | some error =>
        rw [htail] at hnext
        rw [replay_error hnext]
        exact ⟨after, hafter, rfl, rfl⟩
      | none =>
        rw [htail] at hnext
        rw [replay_end hnext]
        exact ⟨after, hafter, rfl, rfl⟩

theorem replay_eq {holds : δ → Bytes → Prop} (hreliable : Reliable holds) {log : δ} {bytes : Bytes}
    (hlog : holds log bytes) (scan : Scan) (htotal : scan.total = bytes.length)
    (hrunning : scan.finished = false) (accept : σ → Frame → Except StoreError σ) (state : σ)
    (frames : Nat) :
    ∃ after, holds after bytes ∧ (scan.replay log accept state frames).log = after ∧
      match Frame.verdict scan.paranoid accept scan.offset (bytes.drop scan.offset) state with
      | .error error => (scan.replay log accept state frames).outcome = .error error
      | .ok final =>
        scan.replay log accept state frames =
          ⟨.ok (), final, frames + (Frame.payloads (bytes.drop scan.offset)).length,
            scan.atEnd bytes, after⟩ :=
  (replay_cases hreliable.readable hlog scan htotal hrunning accept state frames).resolve_left
    fun ⟨_, _, hfault⟩ => hfault

end Scan

namespace Journal

variable {δ σ : Type} [LogDevice δ] {holds : δ → Bytes → Prop} {log : δ} {bytes : Bytes}

/-- A scan learns the size of the log, unless asking for it fails. -/
theorem start_cases {failed : Bytes → DeviceError → δ → Prop} (hreadable : Readable holds failed)
    (hlog : holds log bytes) (paranoid : Bool) :
    (∃ fault after, Scan.start log paranoid = (.error (.device fault), after) ∧
      failed bytes fault after) ∨
    ∃ after, Scan.start log paranoid = (.ok ⟨bytes.length, 0, paranoid, false⟩, after) ∧
      holds after bytes := by
  have hsize := hreadable.size hlog
  unfold Scan.start
  generalize LogDevice.size log = outcome at hsize ⊢
  cases hsize with
  | failed hfault => exact .inl ⟨_, _, rfl, hfault⟩
  | answered hafter => exact .inr ⟨_, rfl, hafter⟩

theorem start_eq (hreliable : Reliable holds) (hlog : holds log bytes) (paranoid : Bool) :
    ∃ after, Scan.start log paranoid = (.ok ⟨bytes.length, 0, paranoid, false⟩, after) ∧
      holds after bytes :=
  (start_cases hreliable.readable hlog paranoid).resolve_left fun ⟨_, _, _, hfault⟩ => hfault

theorem foldlM_collect (frames read : List Frame) :
    frames.foldlM (fun read frame => (.ok (frame :: read) : Except StoreError (List Frame))) read =
      .ok (frames.reverse ++ read) := by
  induction frames generalizing read with
  | nil => rfl
  | cons frame frames ih =>
    rw [List.foldlM_cons, List.reverse_cons, List.append_assoc]
    exact ih (frame :: read)

/-- Reading all frames finds those of the log, unless the tail is an error. -/
theorem readAll_eq (hreliable : Reliable holds) (hlog : holds log bytes) (paranoid : Bool) :
    (readAll log paranoid).1 =
      match Frame.tailError paranoid (Frame.encodeAll (Frame.payloads bytes)).length
        (Frame.tail bytes) with
      | some error => .error error
      | none => .ok (Frame.ofLog bytes) := by
  obtain ⟨log', hstart, hlog'⟩ := start_eq hreliable hlog paranoid
  obtain ⟨after, hafter, -, hreplay⟩ := Scan.replay_eq hreliable hlog'
    ⟨bytes.length, 0, paranoid, false⟩ rfl rfl
    (fun read frame => .ok (frame :: read)) [] 0
  unfold readAll
  rw [hstart]
  unfold Frame.verdict at hreplay
  simp only [List.drop_zero, foldlM_collect, List.append_nil, Nat.zero_add] at hreplay ⊢
  cases htail : Frame.tailError paranoid (Frame.encodeAll (Frame.payloads bytes)).length
    (Frame.tail bytes) with
  | some error =>
    simp only [htail] at hreplay
    rw [hreplay]
    rfl
  | none =>
    simp only [htail] at hreplay
    rw [hreplay]
    simp only [Except.map, List.reverse_reverse]
    rfl

theorem trim_eq (hreliable : Reliable holds) (hlog : holds log bytes) (scan : Scan)
    (htotal : scan.total = bytes.length)
    (hoffset : scan.offset = (Frame.encodeAll (Frame.payloads bytes)).length) :
    ∃ after, trim scan log = (.ok (Frame.tail bytes).length, after) ∧
      holds after (Frame.encodeAll (Frame.payloads bytes)) := by
  have hsplit := Frame.encodeAll_payloads bytes
  have hlength : (Frame.encodeAll (Frame.payloads bytes)).length + (Frame.tail bytes).length =
      bytes.length := by
    rw [← List.length_append, hsplit]
  unfold trim
  rw [htotal, hoffset]
  by_cases hmore : (Frame.encodeAll (Frame.payloads bytes)).length < bytes.length
  · have hkept : bytes.take (Frame.encodeAll (Frame.payloads bytes)).length =
        Frame.encodeAll (Frame.payloads bytes) := by
      conv => lhs; arg 2; rw [← hsplit]
      exact List.take_left
    obtain ⟨log', htruncate, hlog'⟩ := hreliable.truncate _ hlog (Nat.le_of_lt hmore)
    obtain ⟨after, hsync, hafter⟩ := hreliable.sync hlog'
    rw [hkept] at hafter
    simp only [if_pos hmore, htruncate, hsync]
    refine ⟨after, ?_, hafter⟩
    rw [← hlength, Nat.add_sub_cancel_left]
  · have hnone : (Frame.tail bytes).length = 0 := by omega
    have htail : Frame.tail bytes = [] := List.eq_nil_of_length_eq_zero hnone
    rw [htail, List.append_nil] at hsplit
    rw [if_neg hmore, hnone, hsplit]
    exact ⟨log, rfl, hlog⟩

/-- Recovery with a good verdict keeps the intact frames of the log. -/
theorem recover_ok (hreliable : Reliable holds) (hlog : holds log bytes) {paranoid : Bool}
    {accept : σ → Frame → Except StoreError σ} {state final : σ}
    (h : Frame.verdict paranoid accept 0 bytes state = .ok final) :
    ∃ after, holds after (Frame.encodeAll (Frame.payloads bytes)) ∧
      recover log paranoid accept state =
        ⟨.ok ⟨(Frame.payloads bytes).length, (Frame.tail bytes).length⟩, final, after⟩ := by
  obtain ⟨log', hstart, hlog'⟩ := start_eq hreliable hlog paranoid
  obtain ⟨log'', hlog'', -, hreplay⟩ := Scan.replay_eq hreliable hlog'
    ⟨bytes.length, 0, paranoid, false⟩ rfl rfl accept state 0
  simp only [List.drop_zero, h] at hreplay
  obtain ⟨after, htrim, hafter⟩ := trim_eq hreliable hlog''
    (Scan.atEnd ⟨bytes.length, 0, paranoid, false⟩ bytes) rfl (Nat.zero_add _)
  refine ⟨after, hafter, ?_⟩
  unfold recover
  rw [hstart]
  simp only [hreplay, htrim, Nat.zero_add]

/-- Recovery with a bad verdict leaves the log as it was. -/
theorem recover_error (hreliable : Reliable holds) (hlog : holds log bytes) {paranoid : Bool}
    {accept : σ → Frame → Except StoreError σ} {state : σ} {error : StoreError}
    (h : Frame.verdict paranoid accept 0 bytes state = .error error) :
    (recover log paranoid accept state).result = .error error ∧
      holds (recover log paranoid accept state).log bytes := by
  obtain ⟨log', hstart, hlog'⟩ := start_eq hreliable hlog paranoid
  obtain ⟨log'', hlog'', hafter, hreplay⟩ := Scan.replay_eq hreliable hlog'
    ⟨bytes.length, 0, paranoid, false⟩ rfl rfl accept state 0
  simp only [List.drop_zero, h] at hreplay
  unfold recover
  rw [hstart]
  simp only [hreplay, hafter]
  exact ⟨trivial, hlog''⟩

end Journal

end BatchStore
