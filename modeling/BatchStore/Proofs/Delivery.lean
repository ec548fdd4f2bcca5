import BatchStore.Proofs.Scanning

/-!
# What is delivered

A callback that refuses no frame is handed every intact frame of the log, also
when the tail turns out to be an error. Recovery then reports their number and the
length of the tail that it cut off, or the error of the tail, and reading all
frames comes to the same frames or to the same error.
-/

namespace BatchStore

open LogDevice (Reliable)

variable {δ σ : Type} [LogDevice δ] {holds : δ → Bytes → Prop} {log : δ} {bytes : Bytes}

/-- A callback that takes every frame. -/
def accepting (take : σ → Frame → σ) (state : σ) (frame : Frame) : Except StoreError σ :=
  .ok (take state frame)

theorem foldlM_accepting (take : σ → Frame → σ) (frames : List Frame) (state : σ) :
    frames.foldlM (accepting take) state = .ok (frames.foldl take state) := by
  induction frames generalizing state with
  | nil => rfl
  | cons frame frames ih =>
    rw [List.foldlM_cons]
    exact ih (take state frame)

/-- The error of the tail behind the intact frames of a log, if it is one. -/
def Frame.logError (paranoid : Bool) (bytes : Bytes) : Option StoreError :=
  tailError paranoid (encodeAll (payloads bytes)).length (tail bytes)

/-- The callback has taken all the intact frames when the replay ends or fails. -/
theorem Scan.state_replay (hreliable : Reliable holds) (hlog : holds log bytes) (scan : Scan)
    (htotal : scan.total = bytes.length) (hrunning : scan.finished = false)
    (take : σ → Frame → σ) (state : σ) (frames : Nat) :
    (scan.replay log (accepting take) state frames).state =
      (Frame.place scan.offset (Frame.payloads (bytes.drop scan.offset))).foldl take state := by
  -- every frame brings the scan nearer to the end of the log
  induction hn : bytes.length - scan.offset using Nat.strongRecOn
    generalizing scan log state frames with
  | ind n ih =>
    subst hn
    rcases Frame.front_cases (bytes.drop scan.offset) with ⟨payload, rest, hfront⟩ | hnone
    · obtain ⟨later, hlater, hnext⟩ := next_intact hreliable hlog htotal hrunning hfront
      have hrest : bytes.drop (Frame.finish ⟨scan.offset, payload⟩) = rest := by
        rw [Frame.finish_mk, ← List.drop_drop, (Frame.front_eq_intact hfront).2, List.drop_left]
      have hnear := Frame.length_lt_of_front hfront
      rw [← hrest, List.length_drop, List.length_drop] at hnear
      have hrun := ih _ hnear hlater { scan with offset := Frame.finish ⟨scan.offset, payload⟩ }
        htotal hrunning (take state ⟨scan.offset, payload⟩) (frames + 1) rfl
      rw [replay_frame hnext, (Frame.parse_intact hfront).1]
      simp only [hrest] at hrun
      exact hrun
    · obtain ⟨later, -, hnext⟩ := next_not_intact hreliable hlog htotal hrunning hnone
      rw [(Frame.parse_of_not_intact hnone).1]
      cases htail : Frame.tailError scan.paranoid scan.offset (bytes.drop scan.offset) with
      | some error =>
        rw [htail] at hnext
        rw [replay_error hnext]
        rfl
      | none =>
        rw [htail] at hnext
        rw [replay_end hnext]
        rfl

namespace Journal

/-- However recovery ends, the callback has taken all the intact frames. -/
theorem state_recover (hreliable : Reliable holds) (hlog : holds log bytes) (paranoid : Bool)
    (take : σ → Frame → σ) (state : σ) :
    (recover log paranoid (accepting take) state).state =
      (Frame.ofLog bytes).foldl take state := by
  obtain ⟨log', hstart, hlog'⟩ := start_eq hreliable hlog paranoid
  have hstate := Scan.state_replay hreliable hlog' ⟨bytes.length, 0, paranoid, false⟩ rfl rfl
    take state 0
  unfold recover
  rw [hstart]
  simp only
  split
  · exact hstate
  · split <;> exact hstate

theorem recover_accepting_ok (hreliable : Reliable holds) (hlog : holds log bytes)
    {paranoid : Bool} (h : Frame.logError paranoid bytes = none) (take : σ → Frame → σ)
    (state : σ) :
    ∃ after, holds after (Frame.encodeAll (Frame.payloads bytes)) ∧
      recover log paranoid (accepting take) state =
        ⟨.ok ⟨(Frame.ofLog bytes).length, (Frame.tail bytes).length⟩,
          (Frame.ofLog bytes).foldl take state, after⟩ := by
  have hverdict := Frame.verdict_of_fold (foldlM_accepting take (Frame.ofLog bytes) state) h
  rw [Frame.length_ofLog]
  exact recover_ok hreliable hlog hverdict

theorem recover_accepting_error (hreliable : Reliable holds) (hlog : holds log bytes)
    {paranoid : Bool} {error : StoreError} (h : Frame.logError paranoid bytes = some error)
    (take : σ → Frame → σ) (state : σ) :
    ∃ after, holds after bytes ∧
      recover log paranoid (accepting take) state =
        ⟨.error error, (Frame.ofLog bytes).foldl take state, after⟩ := by
  have hverdict : Frame.verdict paranoid (accepting take) 0 bytes state = .error error := by
    have hfold := foldlM_accepting take (Frame.ofLog bytes) state
    unfold Frame.ofLog at hfold
    unfold Frame.logError at h
    unfold Frame.verdict
    rw [hfold, Nat.zero_add, h]
  obtain ⟨hresult, hafter⟩ := recover_error hreliable hlog hverdict
  refine ⟨_, hafter, ?_⟩
  rw [← hresult, ← state_recover hreliable hlog paranoid take state]

/-- Reading all frames leaves the log as it is. -/
theorem readAll_outcome (hreliable : Reliable holds) (hlog : holds log bytes) (paranoid : Bool) :
    ∃ after, holds after bytes ∧
      readAll log paranoid =
        (match Frame.logError paranoid bytes with
          | some error => .error error
          | none => .ok (Frame.ofLog bytes), after) := by
  obtain ⟨log', hstart, hlog'⟩ := start_eq hreliable hlog paranoid
  obtain ⟨after, hafter, hreplay, -⟩ := Scan.replay_eq hreliable hlog'
    ⟨bytes.length, 0, paranoid, false⟩ rfl rfl
    (fun read frame => .ok (frame :: read)) ([] : List Frame) 0
  have hlater : (readAll log paranoid).2 = after := by
    unfold readAll
    rw [hstart]
    exact hreplay
  exact ⟨after, hafter, Prod.ext (readAll_eq hreliable hlog paranoid) hlater⟩

end Journal

end BatchStore
