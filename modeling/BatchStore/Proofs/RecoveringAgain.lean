import BatchStore.Proofs.ReadBack
import BatchStore.Proofs.Reopening

/-!
# Recovering again

What a recovery keeps of a log is whole, whichever mode it ran in and whatever its
callback made of the frames. So a second recovery finds the same frames and
nothing behind them, and even a paranoid reader has nothing to object to. A frame
that lenient opening passed over stays in the log and is passed over again.
-/

namespace BatchStore

open LogDevice (Reliable)

variable {δ σ : Type} [LogDevice δ] {holds : δ → Bytes → Prop} {log : δ} {image : Bytes}

namespace Journal

section Outcome

variable {paranoid : Bool} {accept : σ → Frame → Except StoreError σ} {state : σ}

theorem verdict_of_recover_ok (hreliable : Reliable holds) (hlog : holds log image)
    {recovery : Recovery} (h : (recover log paranoid accept state).result = .ok recovery) :
    ∃ final, Frame.verdict paranoid accept 0 image state = .ok final := by
  cases hverdict : Frame.verdict paranoid accept 0 image state with
  | error error =>
    rw [(recover_error hreliable hlog hverdict).1] at h
    cases h
  | ok final => exact ⟨final, rfl⟩

/-- A recovery that fails leaves the log as it is. -/
theorem holds_of_recover_error (hreliable : Reliable holds) (hlog : holds log image)
    {error : StoreError} (h : (recover log paranoid accept state).result = .error error) :
    holds (recover log paranoid accept state).log image := by
  cases hverdict : Frame.verdict paranoid accept 0 image state with
  | error error => exact (recover_error hreliable hlog hverdict).2
  | ok final =>
    obtain ⟨after, -, hrecover⟩ := recover_ok hreliable hlog hverdict
    rw [hrecover] at h
    cases h

/-- A recovery that succeeds has handed over the intact frames of the log one by
one, and keeps these and nothing else. -/
theorem recover_inverts (hreliable : Reliable holds) (hlog : holds log image)
    {recovery : Recovery} (h : (recover log paranoid accept state).result = .ok recovery) :
    recovery.frames = (Frame.ofLog image).length ∧
      (Frame.ofLog image).foldlM accept state = .ok (recover log paranoid accept state).state ∧
      holds (recover log paranoid accept state).log
        (Frame.encodeAll (Frame.payloads image)) := by
  obtain ⟨final, hverdict⟩ := verdict_of_recover_ok hreliable hlog h
  obtain ⟨after, hafter, hrecover⟩ := recover_ok hreliable hlog hverdict
  rw [hrecover] at h ⊢
  obtain rfl := Except.ok.inj h
  exact ⟨(Frame.length_ofLog image).symm, (Frame.verdict_ok hverdict).1, hafter⟩

end Outcome

/-- Reading a whole log finds its frames, in either mode. -/
theorem readAll_whole (hreliable : Reliable holds) (hlog : holds log image)
    (hwhole : Frame.Whole image) (paranoid : Bool) :
    (readAll log paranoid).1 = .ok (Frame.ofLog image) := by
  obtain ⟨after, -, hread⟩ := readAll_outcome hreliable hlog paranoid
  rw [hread, hwhole.logError]

end Journal

namespace Database

/-- On any log of a device that fails no call, when a database opens in some mode,
then opening what it leaves in that mode succeeds, replays the same frames, cuts
nothing off, leaves the bytes as they are and gives the same latest number and
the same latest reads. And when a recovery succeeds, whatever takes its frames, a
paranoid reader finds exactly these frames in the log. -/
theorem recovering_again (hreliable : Reliable holds) (hlog : holds log image) :
    (∀ {id : Nat} (again : Nat) {settings later : Settings} {db : Database} {opened : δ},
      openLog id settings log = (.ok db, opened) → later.fault? = none →
      later.paranoidChecks = settings.paranoidChecks →
      ∃ (reopened : Database) (frames : List Frame) (discarded : Nat) (kept : Bytes),
        Opens id settings log db frames discarded ∧ holds opened kept ∧
        Opens again later opened reopened frames 0 ∧
        holds (openLog again later opened).2 kept ∧ reopened.last = db.last ∧
        (later.keyOrder = settings.keyOrder →
          ∀ reading : ReadSettings, reading.snapshot = none → db.ReadAlike reopened reading)) ∧
    ∀ {σ : Type} (paranoid : Bool) (accept : σ → Frame → Except StoreError σ) (state : σ)
      (recovery : Journal.Recovery),
      (Journal.recover log paranoid accept state).result = .ok recovery →
      ∃ frames : List Frame, frames.length = recovery.frames ∧
        frames.foldlM accept state = .ok (Journal.recover log paranoid accept state).state ∧
        (Journal.readAll (Journal.recover log paranoid accept state).log true).1 = .ok frames := by
  obtain ⟨hsame, hwhole⟩ := Frame.ofLog_encodeAll_payloads image
  refine ⟨fun {id} again {settings later db opened} hopened hvalid hmode => ?_,
    fun paranoid accept state recovery h => ?_⟩
  · obtain ⟨hfault, hkept, result, hresult, rfl⟩ := of_openLog hreliable hlog hopened
    have hfirst := opens_of_replayed hreliable hlog hfault hresult id
    have hagain : replayed later.paranoidChecks (Frame.encodeAll (Frame.payloads image)) =
        .ok result := by
      rw [hmode]
      exact replayed_whole hwhole (hsame ▸ (Frame.verdict_ok hresult).1)
    have hsecond := opens_of_replayed hreliable hkept hvalid hagain again
    rw [hsame, show Frame.tail _ = [] from hwhole] at hsecond
    obtain ⟨after, hafter, hopen⟩ := openLog_ok hreliable hkept hvalid hagain again
    rw [← hwhole.eq] at hafter
    have hordered := (consistent_replayed hresult).ordered
    refine ⟨_, _, _, _, hfirst, hkept, hsecond, by rw [hopen]; exact hafter, rfl,
      fun horder reading hlatest => ?_⟩
    exact readAlike_of_contents hordered hordered (readSequence_latest rfl hlatest)
      (readSequence_latest rfl hlatest) rfl horder.symm
  · obtain ⟨hframes, hfold, hkept⟩ := Journal.recover_inverts hreliable hlog h
    refine ⟨Frame.ofLog image, hframes.symm, hfold, ?_⟩
    rw [Journal.readAll_whole hreliable hkept hwhole, hsame]

/-- A frame that holds no batch stays in the log and is passed over twice; behind the
frame with a wrong checksum everything is cut off, a good frame too. -/
theorem recovering_again_past_undecodable :
    let good := ((Batch.empty.setSequence 5).put [97] [49]).data
    let undecodable := Batch.data ⟨⟨0, 1⟩, [9]⟩
    let damaged : Bytes := [1, 0, 0, 0, 0, 0, 0, 0, 9]
    let kept := Frame.encodeAll [good, undecodable, good]
    let image := kept ++ damaged ++ Frame.encode good
    let frames : List Frame := [⟨0, good⟩, ⟨25, undecodable⟩, ⟨46, good⟩]
    let lenient : Settings := { paranoidChecks := false }
    let collect (read : List Frame) (frame : Frame) : Except StoreError (List Frame) :=
      .ok (frame :: read)
    (∃ (db reopened : Database) (opened : MemoryLog),
      openLog 0 lenient ⟨image⟩ = (.ok db, opened) ∧ opened.bytes = kept ∧
      Opens 1 lenient opened reopened frames 0 ∧ reopened.last = 5 ∧
      reopened.get {} = db.get {}) ∧
    (Journal.readAll (Journal.recover (⟨image⟩ : MemoryLog) false collect []).log true).1 =
      .ok frames := by
  intro good undecodable damaged kept image frames lenient collect
  have hlog : (⟨image⟩ : MemoryLog).bytes = image := rfl
  have hreplayed : replayed lenient.paranoidChecks image =
      .ok (⟨[([97], [⟨5, some [49]⟩])], 2⟩, 5) := by decide +kernel
  have hframes : Frame.encodeAll (Frame.payloads image) = kept := by decide +kernel
  have hread : (Journal.readAll (⟨image⟩ : MemoryLog) false).1 = .ok frames := by decide +kernel
  have hrecovered : (Journal.recover (⟨image⟩ : MemoryLog) false collect []).result = .ok ⟨3, 34⟩ ∧
      (Journal.recover (⟨image⟩ : MemoryLog) false collect []).state = frames.reverse := by
    decide +kernel
  obtain ⟨opened, hopened, hopen⟩ :=
    openLog_ok MemoryLog.reliable hlog (rfl : lenient.fault? = none) hreplayed 0
  rw [hframes] at hopened
  obtain ⟨hopening, hrecovering⟩ := recovering_again MemoryLog.reliable hlog
  obtain ⟨reopened, found, discarded, bytes, hfirst, -, hsecond, -, hlast, hreads⟩ :=
    hopening 1 hopen (rfl : lenient.fault? = none) rfl
  obtain rfl := Except.ok.inj (hread.symm.trans hfirst.read)
  obtain ⟨taken, -, hfold, hagain⟩ := hrecovering false collect [] _ hrecovered.1
  have htaken : taken = frames := by
    rw [Journal.foldlM_collect, List.append_nil, hrecovered.2] at hfold
    exact List.reverse_injective (Except.ok.inj hfold)
  exact ⟨⟨_, reopened, opened, hopen, hopened, hsecond, hlast, (hreads rfl {} rfl).get.symm⟩,
    htaken ▸ hagain⟩

end Database

end BatchStore
