import BatchStore.Proofs.Delivery
import BatchStore.Proofs.Logging

/-!
# Reading back what was appended

Payloads are appended to an empty log on a reliable device, with reading, recovery
and the other calls in between in any order. At any time reading and recovery come
to exactly the frames appended so far, each at the offset that its append returned,
and that is the size of the log just before.
-/

namespace BatchStore

open LogDevice (Reliable)

namespace Frame

/-- The size of a log that consists of these frames. -/
def totalSize : List Frame → Nat
  | [] => 0
  | frame :: frames => headerSize + frame.payload.length + totalSize frames

theorem totalSize_place (offset : Nat) (payloads : List Bytes) :
    totalSize (place offset payloads) = (encodeAll payloads).length := by
  induction payloads generalizing offset with
  | nil => rfl
  | cons payload payloads ih =>
    rw [place, totalSize, ih, encodeAll_cons, List.length_append, length_encode]

theorem Whole.logError {bytes : Bytes} (h : Whole bytes) (paranoid : Bool) :
    logError paranoid bytes = none := by
  unfold Frame.logError
  rw [h]
  rfl

end Frame

namespace Journal

variable {δ : Type} [LogDevice δ] {holds : δ → Bytes → Prop} {log : δ}

/-- A call made on a journal. The callback of a recovery refuses no frame. -/
inductive Call : Type 1 where
  | append (payload : Bytes) (durable : Bool)
  | readAll (paranoid : Bool)
  | size
  | flush
  | sync
  | recover (paranoid : Bool) {σ : Type} (take : σ → Frame → σ) (state : σ)

/-- The payload that a call appends. -/
def Call.payload? : Call → Option Bytes
  | append payload _ => some payload
  | readAll _ | size | flush | sync | recover .. => none

/-- Makes a call: the frame that it appends, at the offset that it returns, and the
log after it. -/
def Call.make (log : δ) : Call → Option Frame × δ
  | append payload durable =>
    let (result, after) := Journal.append log payload durable
    (result.toOption.map fun offset => ⟨offset, payload⟩, after)
  | readAll paranoid => (none, (Journal.readAll log paranoid).2)
  | size => (none, (Journal.size log).2)
  | flush => (none, (Journal.flush log).2)
  | sync => (none, (Journal.sync log).2)
  | recover paranoid take state =>
    (none, (Journal.recover log paranoid (accepting take) state).log)

/-- Makes calls one after the other: the frames they append and the log after
them. -/
def run (log : δ) : List Call → List Frame × δ
  | [] => ([], log)
  | call :: calls =>
    let (frame, after) := call.make log
    let (frames, last) := run after calls
    (frame.toList ++ frames, last)

/-- The payloads that calls append, in order. -/
def appended (calls : List Call) : List Bytes := calls.filterMap Call.payload?

/-- What a journal answers when these frames have been appended to it and its log
holds these bytes. -/
structure Answers (holds : δ → Bytes → Prop) (log : δ) (bytes : Bytes) (frames : List Frame) :
    Prop where
  size : ∃ after, holds after bytes ∧ Journal.size log = (.ok (Frame.totalSize frames), after)
  flush : ∃ after, holds after bytes ∧ Journal.flush log = (.ok (), after)
  sync : ∃ after, holds after bytes ∧ Journal.sync log = (.ok (), after)
  append : ∀ (payload : Bytes) (durable : Bool), Frame.Fits payload →
    ∃ after, holds after (bytes ++ Frame.encode payload) ∧
      Journal.append log payload durable = (.ok (Frame.totalSize frames), after)
  readAll : ∀ paranoid, ∃ after, holds after bytes ∧
    Journal.readAll log paranoid = (.ok frames, after)
  recover : ∀ (paranoid : Bool) {σ : Type} (take : σ → Frame → σ) (state : σ),
    ∃ after, holds after bytes ∧
      Journal.recover log paranoid (accepting take) state =
        ⟨.ok ⟨frames.length, 0⟩, frames.foldl take state, after⟩

theorem answers_encodeAll (hreliable : Reliable holds) {payloads : List Bytes}
    (hfits : ∀ payload ∈ payloads, Frame.Fits payload)
    (hlog : holds log (Frame.encodeAll payloads)) :
    Answers holds log (Frame.encodeAll payloads) (Frame.place 0 payloads) := by
  have hwhole := Frame.whole_encodeAll hfits
  have hpayloads := Frame.payloads_encodeAll hfits
  have hframes : Frame.ofLog (Frame.encodeAll payloads) = Frame.place 0 payloads := by
    rw [Frame.ofLog, hpayloads]
  constructor
  · obtain ⟨after, hsize, hafter⟩ := hreliable.size hlog
    refine ⟨after, hafter, ?_⟩
    rw [Journal.size, hsize, Frame.totalSize_place]
    rfl
  · obtain ⟨after, hflush, hafter⟩ := hreliable.flush hlog
    refine ⟨after, hafter, ?_⟩
    rw [Journal.flush, hflush]
    rfl
  · obtain ⟨after, hsync, hafter⟩ := hreliable.sync hlog
    refine ⟨after, hafter, ?_⟩
    rw [Journal.sync, hsync]
    rfl
  · intro payload durable hpayload
    obtain ⟨after, happend, hafter⟩ := append_reliable hreliable hlog hpayload durable
    refine ⟨after, hafter, ?_⟩
    rw [happend, Frame.totalSize_place]
  · intro paranoid
    obtain ⟨after, hafter, hread⟩ := readAll_outcome hreliable hlog paranoid
    refine ⟨after, hafter, ?_⟩
    rw [hread, hwhole.logError, hframes]
  · intro paranoid σ take state
    obtain ⟨after, hafter, hrecover⟩ :=
      recover_accepting_ok hreliable hlog (hwhole.logError paranoid) take state
    rw [hpayloads] at hafter
    refine ⟨after, hafter, ?_⟩
    rw [hrecover, hframes, hwhole]
    rfl

theorem Call.eq_append {call : Call} {payload : Bytes} (h : call.payload? = some payload) :
    ∃ durable, call = .append payload durable := by
  cases call with
  | append payload durable =>
    cases h
    exact ⟨durable, rfl⟩
  | readAll | size | flush | sync | recover => cases h

section Step

variable {bytes : Bytes} {frames : List Frame}

/-- A call without a payload leaves the log as it is. -/
theorem Answers.make_rests (h : Answers holds log bytes frames) {call : Call}
    (hpayload : call.payload? = none) :
    ∃ after, holds after bytes ∧ call.make log = (none, after) := by
  cases call with
  | append payload durable => cases hpayload
  | readAll paranoid =>
    obtain ⟨after, hafter, hread⟩ := h.readAll paranoid
    exact ⟨after, hafter, by rw [Call.make, hread]⟩
  | size =>
    obtain ⟨after, hafter, hsize⟩ := h.size
    exact ⟨after, hafter, by rw [Call.make, hsize]⟩
  | flush =>
    obtain ⟨after, hafter, hflush⟩ := h.flush
    exact ⟨after, hafter, by rw [Call.make, hflush]⟩
  | sync =>
    obtain ⟨after, hafter, hsync⟩ := h.sync
    exact ⟨after, hafter, by rw [Call.make, hsync]⟩
  | recover paranoid take state =>
    obtain ⟨after, hafter, hrecover⟩ := h.recover paranoid take state
    exact ⟨after, hafter, by rw [Call.make, hrecover]⟩

theorem Answers.make_append (h : Answers holds log bytes frames) {payload : Bytes}
    (hfits : Frame.Fits payload) (durable : Bool) :
    ∃ after, holds after (bytes ++ Frame.encode payload) ∧
      (Call.append payload durable).make log =
        (some ⟨Frame.totalSize frames, payload⟩, after) := by
  obtain ⟨after, hafter, happend⟩ := h.append payload durable hfits
  refine ⟨after, hafter, ?_⟩
  rw [Call.make, happend]
  rfl

end Step

/-- A call appends its payload, if it has one, behind the others, and nothing else. -/
theorem make_encodeAll (hreliable : Reliable holds) {payloads : List Bytes}
    (hfits : ∀ payload ∈ payloads, Frame.Fits payload)
    (hlog : holds log (Frame.encodeAll payloads)) (call : Call)
    (hcall : ∀ payload ∈ call.payload?, Frame.Fits payload) :
    (call.make log).1 =
        call.payload?.map (fun payload => ⟨(Frame.encodeAll payloads).length, payload⟩) ∧
      holds (call.make log).2 (Frame.encodeAll (payloads ++ call.payload?.toList)) := by
  have hanswers := answers_encodeAll hreliable hfits hlog
  cases hpayload : call.payload? with
  | none =>
    obtain ⟨after, hafter, hmake⟩ := hanswers.make_rests hpayload
    rw [hmake, Option.toList_none, List.append_nil]
    exact ⟨rfl, hafter⟩
  | some payload =>
    obtain ⟨durable, rfl⟩ := Call.eq_append hpayload
    obtain ⟨after, hafter, hmake⟩ := hanswers.make_append (hcall payload rfl) durable
    rw [hmake, Frame.totalSize_place, Option.toList_some, Frame.encodeAll_append,
      Frame.encodeAll_singleton]
    exact ⟨rfl, hafter⟩

theorem run_encodeAll (hreliable : Reliable holds) (calls : List Call) {payloads : List Bytes}
    (hfits : ∀ payload ∈ payloads ++ appended calls, Frame.Fits payload)
    (hlog : holds log (Frame.encodeAll payloads)) :
    (run log calls).1 = Frame.place (Frame.encodeAll payloads).length (appended calls) ∧
      holds (run log calls).2 (Frame.encodeAll (payloads ++ appended calls)) := by
  induction calls generalizing log payloads with
  | nil =>
    rw [appended, List.filterMap_nil, List.append_nil]
    exact ⟨rfl, hlog⟩
  | cons call calls ih =>
    have happended : appended (call :: calls) = call.payload?.toList ++ appended calls := by
      unfold appended
      rw [List.filterMap_cons]
      cases call.payload? <;> rfl
    rw [happended, ← List.append_assoc] at hfits ⊢
    have hearlier : ∀ payload ∈ payloads ++ call.payload?.toList, Frame.Fits payload :=
      fun payload h => hfits payload (List.mem_append_left _ h)
    obtain ⟨hframe, hafter⟩ := make_encodeAll hreliable
      (fun payload h => hearlier payload (List.mem_append_left _ h)) hlog call
      (fun payload h => hearlier payload (List.mem_append_right _ (Option.mem_toList.mpr h)))
    obtain ⟨hframes, hlast⟩ := ih hfits hafter
    refine ⟨?_, hlast⟩
    show (call.make log).1.toList ++ (run (call.make log).2 calls).1 = _
    rw [hframe, hframes, Frame.encodeAll_append, List.length_append, Frame.place_append]
    cases call.payload? <;> rfl

/-- Whatever calls have been made on an empty journal, every append has succeeded,
and reading and recovery answer with the appended frames, each at the offset that
its append returned; the next append returns the size, and nothing but an append
changes the log. -/
theorem appended_read_back (hreliable : Reliable holds) (hlog : holds log []) (calls : List Call)
    (hfits : ∀ payload ∈ appended calls, Frame.Fits payload) :
    (run log calls).1.map (·.payload) = appended calls ∧
      ∃ bytes, holds (run log calls).2 bytes ∧
        Answers holds (run log calls).2 bytes (run log calls).1 := by
  have hempty : holds log (Frame.encodeAll []) := hlog
  obtain ⟨hframes, hlast⟩ := run_encodeAll hreliable calls hfits hempty
  rw [hframes]
  exact ⟨Frame.map_payload_place _ _, _, hlast, answers_encodeAll hreliable hfits hlast⟩

/-- The first payload is itself a frame and the second is empty. -/
theorem appended_read_back_nested :
    let calls : List Call := [.append (Frame.encode [1]) true, .sync,
      .recover true (fun octets frame => octets + frame.payload.length) 0,
      .append [] false, .readAll false, .size, .append [2] false, .flush]
    let log := (run MemoryLog.empty calls).2
    (∀ payload ∈ appended calls, Frame.Fits payload) ∧
      (run MemoryLog.empty calls).1 = [⟨0, Frame.encode [1]⟩, ⟨17, []⟩, ⟨25, [2]⟩] ∧
      Answers (fun log bytes => MemoryLog.bytes log = bytes) log log.bytes
        [⟨0, Frame.encode [1]⟩, ⟨17, []⟩, ⟨25, [2]⟩] := by
  intro calls log
  have happended : appended calls = [Frame.encode [1], [], [2]] := rfl
  have hfits : ∀ payload ∈ appended calls, Frame.Fits payload := by
    rw [happended]
    unfold Frame.Fits
    decide +kernel
  have hempty : MemoryLog.empty.bytes = [] := rfl
  obtain ⟨-, bytes, hbytes, hanswers⟩ :=
    appended_read_back MemoryLog.reliable hempty calls hfits
  have hframes : (run MemoryLog.empty calls).1 =
      [⟨0, Frame.encode [1]⟩, ⟨17, []⟩, ⟨25, [2]⟩] := by decide +kernel
  rw [hframes, ← hbytes] at hanswers
  exact ⟨hfits, hframes, hanswers⟩

end Journal

end BatchStore
