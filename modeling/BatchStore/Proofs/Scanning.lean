import BatchStore.Proofs.Replay
import Mathlib.Data.List.Chain

/-!
# Scanning a log to its end

A scan that is driven over any log takes frames that tile the log from its start,
and reads nothing outside the log. It stops where fewer octets are left than a
header has, where a header declares a longer payload than there is, or where a
payload has another checksum than its header says; only the last is an error, and
only in a paranoid scan. Nothing comes after that.
-/

namespace BatchStore

open LogDevice (Reliable)

/-- A device that remembers which parts of its present bytes were read, by their
offsets and lengths. -/
structure Traced (δ : Type) where
  device : δ
  reads : List (Nat × Nat)

namespace Traced

variable {δ : Type}

/-- The device holds the bytes, and no read of them went past their end. -/
structure Holds (holds : δ → Bytes → Prop) (log : Traced δ) (bytes : Bytes) : Prop where
  device : holds log.device bytes
  inside : ∀ extent ∈ log.reads, extent.1 + extent.2 ≤ bytes.length

instance [LogDevice δ] : LogDevice (Traced δ) where
  size log := ((LogDevice.size log.device).1, ⟨(LogDevice.size log.device).2, log.reads⟩)
  readAt log offset length :=
    ((LogDevice.readAt log.device offset length).1,
      ⟨(LogDevice.readAt log.device offset length).2, log.reads ++ [(offset, length)]⟩)
  append log data :=
    ((LogDevice.append log.device data).1, ⟨(LogDevice.append log.device data).2, []⟩)
  flush log := ((LogDevice.flush log.device).1, ⟨(LogDevice.flush log.device).2, log.reads⟩)
  sync log := ((LogDevice.sync log.device).1, ⟨(LogDevice.sync log.device).2, log.reads⟩)
  truncate log newSize :=
    ((LogDevice.truncate log.device newSize).1,
      ⟨(LogDevice.truncate log.device newSize).2, []⟩)

/-- A reliable device promises nothing about reads past the end, so what relies on
it keeps its reads inside. -/
theorem reliable [LogDevice δ] {holds : δ → Bytes → Prop} (h : Reliable holds) :
    Reliable (Holds holds) where
  size := by
    rintro log bytes ⟨hlog, hinside⟩
    obtain ⟨after, hsize, hafter⟩ := h.size hlog
    refine ⟨⟨after, log.reads⟩, ?_, hafter, hinside⟩
    show ((LogDevice.size log.device).1, (⟨(LogDevice.size log.device).2, _⟩ : Traced δ)) = _
    rw [hsize]
  readAt := by
    rintro log bytes offset length ⟨hlog, hinside⟩ hle
    obtain ⟨after, hread, hafter⟩ := h.readAt offset length hlog hle
    refine ⟨⟨after, log.reads ++ [(offset, length)]⟩, ?_, hafter, ?_⟩
    · show ((LogDevice.readAt log.device offset length).1,
        (⟨(LogDevice.readAt log.device offset length).2, _⟩ : Traced δ)) = _
      rw [hread]
    · intro extent hmem
      rcases List.mem_append.mp hmem with hold | hnew
      · exact hinside extent hold
      · rw [List.mem_singleton.mp hnew]
        exact hle
  append := by
    rintro log bytes data ⟨hlog, -⟩
    obtain ⟨after, happend, hafter⟩ := h.append data hlog
    refine ⟨⟨after, []⟩, ?_, hafter, nofun⟩
    show ((LogDevice.append log.device data).1,
      (⟨(LogDevice.append log.device data).2, _⟩ : Traced δ)) = _
    rw [happend]
  flush := by
    rintro log bytes ⟨hlog, hinside⟩
    obtain ⟨after, hflush, hafter⟩ := h.flush hlog
    refine ⟨⟨after, log.reads⟩, ?_, hafter, hinside⟩
    show ((LogDevice.flush log.device).1, (⟨(LogDevice.flush log.device).2, _⟩ : Traced δ)) = _
    rw [hflush]
  sync := by
    rintro log bytes ⟨hlog, hinside⟩
    obtain ⟨after, hsync, hafter⟩ := h.sync hlog
    refine ⟨⟨after, log.reads⟩, ?_, hafter, hinside⟩
    show ((LogDevice.sync log.device).1, (⟨(LogDevice.sync log.device).2, _⟩ : Traced δ)) = _
    rw [hsync]
  truncate := by
    rintro log bytes newSize ⟨hlog, -⟩ hle
    obtain ⟨after, htruncate, hafter⟩ := h.truncate newSize hlog hle
    refine ⟨⟨after, []⟩, ?_, hafter, nofun⟩
    show ((LogDevice.truncate log.device newSize).1,
      (⟨(LogDevice.truncate log.device newSize).2, _⟩ : Traced δ)) = _
    rw [htruncate]

end Traced

namespace Frame

/-- The frames stand side by side from the start on, and their stored forms are
the bytes. -/
structure Tiles (frames : List Frame) (bytes : Bytes) : Prop where
  first : ∀ frame ∈ frames.head?, frame.offset = 0
  adjacent : frames.IsChain fun frame later => later.offset = frame.finish
  stored : frames.flatMap (fun frame => encode frame.payload) = bytes

theorem flatMap_encode_place (offset : Nat) (payloads : List Bytes) :
    (place offset payloads).flatMap (fun frame => encode frame.payload) = encodeAll payloads := by
  have hpayloads := map_payload_place offset payloads
  unfold encodeAll
  conv => rhs; rw [← hpayloads]
  exact (List.flatMap_map _ _ (place offset payloads)).symm

theorem offset_head?_place (offset : Nat) (payloads : List Bytes) :
    ∀ frame ∈ (place offset payloads).head?, frame.offset = offset := by
  cases payloads with
  | nil => exact nofun
  | cons payload payloads =>
    rintro _ ⟨⟩
    rfl

theorem isChain_place (offset : Nat) (payloads : List Bytes) :
    (place offset payloads).IsChain fun frame later => later.offset = frame.finish := by
  induction payloads generalizing offset with
  | nil => exact .nil
  | cons payload payloads ih => exact List.isChain_cons.mpr ⟨offset_head?_place _ _, ih _⟩

theorem tiles_place (payloads : List Bytes) : Tiles (place 0 payloads) (encodeAll payloads) where
  first := offset_head?_place 0 payloads
  adjacent := isChain_place 0 payloads
  stored := flatMap_encode_place 0 payloads

theorem take_place (offset : Nat) (payloads : List Bytes) (k : Nat) :
    (place offset payloads).take k = place offset (payloads.take k) := by
  induction payloads generalizing offset k with
  | nil => rw [List.take_nil, place, List.take_nil]
  | cons payload payloads ih =>
    cases k with
    | zero => rfl
    | succ k => rw [place, List.take_succ_cons, List.take_succ_cons, ih, place]

theorem getElem?_place (offset : Nat) (payloads : List Bytes) (k : Nat) :
    (place offset payloads)[k]? =
      payloads[k]?.map fun payload => ⟨offset + (encodeAll (payloads.take k)).length, payload⟩ := by
  induction payloads generalizing offset k with
  | nil => rfl
  | cons payload payloads ih =>
    cases k with
    | zero => rfl
    | succ k =>
      rw [place, List.getElem?_cons_succ, List.getElem?_cons_succ, ih, finish_mk,
        List.take_succ_cons, encodeAll_cons, List.length_append, Nat.add_assoc]

theorem getElem?_ofLog (bytes : Bytes) (k : Nat) :
    (ofLog bytes)[k]? =
      (payloads bytes)[k]?.map fun payload =>
        ⟨(encodeAll ((payloads bytes).take k)).length, payload⟩ := by
  rw [ofLog, getElem?_place]
  simp only [Nat.zero_add]

/-- The length that the header in front declares. -/
def declaredLength (bytes : Bytes) : Nat := (decodeHeader (bytes.take headerSize)).1

/-- The checksum that the header in front declares. -/
def declaredChecksum (bytes : Bytes) : UInt32 := (decodeHeader (bytes.take headerSize)).2

/-- The octets behind the header in front, as many as it declares. -/
def declaredPayload (bytes : Bytes) : Bytes := (bytes.drop headerSize).take (declaredLength bytes)

/-- There is less than a header. -/
def CutHeader (bytes : Bytes) : Prop := bytes.length < headerSize

/-- There is a header, and less than the payload that it declares. -/
def CutPayload (bytes : Bytes) : Prop :=
  headerSize ≤ bytes.length ∧ bytes.length - headerSize < declaredLength bytes

/-- There are a header and the payload that it declares, with another checksum. -/
def Mismatched (bytes : Bytes) : Prop :=
  headerSize ≤ bytes.length ∧ declaredLength bytes ≤ bytes.length - headerSize ∧
    Checksum.crc32 (declaredPayload bytes) ≠ declaredChecksum bytes

/-- What a log begins with, by what the header in front of it declares. -/
theorem front_eq (bytes : Bytes) :
    front bytes =
      if bytes.length < headerSize then .torn
      else if bytes.length - headerSize < declaredLength bytes then .torn
      else if Checksum.crc32 (declaredPayload bytes) = declaredChecksum bytes then
        .intact (declaredPayload bytes) ((bytes.drop headerSize).drop (declaredLength bytes))
      else .damaged (declaredChecksum bytes) (Checksum.crc32 (declaredPayload bytes)) := by
  rw [← List.length_drop]
  rfl

/-- Bytes that begin with no frame are cut off in the header or in the payload, or
they are damaged. -/
theorem front_not_intact {bytes : Bytes} (h : ∀ payload rest, front bytes ≠ .intact payload rest) :
    (CutHeader bytes ∧ front bytes = .torn) ∨ (CutPayload bytes ∧ front bytes = .torn) ∨
      (Mismatched bytes ∧ front bytes =
        .damaged (declaredChecksum bytes) (Checksum.crc32 (declaredPayload bytes))) := by
  unfold CutHeader CutPayload Mismatched
  have hfront := front_eq bytes
  split at hfront
  · next hshort => exact .inl ⟨hshort, hfront⟩
  next hlong =>
  split at hfront
  · next hcut => exact .inr (.inl ⟨⟨Nat.le_of_not_lt hlong, hcut⟩, hfront⟩)
  next hfull =>
  split at hfront
  · exact absurd hfront (h _ _)
  · next hsum =>
    exact .inr (.inr ⟨⟨Nat.le_of_not_lt hlong, Nat.le_of_not_lt hfull, hsum⟩, hfront⟩)

/-- The tail of a log begins with no frame. -/
theorem front_tail (bytes : Bytes) : ∀ payload rest, front (tail bytes) ≠ .intact payload rest := by
  induction hn : bytes.length using Nat.strongRecOn generalizing bytes with
  | ind n ih =>
    subst hn
    rcases front_cases bytes with ⟨first, behind, hfront⟩ | hnone
    · rw [(parse_intact hfront).2]
      exact ih behind.length (length_lt_of_front hfront) behind rfl
    · rw [(parse_of_not_intact hnone).2]
      exact hnone

/-- Behind so many frames of a log are its other frames and its tail. -/
theorem drop_encodeAll_take (bytes : Bytes) (k : Nat) :
    bytes.drop (encodeAll ((payloads bytes).take k)).length =
      encodeAll ((payloads bytes).drop k) ++ tail bytes := by
  have hsplit : encodeAll ((payloads bytes).take k) ++
      (encodeAll ((payloads bytes).drop k) ++ tail bytes) = bytes := by
    rw [← List.append_assoc, ← encodeAll_append, List.take_append_drop]
    exact encodeAll_payloads bytes
  conv => lhs; arg 2; rw [← hsplit]
  exact List.drop_left

theorem length_encodeAll_take_le (bytes : Bytes) (k : Nat) :
    (encodeAll ((payloads bytes).take k)).length ≤ bytes.length := by
  have hsplit := congrArg List.length (encodeAll_payloads bytes)
  rw [← List.take_append_drop k (payloads bytes), encodeAll_append, List.length_append,
    List.length_append] at hsplit
  omega

/-- What stands behind the intact frames of a log is its tail. -/
theorem drop_encodeAll (bytes : Bytes) :
    bytes.drop (encodeAll (payloads bytes)).length = tail bytes := by
  have hdrop := drop_encodeAll_take bytes (payloads bytes).length
  rw [List.take_length, List.drop_length] at hdrop
  exact hdrop

theorem take_encodeAll (bytes : Bytes) :
    bytes.take (encodeAll (payloads bytes)).length = encodeAll (payloads bytes) := by
  have hsplit := encodeAll_payloads bytes
  conv => lhs; arg 2; rw [← hsplit]
  exact List.take_left

end Frame

namespace Scan

variable {δ : Type} [LogDevice δ] {holds : δ → Bytes → Prop} {log : δ} {bytes : Bytes}

theorem next_finished {scan : Scan} (h : scan.finished = true) (log : δ) :
    scan.next log = (none, scan, log) := by
  unfold next
  rw [if_pos h]

theorem next_intact (hreliable : Reliable holds) (hlog : holds log bytes) {scan : Scan}
    (htotal : scan.total = bytes.length) (hrunning : scan.finished = false) {payload rest : Bytes}
    (hfront : Frame.front (bytes.drop scan.offset) = .intact payload rest) :
    ∃ later, holds later bytes ∧
      scan.next log = (some (.ok ⟨scan.offset, payload⟩),
        { scan with offset := Frame.finish ⟨scan.offset, payload⟩ }, later) := by
  obtain ⟨later, hlater, hnext⟩ := next_eq hreliable hlog htotal hrunning
  rw [hfront] at hnext
  exact ⟨later, hlater, hnext⟩

/-- Where no frame stands the scan finishes, on an error when the tail is one. -/
theorem next_not_intact (hreliable : Reliable holds) (hlog : holds log bytes) {scan : Scan}
    (htotal : scan.total = bytes.length) (hrunning : scan.finished = false)
    (hnone : ∀ payload rest, Frame.front (bytes.drop scan.offset) ≠ .intact payload rest) :
    ∃ later, holds later bytes ∧
      scan.next log =
        ((Frame.tailError scan.paranoid scan.offset (bytes.drop scan.offset)).map .error,
          { scan with finished := true }, later) := by
  obtain ⟨later, hlater, hnext⟩ := next_eq hreliable hlog htotal hrunning
  refine ⟨later, hlater, ?_⟩
  rw [hnext, found_of_not_intact hnone]
  cases Frame.tailError scan.paranoid scan.offset (bytes.drop scan.offset) <;> rfl

/-- The scan and the log after so many calls of `next`. -/
def after (scan : Scan) (log : δ) : (calls : Nat) → Scan × δ
  | 0 => (scan, log)
  | calls + 1 => ((scan.after log calls).1.next (scan.after log calls).2).2

/-- What `next` hands out after so many other calls. -/
def item (scan : Scan) (log : δ) (calls : Nat) : Option (Except StoreError Frame) :=
  ((scan.after log calls).1.next (scan.after log calls).2).1

/-- The scan behind so many frames of a log, or behind all of them; it has finished
when it was called more often than there are frames. -/
def behind (bytes : Bytes) (paranoid : Bool) (calls : Nat) : Scan :=
  { total := bytes.length
    offset := (Frame.encodeAll ((Frame.payloads bytes).take calls)).length
    paranoid
    finished := decide ((Frame.payloads bytes).length < calls) }

/-- What a scan hands out there: a frame, then the error of the tail if it is one,
and nothing after that. -/
def due (bytes : Bytes) (paranoid : Bool) (calls : Nat) : Option (Except StoreError Frame) :=
  if calls = (Frame.payloads bytes).length then
    (Frame.tailError paranoid (Frame.encodeAll (Frame.payloads bytes)).length
      (Frame.tail bytes)).map .error
  else (Frame.ofLog bytes)[calls]?.map .ok

section Behind

variable {paranoid : Bool} {calls : Nat}

/-- Behind the last frame a scan does not move on. -/
theorem behind_of_le (h : (Frame.payloads bytes).length ≤ calls) :
    behind bytes paranoid calls =
      ⟨bytes.length, (Frame.encodeAll (Frame.payloads bytes)).length, paranoid,
        decide ((Frame.payloads bytes).length < calls)⟩ := by
  unfold behind
  rw [List.take_of_length_le h]

theorem finished_behind (h : calls ≤ (Frame.payloads bytes).length) :
    (behind bytes paranoid calls).finished = false := decide_eq_false (Nat.not_lt.mpr h)

theorem due_of_lt (h : calls < (Frame.ofLog bytes).length) :
    due bytes paranoid calls = some (.ok (Frame.ofLog bytes)[calls]) := by
  have hlength := Frame.length_ofLog bytes
  unfold due
  rw [if_neg (by omega), List.getElem?_eq_getElem h, Option.map_some]

theorem due_of_gt (h : (Frame.ofLog bytes).length < calls) : due bytes paranoid calls = none := by
  have hlength := Frame.length_ofLog bytes
  unfold due
  rw [if_neg (by omega), List.getElem?_eq_none (Nat.le_of_lt h), Option.map_none]

theorem next_behind_of_lt (hreliable : Reliable holds) (hlog : holds log bytes)
    (h : calls < (Frame.payloads bytes).length) :
    ∃ later, holds later bytes ∧
      (behind bytes paranoid calls).next log =
        (due bytes paranoid calls, behind bytes paranoid (calls + 1), later) := by
  have hfront : Frame.front (bytes.drop (behind bytes paranoid calls).offset) =
      .intact (Frame.payloads bytes)[calls]
        (Frame.encodeAll ((Frame.payloads bytes).drop (calls + 1)) ++ Frame.tail bytes) := by
    unfold behind
    rw [Frame.drop_encodeAll_take, List.drop_eq_getElem_cons h, Frame.encodeAll_cons,
      List.append_assoc]
    exact Frame.front_encode (Frame.fits_of_mem (List.getElem_mem h)) _
  have hdue : due bytes paranoid calls =
      some (.ok ⟨(behind bytes paranoid calls).offset, (Frame.payloads bytes)[calls]⟩) := by
    unfold due behind
    rw [if_neg (Nat.ne_of_lt h), Frame.getElem?_ofLog, List.getElem?_eq_getElem h]
    rfl
  have hnext : behind bytes paranoid (calls + 1) = { behind bytes paranoid calls with
      offset := Frame.finish
        ⟨(behind bytes paranoid calls).offset, (Frame.payloads bytes)[calls]⟩ } := by
    unfold behind
    rw [List.take_succ_eq_append_getElem h, Frame.encodeAll_append, Frame.encodeAll_singleton,
      List.length_append, Frame.finish_mk, decide_eq_false (by omega : ¬_ < calls),
      decide_eq_false (by omega : ¬_ < calls + 1)]
  rw [hdue, hnext]
  exact next_intact hreliable hlog rfl (finished_behind (Nat.le_of_lt h)) hfront

theorem next_behind_of_eq (hreliable : Reliable holds) (hlog : holds log bytes)
    (h : calls = (Frame.payloads bytes).length) :
    ∃ later, holds later bytes ∧
      (behind bytes paranoid calls).next log =
        (due bytes paranoid calls, behind bytes paranoid (calls + 1), later) := by
  have hoffset : (behind bytes paranoid calls).offset =
      (Frame.encodeAll (Frame.payloads bytes)).length := by
    rw [behind_of_le (Nat.le_of_eq h.symm)]
  have hnone : ∀ payload rest,
      Frame.front (bytes.drop (behind bytes paranoid calls).offset) ≠ .intact payload rest := by
    rw [hoffset, Frame.drop_encodeAll]
    exact Frame.front_tail bytes
  have hdue : due bytes paranoid calls = (Frame.tailError paranoid
      (behind bytes paranoid calls).offset
      (bytes.drop (behind bytes paranoid calls).offset)).map .error := by
    unfold due
    rw [if_pos h, hoffset, Frame.drop_encodeAll]
  have hnext : behind bytes paranoid (calls + 1) =
      { behind bytes paranoid calls with finished := true } := by
    rw [behind_of_le (by omega), behind_of_le (Nat.le_of_eq h.symm), decide_eq_true (by omega)]
  rw [hdue, hnext]
  exact next_not_intact hreliable hlog rfl (finished_behind (Nat.le_of_eq h)) hnone

theorem next_behind_of_gt (h : (Frame.payloads bytes).length < calls) (log : δ) :
    (behind bytes paranoid calls).next log =
      (due bytes paranoid calls, behind bytes paranoid (calls + 1), log) := by
  have hnext : behind bytes paranoid (calls + 1) = behind bytes paranoid calls := by
    rw [behind_of_le (by omega), behind_of_le (Nat.le_of_lt h), decide_eq_true h,
      decide_eq_true (by omega)]
  rw [due_of_gt (Frame.length_ofLog bytes ▸ h), hnext]
  exact next_finished (decide_eq_true h) log

end Behind

/-- One call hands out what is due there and leads behind the next frame. -/
theorem next_behind (hreliable : Reliable holds) (hlog : holds log bytes) (paranoid : Bool)
    (calls : Nat) :
    ∃ later, holds later bytes ∧
      (behind bytes paranoid calls).next log =
        (due bytes paranoid calls, behind bytes paranoid (calls + 1), later) := by
  rcases Nat.lt_trichotomy calls (Frame.payloads bytes).length with hmore | hend | hpast
  · exact next_behind_of_lt hreliable hlog hmore
  · exact next_behind_of_eq hreliable hlog hend
  · exact ⟨log, hlog, next_behind_of_gt hpast log⟩

/-- A scan that is driven from the start of a log stands behind one frame more with
every call, until it has finished. -/
theorem after_start (hreliable : Reliable holds) (hlog : holds log bytes) (paranoid : Bool)
    (calls : Nat) :
    ((⟨bytes.length, 0, paranoid, false⟩ : Scan).after log calls).1 =
        behind bytes paranoid calls ∧
      holds ((⟨bytes.length, 0, paranoid, false⟩ : Scan).after log calls).2 bytes := by
  induction calls with
  | zero => exact ⟨rfl, hlog⟩
  | succ calls ih =>
    obtain ⟨hscan, hreached⟩ := ih
    obtain ⟨later, hlater, hnext⟩ := next_behind hreliable hreached paranoid calls
    rw [after, hscan, hnext]
    exact ⟨rfl, hlater⟩

theorem item_start (hreliable : Reliable holds) (hlog : holds log bytes) (paranoid : Bool)
    (calls : Nat) :
    (⟨bytes.length, 0, paranoid, false⟩ : Scan).item log calls = due bytes paranoid calls := by
  obtain ⟨hscan, hreached⟩ := after_start hreliable hlog paranoid calls
  obtain ⟨later, -, hnext⟩ := next_behind hreliable hreached paranoid calls
  rw [item, hscan, hnext]

/-- Why a scan hands out no further frame where it stands, and what it hands out
instead. -/
inductive Stops (offset : Nat) (rest : Bytes) :
    (paranoid : Bool) → Option (Except StoreError Frame) → Prop where
  | cutHeader {paranoid : Bool} (h : Frame.CutHeader rest) : Stops offset rest paranoid none
  | cutPayload {paranoid : Bool} (h : Frame.CutPayload rest) : Stops offset rest paranoid none
  | passedOver (h : Frame.Mismatched rest) : Stops offset rest false none
  | reported (h : Frame.Mismatched rest) :
    Stops offset rest true (some (.error (.checksumMismatch offset (Frame.declaredChecksum rest)
      (Checksum.crc32 (Frame.declaredPayload rest)))))

/-- What comes behind the frames is settled by what the tail lacks. -/
theorem due_stops (bytes : Bytes) (paranoid : Bool) :
    Stops (Frame.encodeAll (Frame.payloads bytes)).length (Frame.tail bytes) paranoid
      (due bytes paranoid (Frame.ofLog bytes).length) := by
  have hdue : due bytes paranoid (Frame.ofLog bytes).length =
      (Frame.tailError paranoid (Frame.encodeAll (Frame.payloads bytes)).length
        (Frame.tail bytes)).map .error := if_pos (Frame.length_ofLog bytes)
  rw [hdue]
  unfold Frame.tailError
  rcases Frame.front_not_intact (Frame.front_tail bytes) with
    ⟨hcut, hfront⟩ | ⟨hcut, hfront⟩ | ⟨hdamaged, hfront⟩
  · rw [hfront]
    exact .cutHeader hcut
  · rw [hfront]
    exact .cutPayload hcut
  · rw [hfront]
    cases paranoid with
    | false => exact .passedOver hdamaged
    | true => exact .reported hdamaged

/-- A scan that is driven over any log hands out frames that tile the log up to where
it stops, then at most one error, and nothing after that; it stands within the log
and reads nothing outside it. -/
theorem drives_over_log (hreliable : Reliable holds) (hlog : holds log bytes) (paranoid : Bool) :
    ∃ (scan : Scan) (opened : Traced δ), start (⟨log, []⟩ : Traced δ) paranoid = (.ok scan, opened) ∧
      ∃ (frames : List Frame) (stop : Nat),
        (∀ calls (h : calls < frames.length), scan.item opened calls = some (.ok frames[calls])) ∧
        Frame.Tiles frames (bytes.take stop) ∧ stop ≤ bytes.length ∧
        (∀ calls, frames.length ≤ calls → (scan.after opened calls).1.offset = stop) ∧
        Stops stop (bytes.drop stop) paranoid (scan.item opened frames.length) ∧
        (∀ calls, frames.length < calls → scan.item opened calls = none) ∧
        ∀ calls, (scan.after opened calls).1.total = bytes.length ∧
          (scan.after opened calls).1.offset ≤ bytes.length ∧
          (scan.after opened calls).2.Holds holds bytes := by
  have hfresh : Traced.Holds holds ⟨log, []⟩ bytes := ⟨hlog, nofun⟩
  obtain ⟨opened, hstart, hopened⟩ :=
    Journal.start_eq (Traced.reliable hreliable) hfresh paranoid
  have hlength := Frame.length_ofLog bytes
  have hitem := item_start (Traced.reliable hreliable) hopened paranoid
  have hafter := after_start (Traced.reliable hreliable) hopened paranoid
  refine ⟨_, opened, hstart, Frame.ofLog bytes, (Frame.encodeAll (Frame.payloads bytes)).length,
    ?_, ?_, ?_, ?_, ?_, ?_, ?_⟩
  · intro calls h
    rw [hitem, due_of_lt h]
  · rw [Frame.take_encodeAll]
    exact Frame.tiles_place _
  · have hall := Frame.length_encodeAll_take_le bytes (Frame.payloads bytes).length
    rwa [List.take_length] at hall
  · intro calls h
    rw [(hafter calls).1, behind_of_le (by omega)]
  · rw [hitem, Frame.drop_encodeAll]
    exact due_stops bytes paranoid
  · intro calls h
    rw [hitem, due_of_gt h]
  · intro calls
    obtain ⟨hscan, hreached⟩ := hafter calls
    rw [hscan]
    exact ⟨rfl, Frame.length_encodeAll_take_le bytes calls, hreached⟩

/-- The second frame is damaged, so the scan stops at offset ten. -/
theorem drives_over_log_damaged :
    let bytes := Frame.encode [1, 2] ++ Frame.header [3] ++ [4] ++ Frame.encode [5]
    let log : Traced MemoryLog := ⟨⟨bytes⟩, []⟩
    let scan : Scan := ⟨bytes.length, 0, true, false⟩
    start log true = (.ok scan, log) ∧ scan.item log 0 = some (.ok ⟨0, [1, 2]⟩) ∧
      Frame.Tiles [⟨0, [1, 2]⟩] (bytes.take 10) ∧
      Stops 10 (bytes.drop 10) true (scan.item log 1) ∧
      ∀ calls, 1 < calls → scan.item log calls = none := by
  intro bytes log scan
  have hlog : (⟨bytes⟩ : MemoryLog).bytes = bytes := rfl
  obtain ⟨_, _, hstart, frames, stop, hframes, htiles, -, hstop, hstops, hnone, -⟩ :=
    drives_over_log MemoryLog.reliable hlog true
  obtain ⟨rfl, rfl⟩ : scan = _ ∧ log = _ := by
    obtain ⟨hscan, hopened⟩ := Prod.mk.inj hstart
    exact ⟨Except.ok.inj hscan, hopened⟩
  have hfirst : scan.item log 0 = some (.ok ⟨0, [1, 2]⟩) := by decide +kernel
  have hdamage : scan.item log 1 = some (.error (.checksumMismatch 10 (Checksum.crc32 [3])
      (Checksum.crc32 [4]))) := by decide +kernel
  have hone : frames.length = 1 := by
    rcases Nat.lt_trichotomy frames.length 1 with hless | heq | hmore
    · rw [hnone 1 hless] at hdamage
      cases hdamage
    · exact heq
    · rw [hframes 1 hmore] at hdamage
      cases hdamage
  obtain ⟨frame, rfl⟩ := List.length_eq_one_iff.mp hone
  obtain rfl : frame = ⟨0, [1, 2]⟩ := by
    have hread := hframes 0 Nat.zero_lt_one
    rw [hfirst] at hread
    cases hread
    rfl
  obtain rfl : stop = 10 := (hstop 1 (Nat.le_refl 1)).symm.trans (by decide +kernel)
  exact ⟨hstart, hfirst, htiles, hstops, hnone⟩

end Scan

end BatchStore
