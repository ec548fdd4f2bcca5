import BatchStore.Proofs.Checksum
import BatchStore.Proofs.ReadBack

/-!
# Damaged frames

Where up to four consecutive octets of a payload are replaced, or octets of a
stored checksum, the frame has another checksum than its header says. The frames
before it are still read. A paranoid reading then fails at the damaged frame and
leaves the log as it is; for a lenient one the log ends there.
-/

namespace BatchStore

open LogDevice (Reliable)

namespace Bytes

/-- Writes a replacement over the octets from an offset on. -/
def patch (bytes : Bytes) (offset : Nat) (replacement : Bytes) : Bytes :=
  bytes.take offset ++ replacement ++ bytes.drop (offset + replacement.length)

variable {bytes replacement : Bytes} {offset : Nat}

theorem patch_append_left {before : Bytes} (h : before.length ≤ offset) (bytes : Bytes) :
    patch (before ++ bytes) offset replacement =
      before ++ patch bytes (offset - before.length) replacement := by
  have hlast : offset + replacement.length - before.length =
      offset - before.length + replacement.length := by omega
  unfold patch
  rw [List.take_append, List.take_of_length_le h, List.drop_append,
    List.drop_eq_nil_of_le (by omega), hlast, List.nil_append, List.append_assoc,
    List.append_assoc, List.append_assoc]

theorem patch_append_right (h : offset + replacement.length ≤ bytes.length) (after : Bytes) :
    patch (bytes ++ after) offset replacement = patch bytes offset replacement ++ after := by
  unfold patch
  rw [List.take_append_of_le_length (by omega), List.drop_append_of_le_length h,
    List.append_assoc _ _ after]

theorem length_patch (h : offset + replacement.length ≤ bytes.length) :
    (patch bytes offset replacement).length = bytes.length := by
  unfold patch
  rw [List.length_append, List.length_append, List.length_take, List.length_drop]
  omega

/-- The octets that a replacement is written over. -/
theorem take_append_drop_patch (bytes : Bytes) (offset width : Nat) :
    bytes.take offset ++ (bytes.drop offset).take width ++ bytes.drop (offset + width) = bytes := by
  rw [List.append_assoc, ← List.drop_drop, List.take_append_drop, List.take_append_drop]

/-- A short replacement that changes something changes the checksum. -/
theorem crc32_patch_ne (hinside : offset + replacement.length ≤ bytes.length)
    (hshort : replacement.length ≤ 4) (hne : patch bytes offset replacement ≠ bytes) :
    Checksum.crc32 (patch bytes offset replacement) ≠ Checksum.crc32 bytes := by
  have hsplit := take_append_drop_patch bytes offset replacement.length
  have hlength : ((bytes.drop offset).take replacement.length).length = replacement.length := by
    rw [List.length_take, List.length_drop]
    omega
  have hchanged : replacement ≠ (bytes.drop offset).take replacement.length := by
    intro h
    unfold patch at hne
    rw [← h] at hsplit
    exact hne hsplit
  have hburst := Checksum.crc32_ne_of_burst hlength hshort hchanged (bytes.take offset)
    (bytes.drop (offset + replacement.length))
  rw [hsplit] at hburst
  exact hburst

end Bytes

namespace Frame

/-- The stored form of a payload, with any checksum in its header. -/
def encodeWith (checksum payload : Bytes) : Bytes :=
  Bytes.ofNat 4 payload.length ++ checksum ++ payload

theorem mismatched_encodeWith {checksum payload : Bytes} (hfits : Fits payload)
    (hlength : checksum.length = 4)
    (hne : Checksum.crc32 payload ≠ UInt32.ofNat (Bytes.toNat checksum)) (rest : Bytes) :
    Mismatched (encodeWith checksum payload ++ rest) := by
  have hfields : (Bytes.ofNat 4 payload.length ++ checksum).length = headerSize := by
    rw [List.length_append, Bytes.length_ofNat, hlength]
    rfl
  have hstored : encodeWith checksum payload ++ rest =
      Bytes.ofNat 4 payload.length ++ checksum ++ (payload ++ rest) := List.append_assoc _ _ _
  have hheader := decodeHeader_fields hfits hlength
  have hdeclared : declaredLength (encodeWith checksum payload ++ rest) = payload.length := by
    unfold declaredLength
    rw [hstored, List.take_left' hfields, hheader]
  have hsum : declaredChecksum (encodeWith checksum payload ++ rest) =
      UInt32.ofNat (Bytes.toNat checksum) := by
    unfold declaredChecksum
    rw [hstored, List.take_left' hfields, hheader]
  have hpayload : declaredPayload (encodeWith checksum payload ++ rest) = payload := by
    unfold declaredPayload
    rw [hdeclared, hstored, List.drop_left' hfields, List.take_left]
  unfold Mismatched
  rw [hdeclared, hsum, hpayload, hstored, List.length_append, hfields, List.length_append]
  exact ⟨by omega, by omega, hne⟩

theorem front_of_mismatched {bytes : Bytes} (h : Mismatched bytes) :
    front bytes = .damaged (declaredChecksum bytes) (Checksum.crc32 (declaredPayload bytes)) := by
  obtain ⟨hheader, hpayload, hsum⟩ := h
  rw [← List.length_drop] at hpayload
  exact (if_neg (Nat.not_lt.mpr hheader)).trans
    ((if_neg (Nat.not_lt.mpr hpayload)).trans (if_neg hsum))

theorem not_intact_of_mismatched {bytes : Bytes} (h : Mismatched bytes) :
    ∀ payload rest, front bytes ≠ .intact payload rest := by
  intro payload rest hintact
  rw [front_of_mismatched h] at hintact
  cases hintact

/-- The replaced octets are a few of the payload of a frame, or they lie in its
stored checksum. -/
inductive Confines (frame : Frame) (offset : Nat) (replacement : Bytes) : Prop where
  | payload (hfirst : frame.offset + headerSize ≤ offset)
    (hlast : offset + replacement.length ≤ frame.finish) (hshort : replacement.length ≤ 4)
  | checksum (hfirst : frame.offset + 4 ≤ offset)
    (hlast : offset + replacement.length ≤ frame.offset + headerSize)

theorem Confines.offset_le {frame : Frame} {offset : Nat} {replacement : Bytes}
    (h : frame.Confines offset replacement) : frame.offset ≤ offset := by
  cases h with
  | payload hfirst => exact Nat.le_of_add_right_le hfirst
  | checksum hfirst => exact Nat.le_of_add_right_le hfirst

section Front

variable {payload rest replacement : Bytes} {offset : Nat}

theorem mismatched_patch_payload (hfits : Fits payload) (hfirst : headerSize ≤ offset)
    (hlast : offset + replacement.length ≤ headerSize + payload.length)
    (hshort : replacement.length ≤ 4)
    (hne : Bytes.patch (encode payload ++ rest) offset replacement ≠ encode payload ++ rest) :
    Mismatched (Bytes.patch (encode payload ++ rest) offset replacement) := by
  have hheader := length_header payload
  have hinside : offset - headerSize + replacement.length ≤ payload.length := by omega
  have hlength := Bytes.length_patch hinside
  have hroom : Fits (Bytes.patch payload (offset - headerSize) replacement) :=
    Nat.lt_of_le_of_lt (Nat.le_of_eq hlength) hfits
  have hpatch : Bytes.patch (encode payload ++ rest) offset replacement =
      encodeWith (Bytes.ofWord32 (Checksum.crc32 payload))
        (Bytes.patch payload (offset - headerSize) replacement) ++ rest := by
    rw [encode_append, Bytes.patch_append_left (hheader ▸ hfirst), hheader,
      Bytes.patch_append_right hinside, encodeWith, hlength]
    exact (List.append_assoc _ _ _).symm
  have hchanged : Bytes.patch payload (offset - headerSize) replacement ≠ payload := by
    intro hsame
    rw [hpatch, hsame] at hne
    exact hne rfl
  rw [hpatch]
  apply mismatched_encodeWith hroom (Bytes.length_ofWord32 _)
  rw [Bytes.ofNat_toNat_ofWord32]
  exact Bytes.crc32_patch_ne hinside hshort hchanged

theorem mismatched_patch_checksum (hfits : Fits payload) (hfirst : 4 ≤ offset)
    (hlast : offset + replacement.length ≤ headerSize)
    (hne : Bytes.patch (encode payload ++ rest) offset replacement ≠ encode payload ++ rest) :
    Mismatched (Bytes.patch (encode payload ++ rest) offset replacement) := by
  have hsize := Bytes.length_ofNat 4 payload.length
  have hsum := Bytes.length_ofWord32 (Checksum.crc32 payload)
  have hfields : headerSize = 4 + 4 := rfl
  have hinside : offset - 4 + replacement.length ≤
      (Bytes.ofWord32 (Checksum.crc32 payload)).length := by omega
  have hlength := (Bytes.length_patch hinside).trans hsum
  have hstored : encode payload ++ rest = Bytes.ofNat 4 payload.length ++
      (Bytes.ofWord32 (Checksum.crc32 payload) ++ (payload ++ rest)) := by
    rw [encode, List.append_assoc, List.append_assoc]
  have hpatch : Bytes.patch (encode payload ++ rest) offset replacement =
      encodeWith (Bytes.patch (Bytes.ofWord32 (Checksum.crc32 payload)) (offset - 4) replacement)
        payload ++ rest := by
    rw [hstored, Bytes.patch_append_left (hsize ▸ hfirst), hsize,
      Bytes.patch_append_right hinside, encodeWith, List.append_assoc, List.append_assoc]
  rw [hpatch]
  apply mismatched_encodeWith hfits hlength
  -- the stored checksum is the only one that agrees with the payload
  intro hsame
  have hunchanged := Bytes.ofWord32_ofNat_toNat hlength
  rw [← hsame] at hunchanged
  rw [hpatch, ← hunchanged] at hne
  exact hne rfl

/-- A frame whose payload or checksum is changed has another checksum than its
header says; what stands before it is as it was. -/
theorem mismatched_patch (hfits : Fits payload) {before : Bytes}
    (h : Confines ⟨before.length, payload⟩ offset replacement)
    (hne : Bytes.patch (before ++ (encode payload ++ rest)) offset replacement ≠
      before ++ (encode payload ++ rest)) :
    ∃ damaged, Mismatched damaged ∧
      Bytes.patch (before ++ (encode payload ++ rest)) offset replacement = before ++ damaged := by
  have hpatch : Bytes.patch (before ++ (encode payload ++ rest)) offset replacement =
      before ++ Bytes.patch (encode payload ++ rest) (offset - before.length) replacement :=
    Bytes.patch_append_left h.offset_le _
  have hchanged : Bytes.patch (encode payload ++ rest) (offset - before.length) replacement ≠
      encode payload ++ rest := by
    intro hsame
    rw [hpatch, hsame] at hne
    exact hne rfl
  refine ⟨_, ?_, hpatch⟩
  cases h with
  | payload hfirst hlast hshort =>
    change before.length + headerSize ≤ offset at hfirst
    rw [finish_mk, length_encode] at hlast
    exact mismatched_patch_payload hfits (by omega) (by omega) hshort hchanged
  | checksum hfirst hlast =>
    change before.length + 4 ≤ offset at hfirst
    change offset + replacement.length ≤ before.length + headerSize at hlast
    exact mismatched_patch_checksum hfits (by omega) (by omega) hchanged

end Front

end Frame

namespace Journal

variable {δ : Type} [LogDevice δ] {holds : δ → Bytes → Prop} {log : δ} {bytes : Bytes}

/-- The error for the bytes from an offset on, when they have another checksum than
they declare. -/
def mismatchAt (bytes : Bytes) (offset : Nat) : StoreError :=
  .checksumMismatch offset (Frame.declaredChecksum (bytes.drop offset))
    (Checksum.crc32 (Frame.declaredPayload (bytes.drop offset)))

/-- What reading and recovery come to on a log that holds these bytes, when the
frame at an offset behind these others has another checksum than its header says. -/
structure Detects (holds : δ → Bytes → Prop) (log : δ) (bytes : Bytes) (before : List Frame)
    (offset : Nat) : Prop where
  mismatched : Frame.Mismatched (bytes.drop offset)
  readAll_paranoid : ∃ after, holds after bytes ∧
    readAll log true = (.error (mismatchAt bytes offset), after)
  recover_paranoid : ∀ {σ : Type} (take : σ → Frame → σ) (state : σ), ∃ after, holds after bytes ∧
    recover log true (accepting take) state =
      ⟨.error (mismatchAt bytes offset), before.foldl take state, after⟩
  readAll_lenient : ∃ after, holds after bytes ∧ readAll log false = (.ok before, after)
  recover_lenient : ∀ {σ : Type} (take : σ → Frame → σ) (state : σ),
    ∃ after, holds after (bytes.take offset) ∧
      recover log false (accepting take) state =
        ⟨.ok ⟨before.length, bytes.length - offset⟩, before.foldl take state, after⟩

/-- Intact frames and then bytes with another checksum than they declare. -/
theorem detects_mismatched (hreliable : Reliable holds) {payloads : List Bytes}
    (hfits : ∀ payload ∈ payloads, Frame.Fits payload) {damaged : Bytes}
    (hdamaged : Frame.Mismatched damaged) (hlog : holds log (Frame.encodeAll payloads ++ damaged)) :
    Detects holds log (Frame.encodeAll payloads ++ damaged) (Frame.place 0 payloads)
      (Frame.encodeAll payloads).length := by
  have hfront := Frame.front_of_mismatched hdamaged
  have hnone := Frame.not_intact_of_mismatched hdamaged
  obtain ⟨hpayloads, htail⟩ := Frame.parse_encodeAll payloads hfits damaged
  rw [(Frame.parse_of_not_intact hnone).1, List.append_nil] at hpayloads
  rw [(Frame.parse_of_not_intact hnone).2] at htail
  have hframes : Frame.ofLog (Frame.encodeAll payloads ++ damaged) = Frame.place 0 payloads := by
    unfold Frame.ofLog
    rw [hpayloads]
  have hbehind : (Frame.encodeAll payloads ++ damaged).drop (Frame.encodeAll payloads).length =
      damaged := List.drop_left
  have herror : Frame.logError true (Frame.encodeAll payloads ++ damaged) =
      some (mismatchAt (Frame.encodeAll payloads ++ damaged) (Frame.encodeAll payloads).length) := by
    unfold Frame.logError Frame.tailError mismatchAt
    rw [hpayloads, htail, hfront, hbehind]
    rfl
  have hpassed : Frame.logError false (Frame.encodeAll payloads ++ damaged) = none := by
    unfold Frame.logError Frame.tailError
    rw [htail, hfront]
    rfl
  constructor
  · rw [hbehind]
    exact hdamaged
  · obtain ⟨after, hafter, hread⟩ := readAll_outcome hreliable hlog true
    rw [herror] at hread
    exact ⟨after, hafter, hread⟩
  · intro σ take state
    rw [← hframes]
    exact recover_accepting_error hreliable hlog herror take state
  · obtain ⟨after, hafter, hread⟩ := readAll_outcome hreliable hlog false
    rw [hpassed, hframes] at hread
    exact ⟨after, hafter, hread⟩
  · intro σ take state
    obtain ⟨after, hafter, hrecover⟩ := recover_accepting_ok hreliable hlog hpassed take state
    rw [hpayloads] at hafter
    rw [hframes, htail] at hrecover
    rw [List.take_left, List.length_append, Nat.add_sub_cancel_left]
    exact ⟨after, hafter, hrecover⟩

/-- A log of frames in which one frame is damaged. -/
theorem detects_patch (hreliable : Reliable holds) {payloads : List Bytes}
    (hfits : ∀ payload ∈ payloads, Frame.Fits payload) {i : Nat} (hi : i < payloads.length)
    {offset : Nat} {replacement : Bytes}
    (hconfined : Frame.Confines ⟨(Frame.encodeAll (payloads.take i)).length, payloads[i]⟩
      offset replacement)
    (hne : Bytes.patch (Frame.encodeAll payloads) offset replacement ≠ Frame.encodeAll payloads)
    (hlog : holds log (Bytes.patch (Frame.encodeAll payloads) offset replacement)) :
    Detects holds log (Bytes.patch (Frame.encodeAll payloads) offset replacement)
      (Frame.place 0 (payloads.take i)) (Frame.encodeAll (payloads.take i)).length := by
  have hearlier : ∀ payload ∈ payloads.take i, Frame.Fits payload :=
    fun payload hmem => hfits payload (List.mem_of_mem_take hmem)
  have hsplit : Frame.encodeAll payloads = Frame.encodeAll (payloads.take i) ++
      (Frame.encode payloads[i] ++ Frame.encodeAll (payloads.drop (i + 1))) := by
    rw [← Frame.encodeAll_cons, ← List.drop_eq_getElem_cons hi, ← Frame.encodeAll_append,
      List.take_append_drop]
  rw [hsplit] at hne hlog ⊢
  obtain ⟨rest, hmismatched, hpatch⟩ :=
    Frame.mismatched_patch (hfits _ (List.getElem_mem hi)) hconfined hne
  rw [hpatch] at hlog ⊢
  exact detects_mismatched hreliable hearlier hmismatched hlog

/-- A log is made by calls on an empty journal, and then one of its frames has its
payload or its checksum changed. A paranoid reading fails at that frame with the
earlier ones delivered, and the log stays as it is; a lenient one takes the earlier
frames, and recovery cuts the log where the damaged one begins. -/
theorem damage_detected (hreliable : Reliable holds) (hlog : holds log []) (calls : List Call)
    (hfits : ∀ payload ∈ appended calls, Frame.Fits payload) :
    let image := Frame.encodeAll (appended calls)
    let frames := (run log calls).1
    holds (run log calls).2 image ∧
      ∀ (i : Nat) (hi : i < frames.length) (offset : Nat) (replacement : Bytes),
        frames[i].Confines offset replacement →
        Bytes.patch image offset replacement ≠ image →
        ∀ damaged, holds damaged (Bytes.patch image offset replacement) →
          Detects holds damaged (Bytes.patch image offset replacement) (frames.take i)
            frames[i].offset := by
  intro image frames
  have hempty : holds log (Frame.encodeAll []) := hlog
  obtain ⟨hframes, himage⟩ := run_encodeAll hreliable calls hfits hempty
  have hplaced : frames = Frame.place 0 (appended calls) := hframes
  refine ⟨himage, ?_⟩
  intro i hi offset replacement hconfined hne damaged hdamaged
  have hcount : i < (appended calls).length := by
    rw [← Frame.length_place 0, ← hplaced]
    exact hi
  have hframe : frames[i] =
      ⟨(Frame.encodeAll ((appended calls).take i)).length, (appended calls)[i]⟩ := by
    apply Option.some.inj
    rw [← List.getElem?_eq_getElem hi, hplaced, Frame.getElem?_place,
      List.getElem?_eq_getElem hcount, Nat.zero_add]
    rfl
  rw [hframe] at hconfined ⊢
  rw [hplaced, Frame.take_place]
  exact detects_patch hreliable hfits hcount hconfined hne hdamaged

/-- Two octets of the second payload are replaced, or one of its checksum. -/
theorem damage_detected_second :
    let calls : List Call := [.append [1, 2] true, .append [3, 4, 5] false, .append [6] true]
    let image := Frame.encodeAll (appended calls)
    let holds := fun (log : MemoryLog) bytes => log.bytes = bytes
    (∀ payload ∈ appended calls, Frame.Fits payload) ∧ holds (run MemoryLog.empty calls).2 image ∧
      Bytes.patch image 19 [7, 8] ≠ image ∧ Bytes.patch image 14 [0] ≠ image ∧
      Detects holds ⟨Bytes.patch image 19 [7, 8]⟩ (Bytes.patch image 19 [7, 8]) [⟨0, [1, 2]⟩] 10 ∧
      Detects holds ⟨Bytes.patch image 14 [0]⟩ (Bytes.patch image 14 [0]) [⟨0, [1, 2]⟩] 10 := by
  intro calls image holds
  have hfits : ∀ payload ∈ appended calls, Frame.Fits payload := by
    have happended : appended calls = [[1, 2], [3, 4, 5], [6]] := rfl
    rw [happended]
    unfold Frame.Fits
    decide
  have hempty : holds MemoryLog.empty [] := rfl
  obtain ⟨himage, hdetects⟩ := damage_detected MemoryLog.reliable hempty calls hfits
  have hframes : (run MemoryLog.empty calls).1 =
      [⟨0, [1, 2]⟩, ⟨10, [3, 4, 5]⟩, ⟨21, [6]⟩] := by decide +kernel
  have hsecond : 1 < (run MemoryLog.empty calls).1.length := by
    rw [hframes]
    decide
  have hpayload : (⟨10, [3, 4, 5]⟩ : Frame).Confines 19 [7, 8] :=
    .payload (by decide) (by decide) (by decide)
  have hchecksum : (⟨10, [3, 4, 5]⟩ : Frame).Confines 14 [0] := .checksum (by decide) (by decide)
  have hchanged : Bytes.patch image 19 [7, 8] ≠ image ∧ Bytes.patch image 14 [0] ≠ image := by
    decide +kernel
  have hboth := hdetects 1 hsecond
  simp only [hframes] at hboth
  exact ⟨hfits, himage, hchanged.1, hchanged.2, hboth 19 [7, 8] hpayload hchanged.1 _ rfl,
    hboth 14 [0] hchecksum hchanged.2 _ rfl⟩

end Journal

end BatchStore
