import BatchStore.Proofs.Damage
import BatchStore.Proofs.RecoveringAgain

/-!
# Damaged lengths

A header says how long its payload is, and the checksum in it covers the payload
alone. When its length is damaged, the header declares other octets. Mostly these
have another checksum, and a paranoid recovery fails there and leaves the log as it
is. But when they would go past the end of the log, they are taken for a torn
payload, and the intact frames behind are cut off with them; and when they have the
checksum by chance, the log is one to which they were appended.
-/

namespace BatchStore

open LogDevice (Reliable)

namespace Frame

/-- There are a header and the payload that it declares, with the checksum. -/
def Matched (bytes : Bytes) : Prop :=
  headerSize ≤ bytes.length ∧ declaredLength bytes ≤ bytes.length - headerSize ∧
    Checksum.crc32 (declaredPayload bytes) = declaredChecksum bytes

/-- What stands behind the payload that the header in front declares. -/
def behindDeclared (bytes : Bytes) : Bytes := (bytes.drop headerSize).drop (declaredLength bytes)

variable {bytes : Bytes}

theorem declared_cases (h : headerSize ≤ bytes.length) :
    CutPayload bytes ∨ Mismatched bytes ∨ Matched bytes := by
  rcases Nat.lt_or_ge (bytes.length - headerSize) (declaredLength bytes) with hcut | hfull
  · exact .inl ⟨h, hcut⟩
  by_cases hsum : Checksum.crc32 (declaredPayload bytes) = declaredChecksum bytes
  · exact .inr (.inr ⟨h, hfull, hsum⟩)
  · exact .inr (.inl ⟨h, hfull, hsum⟩)

theorem CutPayload.not_mismatched (h : CutPayload bytes) : ¬Mismatched bytes :=
  fun hmismatched => absurd h.2 (Nat.not_lt.mpr hmismatched.2.1)

theorem not_intact_of_cutPayload (h : CutPayload bytes) :
    ∀ payload rest, front bytes ≠ .intact payload rest := by
  intro payload rest hintact
  rw [front_eq, if_neg (Nat.not_lt.mpr h.1), if_pos h.2] at hintact
  cases hintact

theorem front_of_matched (h : Matched bytes) :
    front bytes = .intact (declaredPayload bytes) (behindDeclared bytes) := by
  obtain ⟨hheader, hfull, hsum⟩ := h
  rw [front_eq, if_neg (Nat.not_lt.mpr hheader), if_neg (Nat.not_lt.mpr hfull), if_pos hsum]
  rfl

/-- A tail is an error of a paranoid scan when it has another checksum than it
declares. -/
theorem logError_paranoid_eq_none_iff (bytes : Bytes) :
    logError true bytes = none ↔ ¬Mismatched (tail bytes) := by
  unfold logError tailError
  constructor
  · intro hnone hmismatched
    rw [front_of_mismatched hmismatched] at hnone
    cases hnone
  · intro hnot
    rcases front_not_intact (front_tail bytes) with ⟨-, hfront⟩ | ⟨-, hfront⟩ | ⟨hmismatched, -⟩
    · rw [hfront]
    · rw [hfront]
    · exact absurd hmismatched hnot

/-- From here on a paranoid scan meets no error, and finds fewer frames than one and so
many others. -/
def SilentlyShort (bytes : Bytes) (others : Nat) : Prop :=
  CutPayload bytes ∨
    Matched bytes ∧ ¬Mismatched (tail (behindDeclared bytes)) ∧
      (payloads (behindDeclared bytes)).length < others

theorem silentlyShort_iff (h : headerSize ≤ bytes.length) (others : Nat) :
    SilentlyShort bytes others ↔
      ¬Mismatched (tail bytes) ∧ (payloads bytes).length < others + 1 := by
  unfold SilentlyShort
  rcases declared_cases h with hcut | hmismatched | hmatched
  · have hnone := parse_of_not_intact (not_intact_of_cutPayload hcut)
    rw [hnone.1, hnone.2]
    exact iff_of_true (.inl hcut) ⟨hcut.not_mismatched, Nat.succ_pos others⟩
  · have hnone := parse_of_not_intact (not_intact_of_mismatched hmismatched)
    rw [hnone.2]
    refine iff_of_false ?_ (fun hshort => hshort.1 hmismatched)
    rintro (hcut | ⟨hmatched, -⟩)
    · exact hcut.not_mismatched hmismatched
    · exact hmismatched.2.2 hmatched.2.2
  · obtain ⟨hpayloads, htail⟩ := parse_intact (front_of_matched hmatched)
    rw [hpayloads, htail, List.length_cons, Nat.succ_lt_succ_iff]
    constructor
    · rintro (hcut | ⟨-, hshort⟩)
      · exact absurd hcut.2 (Nat.not_lt.mpr hmatched.2.1)
      · exact hshort
    · exact fun hshort => .inr ⟨hmatched, hshort⟩

/-- The header in front has the checksum of the payload, but another length. -/
structure Relengthened (bytes payload : Bytes) : Prop where
  complete : headerSize ≤ bytes.length
  length : declaredLength bytes ≠ payload.length
  checksum : declaredChecksum bytes = Checksum.crc32 payload

theorem relengthened_patch {payload replacement : Bytes} {offset : Nat}
    (hlast : offset + replacement.length ≤ 4) (rest : Bytes)
    (hne : Bytes.patch (encode payload ++ rest) offset replacement ≠ encode payload ++ rest) :
    Relengthened (Bytes.patch (encode payload ++ rest) offset replacement) payload := by
  have hsize := Bytes.length_ofNat 4 payload.length
  have hsum := Bytes.length_ofWord32 (Checksum.crc32 payload)
  have hinside : offset + replacement.length ≤ (Bytes.ofNat 4 payload.length).length := by omega
  let length := Bytes.patch (Bytes.ofNat 4 payload.length) offset replacement
  have hlength : length.length = 4 := (Bytes.length_patch hinside).trans hsize
  have hfields : (length ++ Bytes.ofWord32 (Checksum.crc32 payload)).length = headerSize := by
    rw [List.length_append, hlength, hsum]
    rfl
  have hstored : encode payload ++ rest = Bytes.ofNat 4 payload.length ++
      (Bytes.ofWord32 (Checksum.crc32 payload) ++ (payload ++ rest)) := by
    rw [encode, List.append_assoc, List.append_assoc]
  have hpatch : Bytes.patch (encode payload ++ rest) offset replacement =
      length ++ Bytes.ofWord32 (Checksum.crc32 payload) ++ (payload ++ rest) := by
    rw [hstored, Bytes.patch_append_right hinside, List.append_assoc]
  have hheader : decodeHeader ((Bytes.patch (encode payload ++ rest) offset replacement).take
      headerSize) = (Bytes.toNat length, Checksum.crc32 payload) := by
    rw [hpatch, List.take_left' hfields, decodeHeader, List.take_left' hlength,
      List.drop_left' hlength, List.take_of_length_le (Nat.le_of_eq hsum),
      Bytes.ofNat_toNat_ofWord32]
  have hdeclared : declaredLength (Bytes.patch (encode payload ++ rest) offset replacement) =
      Bytes.toNat length := congrArg Prod.fst hheader
  refine ⟨?_, ?_, congrArg Prod.snd hheader⟩
  · rw [hpatch, List.length_append, hfields]
    exact Nat.le_add_right _ _
  · -- the octets of a length are determined by it
    intro hsame
    have hunchanged := Bytes.ofNat_toNat length
    rw [hlength, ← hdeclared, hsame] at hunchanged
    rw [hpatch, ← hunchanged, hstored, List.append_assoc] at hne
    exact hne rfl

/-- Frames that stand one behind the other, taken apart at one of them. -/
theorem place_eq_append_cons {offset : Nat} {payloads : List Bytes} {before behind : List Frame}
    {frame : Frame} (h : place offset payloads = before ++ frame :: behind) :
    ∃ earlier later, payloads = earlier ++ frame.payload :: later ∧
      before = place offset earlier ∧ frame.offset = offset + (encodeAll earlier).length := by
  induction before generalizing offset payloads with
  | nil =>
    cases payloads with
    | nil => cases h
    | cons payload payloads =>
      obtain ⟨rfl, -⟩ := List.cons.inj h
      exact ⟨[], payloads, rfl, rfl, rfl⟩
  | cons first before ih =>
    cases payloads with
    | nil => cases h
    | cons payload payloads =>
      obtain ⟨rfl, hrest⟩ := List.cons.inj h
      obtain ⟨earlier, later, rfl, rfl, hoffset⟩ := ih hrest
      refine ⟨payload :: earlier, later, rfl, rfl, ?_⟩
      rw [hoffset, finish_mk, encodeAll_cons, List.length_append, Nat.add_assoc]

end Frame

namespace Journal

variable {δ σ : Type} [LogDevice δ] {holds : δ → Bytes → Prop} {log : δ}

/-- What a paranoid recovery comes to on a log that holds these bytes, when frames
were appended to it and then the header of one of them got another length. -/
structure RecoversRelengthened (holds : δ → Bytes → Prop) (log : δ) (bytes : Bytes)
    (before : List Frame) (frame : Frame) (behind : List Frame) : Prop where
  relengthened : Frame.Relengthened (bytes.drop frame.offset) frame.payload
  fails : Frame.Mismatched (bytes.drop frame.offset) →
    ∀ {σ : Type} (accept : σ → Frame → Except StoreError σ) (state : σ), ∃ error,
      (recover log true accept state).result = .error error
  mismatched : Frame.Mismatched (bytes.drop frame.offset) →
    ∀ {σ : Type} (take : σ → Frame → σ) (state : σ), ∃ after, holds after bytes ∧
      recover log true (accepting take) state =
        ⟨.error (mismatchAt bytes frame.offset), before.foldl take state, after⟩
  cutPayload : Frame.CutPayload (bytes.drop frame.offset) →
    ∀ {σ : Type} (take : σ → Frame → σ) (state : σ), ∃ after,
      holds after (bytes.take frame.offset) ∧
      recover log true (accepting take) state =
        ⟨.ok ⟨before.length, bytes.length - frame.offset⟩, before.foldl take state, after⟩
  /-- The log is one to which the declared payload was appended. -/
  matched : Frame.Matched (bytes.drop frame.offset) →
    bytes = Frame.encodeAll
      (before.map (·.payload) ++ [Frame.declaredPayload (bytes.drop frame.offset)]) ++
        Frame.behindDeclared (bytes.drop frame.offset)
  /-- Whatever the callback does, frames are missing without an error only here. -/
  short : ∀ {σ : Type} (accept : σ → Frame → Except StoreError σ) (state : σ)
    (recovery : Recovery), (recover log true accept state).result = .ok recovery →
    recovery.frames < (before ++ frame :: behind).length →
    Frame.SilentlyShort (bytes.drop frame.offset) behind.length
  silentlyShort : Frame.SilentlyShort (bytes.drop frame.offset) behind.length →
    ∀ {σ : Type} (take : σ → Frame → σ) (state : σ), ∃ recovery,
      (recover log true (accepting take) state).result = .ok recovery ∧
      recovery.frames < (before ++ frame :: behind).length
  error : ∀ {σ : Type} (accept : σ → Frame → Except StoreError σ) (state : σ)
    (error : StoreError), (recover log true accept state).result = .error error →
    holds (recover log true accept state).log bytes

section Behind

variable {payloads : List Bytes} {damaged : Bytes}

/-- A recovery that succeeds has found the frames in front and those of the rest,
and the rest ends in no error. -/
theorem frames_of_recover_ok (hreliable : Reliable holds)
    (hfits : ∀ payload ∈ payloads, Frame.Fits payload)
    (hlog : holds log (Frame.encodeAll payloads ++ damaged))
    {accept : σ → Frame → Except StoreError σ} {state : σ} {recovery : Recovery}
    (h : (recover log true accept state).result = .ok recovery) :
    recovery.frames = payloads.length + (Frame.payloads damaged).length ∧
      ¬Frame.Mismatched (Frame.tail damaged) := by
  obtain ⟨hpayloads, htail⟩ := Frame.parse_encodeAll payloads hfits damaged
  obtain ⟨final, hverdict⟩ := verdict_of_recover_ok hreliable hlog h
  have hpassed := (Frame.logError_paranoid_eq_none_iff _).mp (Frame.verdict_ok hverdict).2
  rw [htail] at hpassed
  rw [(recover_inverts hreliable hlog h).1, Frame.length_ofLog, hpayloads, List.length_append]
  exact ⟨rfl, hpassed⟩

theorem recover_passed (hreliable : Reliable holds)
    (hfits : ∀ payload ∈ payloads, Frame.Fits payload)
    (hlog : holds log (Frame.encodeAll payloads ++ damaged))
    (hpassed : ¬Frame.Mismatched (Frame.tail damaged)) (take : σ → Frame → σ) (state : σ) :
    ∃ after, holds after (Frame.encodeAll (payloads ++ Frame.payloads damaged)) ∧
      recover log true (accepting take) state =
        ⟨.ok ⟨payloads.length + (Frame.payloads damaged).length, (Frame.tail damaged).length⟩,
          (Frame.place 0 (payloads ++ Frame.payloads damaged)).foldl take state, after⟩ := by
  obtain ⟨hpayloads, htail⟩ := Frame.parse_encodeAll payloads hfits damaged
  rw [← htail, ← Frame.logError_paranoid_eq_none_iff] at hpassed
  have hrecover := recover_accepting_ok hreliable hlog hpassed take state
  rw [Frame.length_ofLog, Frame.ofLog, htail, hpayloads, List.length_append] at hrecover
  exact hrecover

end Behind

/-- Frames stand in front of a header with another length. -/
theorem recovers_relengthened (hreliable : Reliable holds) {payloads : List Bytes}
    (hfits : ∀ payload ∈ payloads, Frame.Fits payload) {damaged payload : Bytes}
    (hdamaged : Frame.Relengthened damaged payload) (behind : List Frame)
    (hlog : holds log (Frame.encodeAll payloads ++ damaged)) :
    RecoversRelengthened holds log (Frame.encodeAll payloads ++ damaged)
      (Frame.place 0 payloads) ⟨(Frame.encodeAll payloads).length, payload⟩ behind := by
  have hbehind : (Frame.encodeAll payloads ++ damaged).drop (Frame.encodeAll payloads).length =
      damaged := List.drop_left
  have hcount (frame : Frame) : (Frame.place 0 payloads ++ frame :: behind).length =
      payloads.length + (behind.length + 1) := by
    rw [List.length_append, Frame.length_place, List.length_cons]
  have hshort := Frame.silentlyShort_iff hdamaged.complete behind.length
  constructor
  case relengthened =>
    rw [hbehind]
    exact hdamaged
  case fails =>
    rw [hbehind]
    intro hmismatched σ accept state
    cases hresult : (recover log true accept state).result with
    | error error => exact ⟨error, rfl⟩
    | ok recovery =>
      have hpassed := (frames_of_recover_ok hreliable hfits hlog hresult).2
      rw [(Frame.parse_of_not_intact (Frame.not_intact_of_mismatched hmismatched)).2] at hpassed
      exact absurd hmismatched hpassed
  case mismatched =>
    rw [hbehind]
    intro hmismatched
    exact (detects_mismatched hreliable hfits hmismatched hlog).recover_paranoid
  case cutPayload =>
    rw [hbehind]
    intro hcut σ take state
    obtain ⟨hnone, htail⟩ := Frame.parse_of_not_intact (Frame.not_intact_of_cutPayload hcut)
    have hpassed : ¬Frame.Mismatched (Frame.tail damaged) := by
      rw [htail]
      exact hcut.not_mismatched
    have hrecover := recover_passed hreliable hfits hlog hpassed take state
    rw [hnone, htail, List.append_nil] at hrecover
    rw [List.take_left, List.length_append, Nat.add_sub_cancel_left, Frame.length_place]
    exact hrecover
  case matched =>
    rw [hbehind]
    intro hmatched
    rw [Frame.map_payload_place, Frame.encodeAll_append, Frame.encodeAll_singleton,
      List.append_assoc, ← (Frame.front_eq_intact (Frame.front_of_matched hmatched)).2]
  case short =>
    rw [hbehind]
    intro σ accept state recovery hok hfewer
    obtain ⟨hframes, hpassed⟩ := frames_of_recover_ok hreliable hfits hlog hok
    rw [hframes, hcount] at hfewer
    exact hshort.mpr ⟨hpassed, Nat.lt_of_add_lt_add_left hfewer⟩
  case silentlyShort =>
    rw [hbehind]
    intro hsilent σ take state
    obtain ⟨hpassed, hfewer⟩ := hshort.mp hsilent
    obtain ⟨after, -, hrecover⟩ := recover_passed hreliable hfits hlog hpassed take state
    refine ⟨_, congrArg Recovered.result hrecover, ?_⟩
    rw [hcount]
    exact Nat.add_lt_add_left hfewer _
  case error =>
    intro σ accept state error herror
    exact holds_of_recover_error hreliable hlog herror

/-- A log is made by calls on an empty journal, and then octets in the length of one
of its frames are replaced. A paranoid recovery fails and leaves the log as it is, or
it finds as many frames as were appended, unless the new length goes past the end of
the log, or takes in octets with the stored checksum. Then nothing tells the log from
one to which these were appended, and what comes behind them may be short. -/
theorem length_damage (hreliable : Reliable holds) (hlog : holds log []) (calls : List Call)
    (hfits : ∀ payload ∈ appended calls, Frame.Fits payload) :
    let image := Frame.encodeAll (appended calls)
    let frames := (run log calls).1
    holds (run log calls).2 image ∧ frames.map (·.payload) = appended calls ∧
      ∀ (before : List Frame) (frame : Frame) (behind : List Frame),
        frames = before ++ frame :: behind →
        ∀ (offset : Nat) (replacement : Bytes), frame.offset ≤ offset →
          offset + replacement.length ≤ frame.offset + 4 →
          Bytes.patch image offset replacement ≠ image →
          ∀ damaged, holds damaged (Bytes.patch image offset replacement) →
            RecoversRelengthened holds damaged (Bytes.patch image offset replacement) before
              frame behind := by
  intro image frames
  have hempty : holds log (Frame.encodeAll []) := hlog
  obtain ⟨hframes, himage⟩ := run_encodeAll hreliable calls hfits hempty
  have hplaced : frames = Frame.place 0 (appended calls) := hframes
  refine ⟨himage, hplaced ▸ Frame.map_payload_place 0 _, ?_⟩
  intro before frame behind hsplit offset replacement hfirst hlast hne damaged hdamaged
  rw [hplaced] at hsplit
  obtain ⟨earlier, later, hpayloads, rfl, hoffset⟩ := Frame.place_eq_append_cons hsplit
  rw [Nat.zero_add] at hoffset
  have hstored : image = Frame.encodeAll earlier ++
      (Frame.encode frame.payload ++ Frame.encodeAll later) := by
    rw [← Frame.encodeAll_cons, ← Frame.encodeAll_append, ← hpayloads]
  have hpatch : Bytes.patch image offset replacement = Frame.encodeAll earlier ++
      Bytes.patch (Frame.encode frame.payload ++ Frame.encodeAll later)
        (offset - frame.offset) replacement := by
    rw [hstored, hoffset]
    exact Bytes.patch_append_left (hoffset ▸ hfirst) _
  have hchanged : Bytes.patch (Frame.encode frame.payload ++ Frame.encodeAll later)
      (offset - frame.offset) replacement ≠ Frame.encode frame.payload ++ Frame.encodeAll later := by
    intro hsame
    rw [hpatch, hsame, hstored] at hne
    exact hne rfl
  have hearlier : ∀ payload ∈ earlier, Frame.Fits payload := by
    intro payload hmem
    exact hfits payload (hpayloads ▸ List.mem_append_left _ hmem)
  have hrelengthened := Frame.relengthened_patch
    (by omega : offset - frame.offset + replacement.length ≤ 4) (Frame.encodeAll later) hchanged
  have hframe : frame = ⟨(Frame.encodeAll earlier).length, frame.payload⟩ := by
    rw [← hoffset]
  rw [hpatch] at hdamaged ⊢
  have hrecovers := recovers_relengthened hreliable hearlier hrelengthened behind hdamaged
  rw [← hframe] at hrecovers
  exact hrecovers

/-- The second frame declares one octet less than it has. -/
theorem length_damage_shorter :
    let calls : List Call := [.append [1, 2] true, .append [3, 4, 5] false, .append [6] true]
    let image := Frame.encodeAll (appended calls)
    let bytes := Bytes.patch image 10 [2]
    let holds := fun (log : MemoryLog) bytes => log.bytes = bytes
    (∀ payload ∈ appended calls, Frame.Fits payload) ∧ holds (run MemoryLog.empty calls).2 image ∧
      bytes ≠ image ∧ Frame.Mismatched (bytes.drop 10) ∧
      RecoversRelengthened holds ⟨bytes⟩ bytes [⟨0, [1, 2]⟩] ⟨10, [3, 4, 5]⟩ [⟨21, [6]⟩] := by
  intro calls image bytes holds
  have hfits : ∀ payload ∈ appended calls, Frame.Fits payload := by
    have happended : appended calls = [[1, 2], [3, 4, 5], [6]] := rfl
    rw [happended]
    unfold Frame.Fits
    decide
  have hempty : holds MemoryLog.empty [] := rfl
  obtain ⟨himage, -, hrecovers⟩ := length_damage MemoryLog.reliable hempty calls hfits
  have hframes : (run MemoryLog.empty calls).1 =
      [⟨0, [1, 2]⟩] ++ ⟨10, [3, 4, 5]⟩ :: [⟨21, [6]⟩] := by decide +kernel
  have hchanged : bytes ≠ image := by decide +kernel
  have hmismatched : Frame.Mismatched (bytes.drop 10) := by
    unfold Frame.Mismatched
    decide +kernel
  exact ⟨hfits, himage, hchanged, hmismatched,
    hrecovers _ _ _ hframes 10 [2] (Nat.le_refl 10) (by decide) hchanged _ rfl⟩

/-- A length that goes past the end costs the intact frame behind it, too. Four octets
with the checksum of none are read as an empty payload, and the frame behind is cut. -/
theorem length_damage_cuts :
    let calls : List Call := [.append [1, 2] true, .append [3, 4, 5] false, .append [6] true]
    let image := (run MemoryLog.empty calls).2.bytes
    let colliding : List Call := [.append [0x9d, 0x0a, 0xd9, 0x6d] true, .append [6] true]
    let other := (run MemoryLog.empty colliding).2.bytes
    let recovered := fun bytes : Bytes =>
      recover (⟨bytes⟩ : MemoryLog) true (accepting fun read frame => read ++ [frame]) []
    ((run MemoryLog.empty calls).1 = [⟨0, [1, 2]⟩, ⟨10, [3, 4, 5]⟩, ⟨21, [6]⟩] ∧
      (recovered (Bytes.patch image 11 [1])).result = .ok ⟨1, 20⟩ ∧
      (recovered (Bytes.patch image 11 [1])).state = [⟨0, [1, 2]⟩] ∧
      (recovered (Bytes.patch image 11 [1])).log.bytes = image.take 10) ∧
    (run MemoryLog.empty colliding).1 = [⟨0, [0x9d, 0x0a, 0xd9, 0x6d]⟩, ⟨12, [6]⟩] ∧
      (recovered (Bytes.patch other 0 [0])).result = .ok ⟨1, 13⟩ ∧
      (recovered (Bytes.patch other 0 [0])).state = [⟨0, []⟩] ∧
      (recovered (Bytes.patch other 0 [0])).log.bytes = Frame.encode [] := by
  decide +kernel

end Journal

end BatchStore
