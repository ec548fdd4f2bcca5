import BatchStore.Proofs.Recovery
import BatchStore.Proofs.Scanning

/-!
# Paranoid and lenient opening

The two modes of opening differ in what they make of a complete frame that is bad:
one with another checksum than its header says, or one that holds no decodable
batch. Paranoid opening fails at the first bad frame and leaves the log alone;
lenient opening ends the log at a wrong checksum and passes over an undecodable
batch. Where no frame is bad the modes come to the same.
-/

namespace BatchStore

open LogDevice (Reliable)

namespace Frame

/-- A frame as it is stored, with the checksum that its header holds, be it right or
wrong. -/
structure Stored where
  offset : Nat
  checksum : UInt32
  payload : Bytes
  deriving DecidableEq, Repr

/-- The complete frames that stand one behind the other from an offset on, up to a
frame that is cut off or to the end. Where a frame ends is told by its header alone. -/
def complete (offset : Nat) (bytes : Bytes) : List Stored :=
  if headerSize ≤ bytes.length ∧ declaredLength bytes ≤ bytes.length - headerSize then
    ⟨offset, declaredChecksum bytes, declaredPayload bytes⟩ ::
      complete (offset + headerSize + declaredLength bytes)
        (bytes.drop (headerSize + declaredLength bytes))
  else []
termination_by bytes.length
decreasing_by
  rw [List.length_drop]
  unfold headerSize at *
  omega

namespace Stored

def isIntact (stored : Stored) : Bool := Checksum.crc32 stored.payload = stored.checksum

def frame (stored : Stored) : Frame := ⟨stored.offset, stored.payload⟩

/-- What is wrong with a complete frame: first its checksum is looked at, then the
batch that it holds. -/
def fault? (stored : Stored) : Option StoreError :=
  if stored.isIntact then
    match DecodedBatch.ofBytes stored.payload with
    | .ok _ => none
    | .error error => some (.corruptLog (.undecodable stored.offset error))
  else some (.checksumMismatch stored.offset stored.checksum (Checksum.crc32 stored.payload))

theorem isIntact_iff (stored : Stored) :
    stored.isIntact = true ↔ Checksum.crc32 stored.payload = stored.checksum :=
  decide_eq_true_iff

end Stored

theorem complete_of_torn {bytes : Bytes} (h : front bytes = .torn) (offset : Nat) :
    complete offset bytes = [] := by
  rw [complete]
  rw [front_eq] at h
  split at h
  · exact if_neg (by omega)
  split at h
  · exact if_neg (by omega)
  split at h
  · cases h
  · cases h

theorem complete_of_damaged {bytes : Bytes} {stored computed : UInt32}
    (h : front bytes = .damaged stored computed) (offset : Nat) :
    ∃ first later, complete offset bytes = first :: later ∧ first.isIntact = false ∧
      first.fault? = some (.checksumMismatch offset stored computed) := by
  rw [complete]
  rw [front_eq] at h
  split at h
  · cases h
  split at h
  · cases h
  split at h
  · cases h
  · next hlong hfull hsum =>
    obtain ⟨rfl, rfl⟩ := Front.damaged.inj h
    let first : Stored := ⟨offset, declaredChecksum bytes, declaredPayload bytes⟩
    have hbad : ¬first.isIntact = true := fun hintact => hsum ((Stored.isIntact_iff first).mp hintact)
    rw [if_pos ⟨Nat.le_of_not_lt hlong, Nat.le_of_not_lt hfull⟩]
    exact ⟨first, _, rfl, Bool.eq_false_iff.mpr hbad, if_neg hbad⟩

theorem complete_of_intact {bytes payload rest : Bytes} (h : front bytes = .intact payload rest)
    (offset : Nat) :
    complete offset bytes =
      ⟨offset, Checksum.crc32 payload, payload⟩ :: complete (finish ⟨offset, payload⟩) rest := by
  rw [complete]
  rw [front_eq] at h
  split at h
  · cases h
  split at h
  · cases h
  split at h
  · next hlong hfull hsum =>
    obtain ⟨hpayload, hrest⟩ := Front.intact.inj h
    have hlength : declaredLength bytes = payload.length := by
      rw [← hpayload, declaredPayload, List.length_take, List.length_drop]
      omega
    rw [if_pos ⟨Nat.le_of_not_lt hlong, Nat.le_of_not_lt hfull⟩, ← hsum, hpayload, ← hrest,
      List.drop_drop, hlength]
    rfl
  · cases h

theorem place_payloads (bytes : Bytes) (offset : Nat) :
    place offset (payloads bytes) =
      ((complete offset bytes).takeWhile Stored.isIntact).map Stored.frame := by
  induction hn : bytes.length using Nat.strongRecOn generalizing bytes offset with
  | ind n ih =>
    subst hn
    cases hfront : front bytes with
    | torn =>
      have hnone := (parse_of_not_intact (fun _ _ h => nomatch hfront.symm.trans h)).1
      rw [hnone, complete_of_torn hfront]
      rfl
    | damaged stored computed =>
      have hnone := (parse_of_not_intact (fun _ _ h => nomatch hfront.symm.trans h)).1
      obtain ⟨first, later, hcomplete, hbad, -⟩ := complete_of_damaged hfront offset
      rw [hnone, hcomplete, List.takeWhile_cons_of_neg (Bool.eq_false_iff.mp hbad)]
      rfl
    | intact payload rest =>
      have hgood : Stored.isIntact ⟨offset, Checksum.crc32 payload, payload⟩ = true :=
        (Stored.isIntact_iff _).mpr rfl
      rw [(parse_intact hfront).1, complete_of_intact hfront, List.takeWhile_cons_of_pos hgood,
        List.map_cons, place]
      exact congrArg _ (ih rest.length (length_lt_of_front hfront) rest _ rfl)

/-- The intact frames of a log are the complete ones in front of the first with a
wrong checksum. -/
theorem ofLog_eq_takeWhile (bytes : Bytes) :
    ofLog bytes = ((complete 0 bytes).takeWhile Stored.isIntact).map Stored.frame :=
  place_payloads bytes 0

end Frame

namespace Database

/-- Paranoid replay fails with the fault of the first complete frame that has one. -/
theorem verdict_paranoid (bytes : Bytes) (offset : Nat) (state : Replayed) :
    match (Frame.complete offset bytes).findSome? Frame.Stored.fault? with
    | some error => Frame.verdict true (replayFrame true) offset bytes state = .error error
    | none => ∃ final, Frame.verdict true (replayFrame true) offset bytes state = .ok final := by
  induction hn : bytes.length using Nat.strongRecOn generalizing bytes offset state with
  | ind n ih =>
    subst hn
    cases hfront : Frame.front bytes with
    | torn =>
      have hnone : ∀ payload rest, Frame.front bytes ≠ .intact payload rest :=
        fun _ _ h => nomatch hfront.symm.trans h
      rw [Frame.complete_of_torn hfront, Frame.verdict_of_not_intact hnone, Frame.tailError, hfront]
      exact ⟨state, rfl⟩
    | damaged stored computed =>
      have hnone : ∀ payload rest, Frame.front bytes ≠ .intact payload rest :=
        fun _ _ h => nomatch hfront.symm.trans h
      obtain ⟨first, later, hcomplete, -, hfault⟩ := Frame.complete_of_damaged hfront offset
      rw [hcomplete, List.findSome?_cons, hfault, Frame.verdict_of_not_intact hnone,
        Frame.tailError, hfront]
      rfl
    | intact payload rest =>
      rw [Frame.complete_of_intact hfront, List.findSome?_cons, Frame.verdict_of_intact hfront]
      cases hdecode : DecodedBatch.ofBytes payload with
      | error error =>
        have hfault : Frame.Stored.fault? ⟨offset, Checksum.crc32 payload, payload⟩ =
            some (.corruptLog (.undecodable offset error)) := by
          unfold Frame.Stored.fault?
          rw [if_pos ((Frame.Stored.isIntact_iff _).mpr rfl), hdecode]
        have hrefused : replayFrame true state ⟨offset, payload⟩ =
            .error (.corruptLog (.undecodable offset error)) :=
          replayFrame_undecodable hdecode true state
        rw [hfault, hrefused]
      | ok batch =>
        have hfault : Frame.Stored.fault? ⟨offset, Checksum.crc32 payload, payload⟩ = none := by
          unfold Frame.Stored.fault?
          rw [if_pos ((Frame.Stored.isIntact_iff _).mpr rfl), hdecode]
        have htaken : replayFrame true state ⟨offset, payload⟩ = .ok (replayBatch state batch) :=
          replayFrame_decoded hdecode true state
        rw [hfault, htaken]
        exact ih rest.length (Frame.length_lt_of_front hfront) rest _ _ rfl

theorem replayed_error_iff {bytes : Bytes} {error : StoreError} :
    replayed true bytes = .error error ↔
      (Frame.complete 0 bytes).findSome? Frame.Stored.fault? = some error := by
  have hverdict := verdict_paranoid bytes 0 (VersionTable.empty, 0)
  unfold replayed
  cases hfirst : (Frame.complete 0 bytes).findSome? Frame.Stored.fault? with
  | none =>
    rw [hfirst] at hverdict
    obtain ⟨final, hfinal⟩ := hverdict
    rw [hfinal]
    exact ⟨fun h => (nomatch h), fun h => (nomatch h)⟩
  | some found =>
    rw [hfirst] at hverdict
    simp only at hverdict
    rw [hverdict, Except.error.injEq, Option.some.injEq]

/-- What paranoid replay comes to, lenient replay comes to as well. -/
theorem replayed_lenient {bytes : Bytes} {result : Replayed}
    (h : replayed true bytes = .ok result) : replayed false bytes = .ok result := by
  obtain ⟨found, hfound⟩ := (replayed_ok_iff false bytes).mpr fun hfalse => nomatch hfalse
  rw [hfound, replayed_eq_foldl hfound, ← replayed_eq_foldl h]

end Database

/-- The settings with the checks of one mode. -/
def Settings.inMode (settings : Settings) (paranoid : Bool) : Settings :=
  { settings with paranoidChecks := paranoid }

namespace Database

variable {δ : Type} [LogDevice δ] {holds : δ → Bytes → Prop} {log : δ} {bytes : Bytes}

/-- An opening keeps all but what it discards. -/
theorem kept_openLog (hreliable : Reliable holds) (hlog : holds log bytes) {settings : Settings}
    (hvalid : settings.fault? = none) {result : Replayed}
    (h : replayed settings.paranoidChecks bytes = .ok result) (id : Nat) :
    holds (openLog id settings log).2 (bytes.take (bytes.length - (Frame.tail bytes).length)) := by
  have hkept : bytes.length - (Frame.tail bytes).length =
      (Frame.encodeAll (Frame.payloads bytes)).length := by
    have hsplit := congrArg List.length (Frame.encodeAll_payloads bytes)
    rw [List.length_append] at hsplit
    omega
  obtain ⟨after, hafter, hopen⟩ := openLog_ok hreliable hlog hvalid h id
  rw [hkept, Frame.take_encodeAll, hopen]
  exact hafter

/-- On any log of a device that fails no call: lenient opening succeeds and replays
the complete frames in front of the first one with a wrong checksum. Where
paranoid opening succeeds, both replay the same frames, discard as many bytes, keep
the same log and give the same latest number and the same latest reads. Paranoid
opening fails exactly when a complete frame is bad, with the fault of the first such
frame, and then leaves the bytes of the log as they were. -/
theorem modes_agree (hreliable : Reliable holds) (hlog : holds log bytes) {settings : Settings}
    (hvalid : settings.fault? = none) (id again : Nat) :
    let paranoid := openLog id (settings.inMode true) log
    let lenient := openLog again (settings.inMode false) log
    (∃ db discarded, lenient.1 = .ok db ∧ Opens again (settings.inMode false) log db
      (((Frame.complete 0 bytes).takeWhile Frame.Stored.isIntact).map Frame.Stored.frame)
      discarded) ∧
    (∀ db, paranoid.1 = .ok db → ∃ (other : Database) (frames : List Frame) (discarded : Nat),
      Opens id (settings.inMode true) log db frames discarded ∧
      Opens again (settings.inMode false) log other frames discarded ∧
      holds paranoid.2 (bytes.take (bytes.length - discarded)) ∧
      holds lenient.2 (bytes.take (bytes.length - discarded)) ∧
      db.last = other.last ∧
      ∀ reading : ReadSettings, reading.snapshot = none → db.ReadAlike other reading) ∧
    ∀ error, (paranoid.1 = .error error ↔
        ∃ before stored later, Frame.complete 0 bytes = before ++ stored :: later ∧
          stored.fault? = some error ∧ ∀ earlier ∈ before, earlier.fault? = none) ∧
      (paranoid.1 = .error error → holds paranoid.2 bytes) := by
  intro paranoid lenient
  have hvalid : ∀ mode, (settings.inMode mode).fault? = none := fun _ => hvalid
  have hparanoid : paranoid.1 =
      (replayed true bytes).map (restored id (settings.inMode true) none) :=
    result_openLog hreliable hlog (hvalid true) id
  refine ⟨?_, fun db hdb => ?_, fun error => ⟨?_, fun herror => ?_⟩⟩
  · obtain ⟨result, hresult⟩ := (replayed_ok_iff false bytes).mpr fun hfalse => nomatch hfalse
    have hopens := opens_of_replayed hreliable hlog (hvalid false) hresult again
    rw [← Frame.ofLog_eq_takeWhile]
    exact ⟨_, _, hopens.opened, hopens⟩
  · cases hresult : replayed true bytes with
    | error error =>
      rw [hparanoid, hresult] at hdb
      cases hdb
    | ok result =>
      rw [hparanoid, hresult] at hdb
      obtain rfl := Except.ok.inj hdb
      have hpassed := replayed_lenient hresult
      have hordered := (consistent_replayed hresult).ordered
      refine ⟨restored again (settings.inMode false) none result, Frame.ofLog bytes,
        (Frame.tail bytes).length, opens_of_replayed hreliable hlog (hvalid true) hresult id,
        opens_of_replayed hreliable hlog (hvalid false) hpassed again,
        kept_openLog hreliable hlog (hvalid true) hresult id,
        kept_openLog hreliable hlog (hvalid false) hpassed again, rfl, fun reading hlatest => ?_⟩
      exact readAlike_of_contents hordered hordered (readSequence_latest rfl hlatest)
        (readSequence_latest rfl hlatest) rfl rfl
  · rw [← List.findSome?_eq_some_iff, ← replayed_error_iff, hparanoid]
    cases replayed true bytes with
    | error found => simp only [Except.map, Except.error.injEq]
    | ok result => simp only [Except.map, reduceCtorEq]
  · cases hresult : replayed true bytes with
    | error found => exact (openLog_error hreliable hlog (hvalid true) hresult id).2
    | ok result =>
      rw [hparanoid, hresult] at herror
      cases herror

/-- Behind a good frame stand an undecodable one and one with a wrong checksum, in
either order, or a torn one. -/
theorem modes_agree_behind_good_frame :
    let good := Frame.encode ((Batch.empty.setSequence 5).put [97] [49]).data
    let undecodable := Frame.encode (Batch.data ⟨⟨0, 1⟩, [9]⟩)
    let damaged : Bytes := [1, 0, 0, 0, 0, 0, 0, 0, 9]
    let opening (paranoid : Bool) (image : Bytes) :=
      openLog 0 (({} : Settings).inMode paranoid) (⟨image⟩ : MemoryLog)
    (opening true (good ++ undecodable ++ damaged)).1 =
        .error (.corruptLog (.undecodable 25 (.unknownKind 9))) ∧
      (opening true (good ++ damaged ++ undecodable)).1 =
        .error (.checksumMismatch 25 0 (Checksum.crc32 [9])) ∧
      (opening true (good ++ damaged ++ undecodable)).2.bytes = good ++ damaged ++ undecodable ∧
      (∃ db discarded, Opens 0 (({} : Settings).inMode false)
        (⟨good ++ undecodable ++ damaged⟩ : MemoryLog) db
        [⟨0, ((Batch.empty.setSequence 5).put [97] [49]).data⟩, ⟨25, Batch.data ⟨⟨0, 1⟩, [9]⟩⟩]
        discarded) ∧
      ∃ db other, (opening true (good ++ [9, 9])).1 = .ok db ∧
        (opening false (good ++ [9, 9])).1 = .ok other ∧ db.get {} = other.get {} ∧
        (opening true (good ++ [9, 9])).2 = (opening false (good ++ [9, 9])).2 := by
  intro good undecodable damaged opening
  have hvalid : ({} : Settings).fault? = none := rfl
  have hagree (image : Bytes) :=
    modes_agree MemoryLog.reliable (rfl : (⟨image⟩ : MemoryLog).bytes = image) hvalid 0 0
  obtain ⟨⟨db, discarded', -, hlenient⟩, -, hundecodable⟩ :=
    hagree (good ++ undecodable ++ damaged)
  obtain ⟨-, -, hdamaged⟩ := hagree (good ++ damaged ++ undecodable)
  obtain ⟨-, htorn, -⟩ := hagree (good ++ [9, 9])
  have hfirst : (opening true (good ++ undecodable ++ damaged)).1 =
      .error (.corruptLog (.undecodable 25 (.unknownKind 9))) :=
    (hundecodable _).1.mpr (List.findSome?_eq_some_iff.mp (by decide +kernel))
  have hmismatch : (opening true (good ++ damaged ++ undecodable)).1 =
      .error (.checksumMismatch 25 0 (Checksum.crc32 [9])) :=
    (hdamaged _).1.mpr (List.findSome?_eq_some_iff.mp (by decide +kernel))
  have hreplayed : replayed true (good ++ [9, 9]) = .ok (⟨[([97], [⟨5, some [49]⟩])], 2⟩, 5) := by
    decide +kernel
  obtain ⟨after, -, hopen⟩ := openLog_ok MemoryLog.reliable
    (rfl : (⟨good ++ [9, 9]⟩ : MemoryLog).bytes = good ++ [9, 9])
    (rfl : (({} : Settings).inMode true).fault? = none) hreplayed 0
  obtain ⟨other, frames, discarded, -, hopens, hkept, hkept', -, hreads⟩ :=
    htorn _ (congrArg Prod.fst hopen)
  have hframes : ((Frame.complete 0 (good ++ undecodable ++ damaged)).takeWhile
      Frame.Stored.isIntact).map Frame.Stored.frame =
      [⟨0, ((Batch.empty.setSequence 5).put [97] [49]).data⟩, ⟨25, Batch.data ⟨⟨0, 1⟩, [9]⟩⟩] := by
    decide +kernel
  rw [hframes] at hlenient
  exact ⟨hfirst, hmismatch, (hdamaged _).2 hmismatch, ⟨db, discarded', hlenient⟩, _, other, congrArg Prod.fst hopen,
    hopens.opened, (hreads {} rfl).get, congrArg MemoryLog.mk (hkept.trans hkept'.symm)⟩

end Database

end BatchStore
