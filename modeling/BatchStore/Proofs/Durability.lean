import BatchStore.Proofs.Logging
import BatchStore.Proofs.Opening
import BatchStore.Proofs.Session
import Mathlib.Data.List.Sort

/-!
# Which writes a later opening replays

The device of a session may fail any append, having stored the beginning of the
frame, and any attempt to make the log durable. Nothing is taken back then, and
the next frame is appended behind whatever is there. A frame is replayed later
exactly when it was complete and stood behind complete frames. So a torn append
takes the writes after it away, and a failed flush leaves a frame that takes
effect although the write has failed.
-/

namespace BatchStore

open LogDevice (Reliable Appending)

namespace Frame

theorem mem_place_iff {offset : Nat} {payloads : List Bytes} {frame : Frame} :
    frame ∈ place offset payloads ↔ ∃ before after, payloads = before ++ frame.payload :: after ∧
      frame.offset = offset + (encodeAll before).length := by
  induction payloads generalizing offset with
  | nil => simp [place]
  | cons payload payloads ih =>
    unfold place
    rw [List.mem_cons, ih, finish_mk]
    constructor
    · rintro (rfl | ⟨before, after, rfl, hoffset⟩)
      · exact ⟨[], payloads, rfl, rfl⟩
      · refine ⟨payload :: before, after, rfl, ?_⟩
        rw [hoffset, encodeAll_cons, List.length_append, Nat.add_assoc]
    · rintro ⟨before, after, hsplit, hoffset⟩
      cases before with
      | nil =>
        obtain ⟨rfl, -⟩ := List.cons.inj hsplit
        obtain ⟨place, payload⟩ := frame
        exact .inl (congrArg (fun offset => Frame.mk offset payload) hoffset)
      | cons first before =>
        obtain ⟨rfl, rfl⟩ := List.cons.inj hsplit
        refine .inr ⟨before, after, rfl, ?_⟩
        rw [hoffset, encodeAll_cons, List.length_append, Nat.add_assoc]

/-- A frame behind some beginning of a log is one of its frames exactly when the
beginning is whole and the frame complete. -/
theorem mem_ofLog_iff {start bytes payload : Bytes} (hstart : start <+: bytes) :
    ⟨start.length, payload⟩ ∈ ofLog bytes ↔
      Whole start ∧ Fits payload ∧ start ++ encode payload <+: bytes := by
  unfold ofLog
  rw [mem_place_iff]
  constructor
  · rintro ⟨before, after, hsplit, hlength⟩
    have hfits : ∀ p ∈ before ++ payload :: after, Fits p := by
      intro p hp
      exact fits_of_mem (hsplit ▸ hp)
    have hbytes := encodeAll_payloads bytes
    rw [hsplit, encodeAll_append, encodeAll_cons, List.append_assoc, List.append_assoc] at hbytes
    simp only [Nat.zero_add] at hlength
    have hsame : start = encodeAll before := by
      rw [List.prefix_iff_eq_take.mp hstart, hlength, ← hbytes, List.take_left]
    refine ⟨?_, hfits payload (List.mem_append_right _ List.mem_cons_self), ?_⟩
    · rw [hsame]
      exact whole_encodeAll fun p hp => hfits p (List.mem_append_left _ hp)
    · rw [hsame]
      exact ⟨encodeAll after ++ tail bytes, (List.append_assoc _ _ _).trans hbytes⟩
  · rintro ⟨hwhole, hfits, rest, rfl⟩
    refine ⟨payloads start, payloads rest, ?_, ?_⟩
    · rw [((hwhole.append_encode hfits).parse_append rest).1, (hwhole.parse_append _).1,
        (parse_encode hfits).1, List.append_assoc]
      rfl
    · rw [← hwhole.eq, Nat.zero_add]

theorem pairwise_place (offset : Nat) (payloads : List Bytes) :
    (place offset payloads).Pairwise fun a b => a.offset < b.offset := by
  induction payloads generalizing offset with
  | nil => exact .nil
  | cons payload payloads ih =>
    refine List.pairwise_cons.mpr ⟨fun frame hmem => ?_, ih _⟩
    obtain ⟨before, -, -, hoffset⟩ := mem_place_iff.mp hmem
    rw [finish_mk, length_encode] at hoffset
    unfold headerSize at hoffset
    show offset < frame.offset
    omega

/-- Frames in ascending order that are all frames of a log stand in the log in
that order. -/
theorem sublist_ofLog {frames : List Frame} {bytes : Bytes}
    (hascending : frames.Pairwise fun a b => a.offset < b.offset)
    (h : ∀ frame ∈ frames, frame ∈ ofLog bytes) : frames.Sublist (ofLog bytes) := by
  have : Std.Antisymm fun a b : Frame => a.offset < b.offset :=
    ⟨fun a b hlt hgt => absurd hgt (Nat.lt_asymm hlt)⟩
  have hnodup : frames.Nodup := hascending.imp fun hlt heq => by
    rw [heq] at hlt
    exact Nat.lt_irrefl _ hlt
  exact List.sublist_of_subperm_of_pairwise (List.subperm_of_subset hnodup h) hascending
    (pairwise_place 0 _)

end Frame

namespace Database

variable {δ : Type} [LogDevice δ] {holds : δ → Bytes → Prop} {log : δ} {bytes : Bytes}

/-- Opening replays all intact frames of the log, and nothing else. -/
theorem opens_iff (hreliable : Reliable holds) (hlog : holds log bytes) {settings : Settings}
    (hvalid : settings.fault? = none) (id : Nat) (frames : List Frame) :
    (∃ db discarded, Opens id settings log db frames discarded) ↔
      frames = Frame.ofLog bytes ∧ (settings.paranoidChecks = true → Acceptable bytes) := by
  constructor
  · rintro ⟨db, discarded, hopens⟩
    have hread := hopens.read
    rw [Journal.readAll_eq hreliable hlog] at hread
    split at hread
    · cases hread
    · next htail =>
      obtain rfl := Except.ok.inj hread
      exact ⟨rfl, (replayed_ok_iff _ _).mp ⟨_, Frame.verdict_of_fold hopens.replayed htail⟩⟩
  · rintro ⟨rfl, hacceptable⟩
    obtain ⟨result, hresult⟩ := (replayed_ok_iff _ _).mpr hacceptable
    exact ⟨_, _, opens_of_replayed hreliable hlog hvalid hresult id⟩

end Database

namespace WriteCall

variable {δ : Type} [LogDevice δ]

instance (call : WriteCall δ) : Decidable call.Succeeds :=
  match h : call.written.result with
  | .ok first => .isTrue ⟨first, h⟩
  | .error _ => .isFalse fun ⟨_, hok⟩ => by rw [h] at hok; cases hok

instance (call : WriteCall δ) : Decidable call.Fails :=
  match h : call.written.result with
  | .ok _ => .isFalse fun ⟨_, herror⟩ => by rw [h] at herror; cases herror
  | .error error => .isTrue ⟨error, h⟩

instance (call : WriteCall δ) : Decidable call.IsLogged :=
  inferInstanceAs (Decidable (_ ∧ _ ∧ _))

/-- The frame that the call puts, or tries to put, at the end of its log. -/
def frame (bytes : δ → Bytes) (call : WriteCall δ) : Frame :=
  ⟨(bytes call.log).length, call.payload⟩

/-- The call has left something in the log. -/
def Leaves (bytes : δ → Bytes) (call : WriteCall δ) : Prop :=
  bytes call.written.log ≠ bytes call.log

instance (bytes : δ → Bytes) (call : WriteCall δ) : Decidable (call.Leaves bytes) :=
  inferInstanceAs (Decidable (_ ≠ _))

theorem not_fails {call : WriteCall δ} (h : call.Succeeds) : ¬call.Fails := by
  rintro ⟨error, herror⟩
  obtain ⟨first, hfirst⟩ := h
  rw [hfirst] at herror
  cases herror

/-- A call is logged with its whole frame; or it succeeds and does not touch the
log; or it fails and leaves nothing, the beginning of its frame or all of it. -/
theorem written_cases {bytes : δ → Bytes} (happending : Appending bytes) (call : WriteCall δ) :
    (call.IsLogged ∧ Frame.Fits call.payload ∧
      bytes call.written.log = bytes call.log ++ Frame.encode call.payload) ∨
    (call.Succeeds ∧ ¬call.IsLogged ∧ call.written.log = call.log) ∨
    (call.Fails ∧ ∃ stored, (Frame.Fits call.payload ∨ stored = 0) ∧
      bytes call.written.log = bytes call.log ++ (Frame.encode call.payload).take stored) := by
  have hnothing : ∃ stored, (Frame.Fits call.payload ∨ stored = 0) ∧
      bytes call.log = bytes call.log ++ (Frame.encode call.payload).take stored :=
    ⟨0, .inr rfl, by rw [List.take_zero, List.append_nil]⟩
  have houtcome := Database.write_outcome call.database call.log call.settings call.batch
  unfold IsLogged Succeeds Fails written
  generalize call.database.write call.log call.settings call.batch = written at houtcome ⊢
  cases houtcome with
  | closed hopen => exact .inr (.inr ⟨⟨_, rfl⟩, hnothing⟩)
  | empty hopen hempty =>
    refine .inr (.inl ⟨⟨_, rfl⟩, ?_, rfl⟩)
    rintro ⟨-, -, hfull⟩
    rw [hempty] at hfull
    cases hfull
  | refused hopen hempty hdecode => exact .inr (.inr ⟨⟨_, rfl⟩, hnothing⟩)
  | unlogged hopen hempty hdecode hlog =>
    exact .inr (.inr ⟨⟨_, rfl⟩, Database.logBatch_error happending hlog⟩)
  | committed hopen hempty hdecode hlog =>
    cases hdisable : call.settings.disableLog with
    | false =>
      exact .inl ⟨⟨⟨_, rfl⟩, rfl, hempty⟩, Database.logBatch_ok happending hdisable hlog⟩
    | true =>
      rw [Database.logBatch_disabled hdisable] at hlog
      refine .inr (.inl ⟨⟨_, rfl⟩, ?_, (Prod.mk.inj hlog).2.symm⟩)
      rintro ⟨-, henabled, -⟩
      cases henabled

theorem IsLogged.stored {bytes : δ → Bytes} (happending : Appending bytes) {call : WriteCall δ}
    (h : call.IsLogged) : Frame.Fits call.payload ∧
      bytes call.written.log = bytes call.log ++ Frame.encode call.payload := by
  rcases written_cases happending call with ⟨-, hstored⟩ | ⟨-, hunlogged, -⟩ | ⟨hfails, -⟩
  · exact hstored
  · exact absurd h hunlogged
  · exact absurd hfails (not_fails h.1)

theorem Leaves.fits {bytes : δ → Bytes} (happending : Appending bytes) {call : WriteCall δ}
    (hfails : call.Fails) (h : call.Leaves bytes) : Frame.Fits call.payload := by
  rcases written_cases happending call with
    ⟨-, hfits, -⟩ | ⟨hsucceeds, -, -⟩ | ⟨-, stored, hfits | rfl, hstored⟩
  · exact hfits
  · exact absurd hfails (not_fails hsucceeds)
  · exact hfits
  · rw [List.take_zero, List.append_nil] at hstored
    exact absurd hstored h

/-- A call takes nothing away from the log. -/
theorem prefix_written {bytes : δ → Bytes} (happending : Appending bytes) (call : WriteCall δ) :
    bytes call.log <+: bytes call.written.log := by
  rcases written_cases happending call with
    ⟨-, -, hstored⟩ | ⟨-, -, hsame⟩ | ⟨-, stored, -, hstored⟩
  · exact ⟨_, hstored.symm⟩
  · exact hsame ▸ List.prefix_rfl
  · exact ⟨_, hstored.symm⟩

end WriteCall

namespace Session

variable {δ : Type} [LogDevice δ] {bytes : δ → Bytes}

theorem step_wrote {session : Session δ} {action : Action} {call : WriteCall δ}
    (h : (session.step action).1 = .wrote call) :
    call.log = session.log ∧ call.written.log = (session.step action).2.log := by
  rcases session.step_cases action with ⟨settings, batch, hwrite⟩ | ⟨hnone, -⟩
  · rw [hwrite] at h ⊢
    obtain rfl := Event.wrote.inj h
    exact ⟨rfl, rfl⟩
  · exact absurd h (hnone call)

theorem prefix_step (happending : Appending bytes) (session : Session δ) (action : Action) :
    bytes session.log <+: bytes (session.step action).2.log := by
  rcases session.step_cases action with ⟨settings, batch, hwrite⟩ | ⟨-, hrests⟩
  · rw [hwrite]
    exact WriteCall.prefix_written happending
      (⟨session.database, session.log, settings, batch⟩ : WriteCall δ)
  · rcases hrests.log with hsame | hsame
    · exact hsame ▸ List.prefix_rfl
    · have hsync : bytes (session.step action).2.log = bytes session.log := by
        rw [hsame, happending.sync]
      exact hsync ▸ List.prefix_rfl

theorem prefix_run (happending : Appending bytes) (session : Session δ) (actions : List Action) :
    bytes session.log <+: bytes (session.run actions).2.log := by
  induction actions generalizing session with
  | nil => exact List.prefix_rfl
  | cons action actions ih => exact (prefix_step happending session action).trans (ih _)

/-- What a call finds and what it leaves stand between the ends of the run. -/
theorem prefix_call (happending : Appending bytes) {session : Session δ} {actions : List Action}
    {call : WriteCall δ} (h : call ∈ Event.writes (session.run actions).1) :
    bytes session.log <+: bytes call.log ∧
      bytes call.written.log <+: bytes (session.run actions).2.log := by
  induction actions generalizing session with
  | nil => cases h
  | cons action actions ih =>
    rcases List.mem_cons.mp (Event.mem_writes.mp h) with hfirst | hlater
    · obtain ⟨hlog, hwritten⟩ := step_wrote hfirst.symm
      rw [hlog, hwritten]
      exact ⟨List.prefix_rfl, prefix_run happending _ actions⟩
    · obtain ⟨hlow, hhigh⟩ := ih (Event.mem_writes.mpr hlater)
      exact ⟨(prefix_step happending session action).trans hlow, hhigh⟩

/-- The frame of a call is one of the frames in the end exactly when the call
found a whole log and the complete frame stands behind it. -/
theorem frame_mem_ofLog_iff (happending : Appending bytes) {session : Session δ}
    {actions : List Action} {call : WriteCall δ}
    (h : call ∈ Event.writes (session.run actions).1) :
    call.frame bytes ∈ Frame.ofLog (bytes (session.run actions).2.log) ↔
      Frame.Whole (bytes call.log) ∧ Frame.Fits call.payload ∧
        bytes call.log ++ Frame.encode call.payload <+: bytes (session.run actions).2.log :=
  Frame.mem_ofLog_iff
    ((WriteCall.prefix_written happending call).trans (prefix_call happending h).2)

/-- A call finds whatever an earlier one has left. -/
theorem pairwise_writes (happending : Appending bytes) (session : Session δ)
    (actions : List Action) :
    (Event.writes (session.run actions).1).Pairwise
      fun earlier later => bytes earlier.written.log <+: bytes later.log := by
  induction actions generalizing session with
  | nil => exact .nil
  | cons action actions ih =>
    have hrest := ih (session.step action).2
    show (Event.writes ((session.step action).1 :: _)).Pairwise _
    cases hevent : (session.step action).1 with
    | wrote call =>
      refine List.pairwise_cons.mpr ⟨fun later hlater => ?_, hrest⟩
      rw [(step_wrote hevent).2]
      exact (prefix_call happending hlater).1
    | _ => exact hrest

/-- The frames of the acknowledged calls, in the order of the calls. -/
def acknowledged (bytes : δ → Bytes) (events : List (Event δ)) : List Frame :=
  ((Event.writes events).filter fun call => call.IsLogged).map (WriteCall.frame bytes)

theorem pairwise_acknowledged (happending : Appending bytes) (session : Session δ)
    (actions : List Action) :
    (acknowledged bytes (session.run actions).1).Pairwise fun a b => a.offset < b.offset := by
  unfold acknowledged
  rw [List.pairwise_map]
  refine ((pairwise_writes happending session actions).filter _).imp_of_mem ?_
  intro earlier later hearlier _ hprefix
  have hlogged : earlier.IsLogged := of_decide_eq_true (List.mem_filter.mp hearlier).2
  have hlength := hprefix.length_le
  rw [(hlogged.stored happending).2, List.length_append, Frame.length_encode] at hlength
  unfold Frame.headerSize at hlength
  show (bytes earlier.log).length < (bytes later.log).length
  omega

variable {ε : Type} [LogDevice ε] {holds : ε → Bytes → Prop}

/-- A later opening replays the frame of every acknowledged call, in the order of
the calls, exactly when each of these calls found a log of complete frames and,
in paranoid mode, the log is acceptable in the end. -/
theorem acknowledged_replayed_iff (happending : Appending bytes) (hreliable : Reliable holds)
    {session final : Session δ} {actions : List Action} {events : List (Event δ)}
    (hrun : session.run actions = (events, final)) {log : ε} (hlog : holds log (bytes final.log))
    {settings : Settings} (hvalid : settings.fault? = none) (id : Nat) :
    (∃ db frames discarded, Database.Opens id settings log db frames discarded ∧
      (acknowledged bytes events).Sublist frames) ↔
    (∀ call ∈ Event.writes events, call.IsLogged → Frame.Whole (bytes call.log)) ∧
      (settings.paranoidChecks = true → Database.Acceptable (bytes final.log)) := by
  have hevents : events = (session.run actions).1 := by rw [hrun]
  have hfinal : final = (session.run actions).2 := by rw [hrun]
  subst hevents hfinal
  have hframes : ∀ call ∈ Event.writes (session.run actions).1, call.IsLogged →
      (call.frame bytes ∈ Frame.ofLog (bytes (session.run actions).2.log) ↔
        Frame.Whole (bytes call.log)) := by
    intro call hmem hlogged
    obtain ⟨hfits, hstored⟩ := hlogged.stored happending
    have hcomplete := (prefix_call happending hmem).2
    rw [hstored] at hcomplete
    rw [frame_mem_ofLog_iff happending hmem]
    exact ⟨fun h => h.1, fun h => ⟨h, hfits, hcomplete⟩⟩
  have hopens := Database.opens_iff hreliable hlog hvalid id
  constructor
  · rintro ⟨db, frames, discarded, hopen, hsublist⟩
    obtain ⟨rfl, hacceptable⟩ := (hopens frames).mp ⟨db, discarded, hopen⟩
    refine ⟨fun call hmem hlogged => (hframes call hmem hlogged).mp (hsublist.subset ?_),
      hacceptable⟩
    exact List.mem_map_of_mem (List.mem_filter.mpr ⟨hmem, decide_eq_true hlogged⟩)
  · rintro ⟨hwhole, hacceptable⟩
    obtain ⟨db, discarded, hopen⟩ := (hopens _).mpr ⟨rfl, hacceptable⟩
    refine ⟨db, _, discarded, hopen, Frame.sublist_ofLog ?_ fun frame hmem => ?_⟩
    · exact pairwise_acknowledged happending session actions
    · obtain ⟨call, hcall, rfl⟩ := List.mem_map.mp hmem
      obtain ⟨hcall, hlogged⟩ := List.mem_filter.mp hcall
      have hlogged : call.IsLogged := of_decide_eq_true hlogged
      exact (hframes call hcall hlogged).mpr (hwhole call hcall hlogged)

/-- The first write fails to flush and the second is acknowledged behind it. -/
theorem acknowledged_replayed_after_flush :
    let held (log : Monitored MemoryLog) := log.device.bytes
    let log := (Monitored.ofDevice MemoryLog.empty).plan ⟨.flush, 0, 0⟩
    let db := Database.restored 0 {} none (VersionTable.empty, 0)
    let ended := (start db log).run [.put {} [97] [49], .put {} [98] [50]]
    (acknowledged held ended.1).map (·.offset) = [25] ∧
      ∃ db frames discarded,
        Database.Opens 1 {} (⟨held ended.2.log⟩ : MemoryLog) db frames discarded ∧
          (acknowledged held ended.1).Sublist frames := by
  intro held log db ended
  have hrun : (start db log).run [.put {} [97] [49], .put {} [98] [50]] = (ended.1, ended.2) := rfl
  have hheld : (⟨held ended.2.log⟩ : MemoryLog).bytes = held ended.2.log := rfl
  have hvalid : ({} : Settings).fault? = none := rfl
  have hwhole : ∀ call ∈ Event.writes ended.1, call.IsLogged → Frame.Whole (held call.log) := by
    decide +kernel
  have hreplayed : Database.replayed ({} : Settings).paranoidChecks (held ended.2.log) =
      .ok (⟨[([97], [⟨1, some [49]⟩]), ([98], [⟨1, some [50]⟩])], 4⟩, 1) := by decide +kernel
  refine ⟨by decide +kernel, ?_⟩
  exact (acknowledged_replayed_iff (Monitored.appending MemoryLog.appending) MemoryLog.reliable
    hrun hheld hvalid 1).mpr ⟨hwhole, (Database.replayed_ok_iff _ _).mp ⟨_, hreplayed⟩⟩

/-- The first append is torn after three bytes. The second write is acknowledged
behind them, and no opening replays it. -/
theorem acknowledged_lost_behind_torn_append :
    let held (log : Monitored MemoryLog) := log.device.bytes
    let log := (Monitored.ofDevice MemoryLog.empty).plan ⟨.append, 0, 3⟩
    let db := Database.restored 0 {} none (VersionTable.empty, 0)
    let ended := (start db log).run [.put {} [97] [49], .put {} [98] [50]]
    Database.openLog 0 {} log = (.ok db, log) ∧ (acknowledged held ended.1).map (·.offset) = [3] ∧
      ∀ paranoidChecks, ¬∃ db frames discarded,
        Database.Opens 1 { paranoidChecks } (⟨held ended.2.log⟩ : MemoryLog) db frames discarded ∧
          (acknowledged held ended.1).Sublist frames := by
  intro held log db ended
  have hone : (acknowledged held ended.1).map (·.offset) = [3] := by decide +kernel
  have hopened : Database.openLog 0 {} log = (.ok db, log) := Database.recover_empty rfl 0 {} none
  refine ⟨hopened, hone, ?_⟩
  rintro paranoidChecks ⟨db, frames, discarded, hopens, hsublist⟩
  have hnone : (Journal.readAll (⟨held ended.2.log⟩ : MemoryLog) paranoidChecks).1 = .ok [] := by
    cases paranoidChecks <;> decide +kernel
  obtain rfl := Except.ok.inj (hopens.read.symm.trans hnone)
  rw [List.sublist_nil.mp hsublist] at hone
  cases hone

/-- No later opening replays a frame that a failed call has left, exactly when
no failed call has left its whole frame behind complete frames. -/
theorem failed_never_replayed_iff (happending : Appending bytes) (hreliable : Reliable holds)
    {session final : Session δ} {actions : List Action} {events : List (Event δ)}
    (hrun : session.run actions = (events, final)) {log : ε}
    (hlog : holds log (bytes final.log)) :
    (∀ call ∈ Event.writes events, call.Fails → call.Leaves bytes →
      ∀ id settings db frames discarded,
        Database.Opens id settings log db frames discarded → call.frame bytes ∉ frames) ↔
    ∀ call ∈ Event.writes events, call.Fails → call.Leaves bytes →
      Frame.Whole (bytes call.log) →
        ¬bytes call.log ++ Frame.encode call.payload <+: bytes final.log := by
  have hevents : events = (session.run actions).1 := by rw [hrun]
  have hfinal : final = (session.run actions).2 := by rw [hrun]
  subst hevents hfinal
  have hframe : ∀ call ∈ Event.writes (session.run actions).1, call.Fails → call.Leaves bytes →
      (call.frame bytes ∈ Frame.ofLog (bytes (session.run actions).2.log) ↔
        Frame.Whole (bytes call.log) ∧
          bytes call.log ++ Frame.encode call.payload <+: bytes (session.run actions).2.log) := by
    intro call hmem hfails hleaves
    rw [frame_mem_ofLog_iff happending hmem]
    exact ⟨fun h => ⟨h.1, h.2.2⟩, fun h => ⟨h.1, hleaves.fits happending hfails, h.2⟩⟩
  constructor
  · intro h call hmem hfails hleaves hwhole hcomplete
    have hvalid : ({ paranoidChecks := false } : Settings).fault? = none := rfl
    obtain ⟨db, discarded, hopens⟩ := (Database.opens_iff hreliable hlog hvalid 0 _).mpr
      ⟨rfl, fun hparanoid => nomatch hparanoid⟩
    exact h call hmem hfails hleaves _ _ _ _ _ hopens
      ((hframe call hmem hfails hleaves).mpr ⟨hwhole, hcomplete⟩)
  · intro h call hmem hfails hleaves id settings db frames discarded hopens hfound
    obtain ⟨hvalid, -⟩ := Database.of_openLog hreliable hlog (Prod.ext hopens.opened rfl)
    obtain ⟨rfl, -⟩ := (Database.opens_iff hreliable hlog hvalid id _).mp ⟨db, discarded, hopens⟩
    obtain ⟨hwhole, hcomplete⟩ := (hframe call hmem hfails hleaves).mp hfound
    exact h call hmem hfails hleaves hwhole hcomplete

/-- A torn append leaves nothing that a later opening would replay. -/
theorem failed_never_replayed_after_torn_append :
    let held (log : Monitored MemoryLog) := log.device.bytes
    let log := (Monitored.ofDevice MemoryLog.empty).plan ⟨.append, 1, 3⟩
    let db := Database.restored 0 {} none (VersionTable.empty, 0)
    let ended := (start db log).run [.put {} [97] [49], .put {} [98] [50], .delete {} [97]]
    (∃ call ∈ Event.writes ended.1, call.Fails ∧ call.Leaves held) ∧
      ∀ call ∈ Event.writes ended.1, call.Fails → call.Leaves held →
        ∀ id settings db frames discarded,
          Database.Opens id settings (⟨held ended.2.log⟩ : MemoryLog) db frames discarded →
            call.frame held ∉ frames := by
  intro held log db ended
  have hrun : (start db log).run [.put {} [97] [49], .put {} [98] [50], .delete {} [97]] =
      (ended.1, ended.2) := rfl
  have hheld : (⟨held ended.2.log⟩ : MemoryLog).bytes = held ended.2.log := rfl
  refine ⟨by decide +kernel, ?_⟩
  exact (failed_never_replayed_iff (Monitored.appending MemoryLog.appending) MemoryLog.reliable
    hrun hheld).mpr (by decide +kernel)

/-- A write whose flush fails takes effect when the log is opened again, in
either mode: its key has the value and its sequence number is the latest. -/
theorem failed_replayed_after_flush :
    let held (log : Monitored MemoryLog) := log.device.bytes
    let log := (Monitored.ofDevice MemoryLog.empty).plan ⟨.flush, 0, 0⟩
    let db := Database.restored 0 {} none (VersionTable.empty, 0)
    let ended := (start db log).run [.put {} [97] [49]]
    Database.openLog 0 {} log = (.ok db, log) ∧
      (ended.2.database.last = 0 ∧ ended.2.database.get {} [97] = .ok none) ∧
      ∃ call ∈ Event.writes ended.1, call.Fails ∧ call.Leaves held ∧
        ∀ paranoidChecks, ∃ reopened, Database.Opens 1 { paranoidChecks }
          (⟨held ended.2.log⟩ : MemoryLog) reopened [call.frame held] 0 ∧
            reopened.last = 1 ∧ reopened.get {} [97] = .ok (some [49]) := by
  intro held log db ended
  have hopened : Database.openLog 0 {} log = (.ok db, log) := Database.recover_empty rfl 0 {} none
  refine ⟨hopened, by decide +kernel, ⟨db, log, {}, Batch.empty.put [97] [49]⟩,
    Event.mem_writes.mpr List.mem_cons_self, by decide +kernel, by decide +kernel,
    fun paranoidChecks => ?_⟩
  have hheld : (⟨held ended.2.log⟩ : MemoryLog).bytes = held ended.2.log := rfl
  have hvalid : ({ paranoidChecks } : Settings).fault? = none := rfl
  have hreplayed : Database.replayed ({ paranoidChecks } : Settings).paranoidChecks
      (held ended.2.log) = .ok (⟨[([97], [⟨1, some [49]⟩])], 2⟩, 1) := by
    cases paranoidChecks <;> decide +kernel
  have hframes : Frame.ofLog (held ended.2.log) =
      [WriteCall.frame held ⟨db, log, {}, Batch.empty.put [97] [49]⟩] := by decide +kernel
  have htail : Frame.tail (held ended.2.log) = [] := by decide +kernel
  have hopens := Database.opens_of_replayed MemoryLog.reliable hheld hvalid hreplayed 1
  rw [hframes, htail] at hopens
  refine ⟨_, hopens, rfl, ?_⟩
  cases paranoidChecks <;> decide +kernel

end Session

end BatchStore
