import BatchStore.Proofs.Boundaries
import BatchStore.Proofs.LoggedCalls
import BatchStore.Proofs.Recovery

/-!
# Crashes

When no device call of a session has failed, its log is the frames of its logged
batches, one behind the other. A crash may leave any beginning of it. Opening
that beginning replays the batches whose frames are complete and cuts the rest
off, and what is written from then on is found by the next opening behind them.
-/

namespace BatchStore

open LogDevice (Reliable Appending)

/-- The payloads are those of the batches. -/
def Frame.Decode (payloads : List Bytes) (batches : List DecodedBatch) : Prop :=
  payloads.map DecodedBatch.ofBytes = batches.map .ok

namespace Frame.Decode

variable {payloads : List Bytes} {batches : List DecodedBatch}

theorem append {payloads' : List Bytes} {batches' : List DecodedBatch}
    (h : Decode payloads batches) (h' : Decode payloads' batches') :
    Decode (payloads ++ payloads') (batches ++ batches') := by
  unfold Decode at h h' ⊢
  rw [List.map_append, List.map_append, h, h']

theorem decodes (h : Decode payloads batches) :
    ∀ payload ∈ payloads, ∃ batch, DecodedBatch.ofBytes payload = .ok batch := by
  intro payload hmem
  have hfound : DecodedBatch.ofBytes payload ∈ batches.map .ok := h ▸ List.mem_map_of_mem hmem
  obtain ⟨batch, -, hbatch⟩ := List.mem_map.mp hfound
  exact ⟨batch, hbatch.symm⟩

theorem batches_eq {bytes : Bytes} (h : Decode (Frame.payloads bytes) batches) :
    Frame.batches bytes = batches := by
  have hkept : Frame.batches bytes =
      ((Frame.payloads bytes).map DecodedBatch.ofBytes).filterMap Except.toOption := by
    rw [List.filterMap_map]
    rfl
  rw [hkept, h, List.filterMap_map]
  exact List.filterMap_some

theorem of_calls {δ : Type} [LogDevice δ] {calls : List (WriteCall δ)}
    (h : ∀ call ∈ calls, DecodedBatch.ofBytes call.payload = .ok call.decoded) :
    Decode (calls.map WriteCall.payload) (calls.map WriteCall.decoded) := by
  unfold Decode
  rw [List.map_map, List.map_map]
  exact List.map_congr_left h

end Frame.Decode

namespace Database

variable {ε : Type} [LogDevice ε] {holds : ε → Bytes → Prop} {log : ε} {settings : Settings}

/-- A log of decodable batches with a torn tail is opened in either mode. -/
theorem opens_decoded (hreliable : Reliable holds) {bytes : Bytes} (hlog : holds log bytes)
    {batches : List DecodedBatch} (hdecode : Frame.Decode (Frame.payloads bytes) batches)
    (htorn : Frame.front (Frame.tail bytes) = .torn) (hvalid : settings.fault? = none) (id : Nat) :
    ∃ (db : Database) (after : ε), openLog id settings log = (.ok db, after) ∧
      holds after (Frame.encodeAll (Frame.payloads bytes)) ∧
      Opens id settings log db (Frame.ofLog bytes) (Frame.tail bytes).length ∧
      db.Recovers batches := by
  have hacceptable : Acceptable bytes :=
    ⟨hdecode.decodes, fun stored computed hdamaged => by rw [htorn] at hdamaged; cases hdamaged⟩
  rw [← hdecode.batches_eq]
  exact opens_acceptable hreliable hlog hacceptable hvalid id

/-- A log of the frames of decodable batches is opened in either mode, and
nothing is cut off. -/
theorem opens_encodeAll (hreliable : Reliable holds) {payloads : List Bytes}
    (hlog : holds log (Frame.encodeAll payloads)) (hfits : ∀ payload ∈ payloads, Frame.Fits payload)
    {batches : List DecodedBatch} (hdecode : Frame.Decode payloads batches)
    (hvalid : settings.fault? = none) (id : Nat) :
    ∃ db, Opens id settings log db (Frame.place 0 payloads) 0 ∧ db.Recovers batches := by
  have hpayloads := Frame.payloads_encodeAll hfits
  have htail : Frame.tail (Frame.encodeAll payloads) = [] := Frame.whole_encodeAll hfits
  obtain ⟨db, after, -, -, hopens, hrecovers⟩ :=
    opens_decoded hreliable hlog (hpayloads.symm ▸ hdecode) (by rw [htail]; rfl) hvalid id
  rw [htail, Frame.ofLog, hpayloads] at hopens
  exact ⟨db, hopens, hrecovers⟩

end Database

namespace Session

open Event (loggedCalls)

variable {δ ε : Type} [LogDevice δ] [LogDevice ε] {bytes : δ → Bytes} {holds : ε → Bytes → Prop}

/-- The logged calls whose frames end at or before a place in the log. -/
def completeCalls (bytes : δ → Bytes) (events : List (Event δ)) (limit : Nat) :
    List (WriteCall δ) :=
  (loggedCalls events).filter fun call => (call.frame bytes).finish ≤ limit

/-- Cutting the log keeps the frames of the complete calls. -/
theorem ofLog_take_run (happending : Appending bytes) {session : Session δ} (actions : List Action)
    (hbytes : bytes session.log = [])
    (hfaultless : ∀ call ∈ Event.writes (session.run actions).1, call.Faultless) (limit : Nat) :
    Frame.ofLog ((bytes (session.run actions).2.log).take limit) =
        (completeCalls bytes (session.run actions).1 limit).map (WriteCall.frame bytes) ∧
      Frame.payloads ((bytes (session.run actions).2.log).take limit) =
        (completeCalls bytes (session.run actions).1 limit).map WriteCall.payload := by
  obtain ⟨hwhole, hframes⟩ := ofLog_run happending actions hbytes hfaultless
  have hcut : Frame.ofLog ((bytes (session.run actions).2.log).take limit) =
      (completeCalls bytes (session.run actions).1 limit).map (WriteCall.frame bytes) := by
    rw [(Frame.ofLog_take hwhole limit).1, hframes]
    exact List.filter_map
  refine ⟨hcut, ?_⟩
  rw [← Frame.map_payload_ofLog, hcut, List.map_map]
  rfl

/-- Whatever is logged on a reliable device is recovered behind what the log
held when the session began. -/
theorem run_recovered (hreliable : Reliable holds) {session : Session ε} {actions : List Action}
    {payloads : List Bytes} {batches : List DecodedBatch}
    (hlog : holds session.log (Frame.encodeAll payloads))
    (hfits : ∀ payload ∈ payloads, Frame.Fits payload) (hdecode : Frame.Decode payloads batches)
    (hnumbered : session.Numbered actions) {settings : Settings} (hvalid : settings.fault? = none)
    (id : Nat) :
    ∃ db, Database.Opens id settings (session.run actions).2.log db (Frame.place 0 (payloads ++
        (loggedCalls (session.run actions).1).map WriteCall.payload)) 0 ∧
      db.Recovers (batches ++ (loggedCalls (session.run actions).1).map WriteCall.decoded) := by
  have hcalls := decodes_run hnumbered
  have hend := holds_run_of_reliable hreliable actions hlog
  rw [← Frame.encodeAll_append] at hend
  have hroom : ∀ payload ∈ payloads ++ (loggedCalls (session.run actions).1).map WriteCall.payload,
      Frame.Fits payload :=
    List.forall_mem_append.mpr
      ⟨hfits, List.forall_mem_map.mpr fun call hcall => (hcalls call hcall).1⟩
  exact Database.opens_encodeAll hreliable hend hroom
    (hdecode.append (.of_calls fun call hcall => (hcalls call hcall).2)) hvalid id

/-- A session over an empty log runs without a failed device call, and a crash
leaves any beginning of its log. Opening that, in either mode, replays the
logged batches whose frames are complete in it, and cuts the log back to the
highest end of a frame in it. Whatever is logged from then on, the next opening
recovers behind them. -/
theorem crash_at_any_byte {id : Nat} {settings later : Settings}
    {directory : Option Directory} {log unread opened : δ} {db : Database} {actions : List Action}
    {events : List (Event δ)} {session : Session δ} {limit : Nat} {cut : ε}
    (happending : Appending bytes) (hreliable : Reliable holds)
    (hempty : LogDevice.size log = (.ok 0, unread)) (hbytes : bytes unread = [])
    (hopened : Database.recover id settings directory log = (.ok db, opened))
    (hnumbered : (start db opened).Numbered actions)
    (hrun : (start db opened).run actions = (events, session))
    (hfaultless : ∀ call ∈ Event.writes events, call.Faultless)
    (hlimit : limit ≤ (bytes session.log).length)
    (hcut : holds cut ((bytes session.log).take limit)) (hvalid : later.fault? = none)
    (again : Nat) :
    ∃ (reopened : Database) (after : ε) (kept : Nat),
      Database.openLog again later cut = (.ok reopened, after) ∧
      Database.Opens again later cut reopened
        ((completeCalls bytes events limit).map (WriteCall.frame bytes)) (limit - kept) ∧
      reopened.Recovers ((completeCalls bytes events limit).map WriteCall.decoded) ∧
      IsGreatest {boundary | boundary ∈ Frame.boundaries (Frame.ofLog (bytes session.log)) ∧
        boundary ≤ limit} kept ∧
      holds after ((bytes session.log).take kept) ∧
      ∀ (actions' : List Action) (events' : List (Event ε)) (final : Session ε),
        (start reopened after).Numbered actions' →
        (start reopened after).run actions' = (events', final) →
        ∀ (third : Nat) (settings' : Settings), settings'.fault? = none →
          ∃ recovered, Database.Opens third settings' final.log recovered
              (Frame.place 0 ((completeCalls bytes events limit).map WriteCall.payload ++
                (loggedCalls events').map WriteCall.payload)) 0 ∧
            recovered.Recovers ((completeCalls bytes events limit).map WriteCall.decoded ++
              (loggedCalls events').map WriteCall.decoded) := by
  rw [Database.recover_empty hempty] at hopened
  obtain ⟨hdb, rfl⟩ := Prod.mk.inj hopened
  obtain rfl := Except.ok.inj hdb
  obtain ⟨rfl, rfl⟩ := Prod.mk.inj hrun
  have hstart : bytes (start (Database.restored id settings directory (VersionTable.empty, 0))
    unread).log = [] := hbytes
  obtain ⟨hwhole, -⟩ := ofLog_run happending actions hstart hfaultless
  obtain ⟨hframes, hpayloads⟩ := ofLog_take_run happending actions hstart hfaultless limit
  have hcalls := decodes_run hnumbered
  generalize (start _ unread).run actions = ended at *
  have hdecode : Frame.Decode (Frame.payloads ((bytes ended.2.log).take limit))
      ((completeCalls bytes ended.1 limit).map WriteCall.decoded) := by
    rw [hpayloads]
    exact .of_calls fun call hcall => (hcalls call (List.mem_of_mem_filter hcall)).2
  obtain ⟨reopened, after, hopen, hafter, hopens, hrecovers⟩ :=
    Database.opens_decoded hreliable hcut hdecode (Frame.ofLog_take hwhole limit).2 hvalid again
  obtain ⟨hkept, hdiscarded⟩ := Frame.kept_of_take (bytes ended.2.log) limit
  rw [Nat.min_eq_left hlimit] at hdiscarded
  refine ⟨reopened, after, _, hopen, ?_, hrecovers, Frame.isGreatest_boundary hwhole limit, ?_, ?_⟩
  · rw [← hframes, Nat.sub_eq_of_eq_add' hdiscarded.symm]
    exact hopens
  · rw [hkept]
    exact hafter
  · intro actions' events' final hnumbered' hrun' third settings' hvalid'
    obtain ⟨rfl, rfl⟩ := Prod.mk.inj hrun'
    rw [hpayloads] at hafter hdecode
    have hfits : ∀ payload ∈ (completeCalls bytes ended.1 limit).map WriteCall.payload,
        Frame.Fits payload :=
      List.forall_mem_map.mpr fun call hcall => (hcalls call (List.mem_of_mem_filter hcall)).1
    exact run_recovered hreliable hafter hfits hdecode hnumbered' hvalid' third

/-- The log is cut inside the third of its frames; the second holds log data
alone. The unlogged value is gone, the deletion has not taken effect, and the
next write is found behind the first two frames. -/
theorem crash_at_any_byte_inside_frame :
    let db := Database.restored 0 {} none (VersionTable.empty, 0)
    let actions : List Action := [.put {} [97] [49], .write {} (Batch.empty.logData [7]),
      .put { disableLog := true } [98] [50], .takeSnapshot, .delete { sync := true } [97]]
    let written := ((start db MemoryLog.empty).run actions).2.log.bytes
    written.length = 71 ∧ ∀ paranoidChecks, ∃ reopened,
      Database.openLog 1 { paranoidChecks } (⟨written.take 60⟩ : MemoryLog) =
        (.ok reopened, ⟨written.take 48⟩) ∧
      (∃ frames, frames.map Frame.finish = [25, 48] ∧
        Database.Opens 1 { paranoidChecks } (⟨written.take 60⟩ : MemoryLog) reopened frames 12) ∧
      reopened.get {} [97] = .ok (some [49]) ∧ reopened.get {} [98] = .ok none ∧
      ∃ recovered frames, Database.Opens 2 {} ((start reopened
          (⟨written.take 48⟩ : MemoryLog)).run [.put {} [99] [51]]).2.log recovered frames 0 ∧
        recovered.last = 2 ∧ recovered.get {} [97] = .ok (some [49]) ∧
        recovered.get {} [99] = .ok (some [51]) := by
  intro db actions written
  have hrun : (start db MemoryLog.empty).run actions =
      (((start db MemoryLog.empty).run actions).1, ((start db MemoryLog.empty).run actions).2) := rfl
  have hsucceed : ∀ call ∈ Event.writes ((start db MemoryLog.empty).run actions).1,
      call.Succeeds := by decide +kernel
  have hempty : LogDevice.size MemoryLog.empty = (.ok 0, MemoryLog.empty) := rfl
  refine ⟨by decide +kernel, fun paranoidChecks => ?_⟩
  have hcut : (⟨written.take 60⟩ : MemoryLog).bytes = written.take 60 := rfl
  have hvalid : ({ paranoidChecks } : Settings).fault? = none := rfl
  obtain ⟨reopened, after, kept, hopen, hopens, hrecovers, ⟨⟨hmem, hle⟩, hgreatest⟩, hafter, hnext⟩ :=
    crash_at_any_byte MemoryLog.appending MemoryLog.reliable hempty rfl
      (Database.recover_empty hempty 0 {} none) (by decide +kernel) hrun
      (fun call hmem => (hsucceed call hmem).faultless) (by decide +kernel) hcut hvalid 1
  have hboundaries : Frame.boundaries (Frame.ofLog written) = [0, 25, 48, 71] := by decide +kernel
  have hkept : kept = 48 := by
    have hhigh : 48 ≤ kept := hgreatest ⟨by rw [hboundaries]; decide, by decide⟩
    rw [hboundaries] at hmem
    simp only [List.mem_cons, List.not_mem_nil, or_false] at hmem
    omega
  subst hkept
  obtain rfl : after = ⟨written.take 48⟩ := congrArg MemoryLog.mk hafter
  have hreplayed : Database.replayed ({ paranoidChecks } : Settings).paranoidChecks
      (written.take 60) = .ok (⟨[([97], [⟨1, some [49]⟩])], 2⟩, 1) := by
    cases paranoidChecks <;> decide +kernel
  obtain ⟨after, -, hsame⟩ := Database.openLog_ok MemoryLog.reliable hcut hvalid hreplayed 1
  obtain rfl := Except.ok.inj (Prod.mk.inj (hopen.symm.trans hsame)).1
  obtain ⟨recovered, hagain, hall⟩ :=
    hnext [.put {} [99] [51]] _ _ (by cases paranoidChecks <;> decide) rfl 2 {} rfl
  refine ⟨_, hopen, ⟨_, by decide +kernel, hopens⟩, ?_, ?_, recovered, _, hagain, ?_, ?_, ?_⟩
  · rw [(hrecovers.reads {} rfl).get [97]]
    decide +kernel
  · rw [(hrecovers.reads {} rfl).get [98]]
    decide +kernel
  · rw [hall.last]
    cases paranoidChecks <;> decide +kernel
  · rw [(hall.reads {} rfl).get [97]]
    cases paranoidChecks <;> decide +kernel
  · rw [(hall.reads {} rfl).get [99]]
    cases paranoidChecks <;> decide +kernel

end Session

end BatchStore
